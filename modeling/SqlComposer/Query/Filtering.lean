import SqlComposer.Condition.Shorthand
import SqlComposer.Query.Rows

/-!
# Which rows match

Methods that filter the rows of a query, before and after grouping. A filter has groups: a condition
is added to the last group, where all conditions have to hold, or starts a group of its own, and
some group has to hold. An empty condition counts as a filter that every row passes.
-/

namespace SqlComposer.Query

/-! ## WHERE -/

/-- Demands a condition as well. -/
def filter (query : Query) (condition : Condition Statement) : Query :=
  query.modify fun clauses => { clauses with filter := clauses.filter.and condition }

/-- Accepts a condition instead. -/
def orFilter (query : Query) (condition : Condition Statement) : Query :=
  query.modify fun clauses => { clauses with filter := clauses.filter.or condition }

def filterNot (query : Query) (condition : Condition Statement) : Query :=
  query.filter (.not condition)

def filterJson (query : Query) (shorthand : Json) : Except Error Query := do
  return query.filter (← Shorthand.condition shorthand)

def orFilterJson (query : Query) (shorthand : Json) : Except Error Query := do
  return query.orFilter (← Shorthand.condition shorthand)

def filterHasRow (query inner : Query) : Query := query.filter (.hasRow inner.statement)

/-- Demands that a sub-query has no row. -/
def filterHasNoRow (query inner : Query) : Query := query.filterNot (.hasRow inner.statement)

/-! ## Single rows -/

/-- Demands that the primary key, a single column, has a value. -/
def filterKey (query : Query) (key : Term) : Except Error Query := do
  let table ← query.clauses.requireTable "find"
  match table.primaryKeys with
  | [column] => return query.filter (← Condition.ofTerm column .equals key)
  | [] => throw (.noPrimaryKey table.name)
  | _ => throw (.compositePrimaryKey table.name)

/-- Finds the row of a primary key, which has to exist. -/
def find (query : Query) (key : Term) : Except Error Query := (query.filterKey key).map take

/-- Finds the row of a primary key, if there is one. -/
def findOptional (query : Query) (key : Term) : Except Error Query :=
  (query.filterKey key).map takeOptional

/-- Finds the first row that matches, which has to exist. -/
def findBy (query : Query) (condition : Condition Statement) : Query :=
  (query.filter condition).take

/-- Finds the first row that matches, if there is one. -/
def findByOptional (query : Query) (condition : Condition Statement) : Query :=
  (query.filter condition).takeOptional

/-! ## GROUP BY and HAVING -/

def group (query : Query) (columns : List String) : Except Error Query := do
  let columns ← columns.mapM ColumnRef.parse
  return query.modify fun clauses =>
    { clauses with groups := clauses.groups ++ columns.map .column }

def groupRaw (query : Query) (fragment : Fragment) : Query :=
  query.modify fun clauses => { clauses with groups := clauses.groups ++ [.raw fragment] }

/-- Demands a condition on groups as well. -/
def having (query : Query) (condition : Condition Statement) : Query :=
  query.modify fun clauses => { clauses with having := clauses.having.and condition }

/-- Accepts conditions on groups instead, each on its own. -/
def havingAny (query : Query) (conditions : List (Condition Statement)) : Query :=
  query.modify fun clauses => { clauses with having := conditions.foldl Filter.or clauses.having }

def havingJson (query : Query) (shorthand : Json) : Except Error Query := do
  return query.having (← Shorthand.aggregateCondition shorthand)

def havingRaw (query : Query) (fragments : List Fragment) : Query :=
  query.having (.every (fragments.map .raw))

end SqlComposer.Query
