import SqlComposer.Query

/-!
# What is selected

Methods that add to the selection of a query. The same items are what a change hands back.
-/

namespace SqlComposer.Query

def selectItems (query : Query) (items : List (SelectItem Statement)) : Query :=
  query.modify fun clauses => { clauses with
    selectsAll := false, selection := clauses.selection ++ items }

def select (query : Query) (columns : List String) : Except Error Query := do
  return query.selectItems ((← columns.mapM ColumnRef.parse).map .ofColumn)

def selectAs (query : Query) (column label : String) : Except Error Query := do
  return query.selectItems [⟨.column (← ColumnRef.parse column), some label⟩]

def selectRaw (query : Query) (fragment : Fragment) (label : Option String) : Query :=
  query.selectItems [⟨.raw fragment, label⟩]

def selectQuery (query inner : Query) (label : String) : Query :=
  query.selectItems [⟨.query inner.statement, some label⟩]

/-- Selects every column. -/
def selectAll (query : Query) : Query :=
  query.modify fun clauses => { clauses with selection := [], selectsAll := true }

/-- Drops rows that occur twice. -/
def distinct (query : Query) : Query :=
  query.modify fun clauses => { clauses with distinct := some [] }

/-- Drops rows that agree on some columns with an earlier row. -/
def distinctOn (query : Query) (columns : List String) : Except Error Query := do
  let columns ← columns.mapM ColumnRef.parse
  if columns.isEmpty then throw .distinctOnNothing
  return query.modify fun clauses => { clauses with distinct := some columns }

/-- Counts: a change hands back the number of rows it touched, a selection selects a count. -/
def countOf (query : Query) (argument : Option ColumnRef) : Query :=
  query.modify fun clauses =>
    if clauses.verb.isMutation then
      { clauses with selection := [], selectsAll := false, shape := .rowCount }
    else
      { clauses with
        selection := [⟨.count argument, none⟩], selectsAll := false, shape := .valueOrThrow }

/-- Counts rows. -/
def count (query : Query) : Query := query.countOf none

def countColumn (query : Query) (column : String) : Except Error Query := do
  return query.countOf (some (← ColumnRef.parse column))

/-! ## Windows -/

def window (query : Query) (name : String) (window : Window) : Query :=
  query.modify fun clauses => { clauses with windows := clauses.windows ++ [(name, window)] }

def selectOver (query : Query) (function : String) (column : Option String) (window : Over)
    (label : String) : Except Error Query := do
  checkFunctionName function
  let argument ← column.mapM ColumnRef.parse
  return query.selectItems [⟨.window ⟨function, argument, window⟩, some label⟩]

/-! ## JSON -/

/-- Selects a JSON expression, named after its column unless it is given a name. -/
def selectJson (query : Query) (expression : JsonExpr) (label : Option String) : Query :=
  query.selectItems [⟨.json expression, label⟩]

/-- Selects a path query, which needs a name. -/
def selectJsonPath (query : Query) (target : JsonExpr) (path label : String) :
    Except Error Query :=
  if label.isEmpty then .error .jsonPathUnnamed
  else .ok (query.selectJson (.query target path none) (some label))

/-- How the rows of a query become one JSON value, and in what shape it is handed back. -/
def jsonOf : Shape → String × Shape
  | .one => ("row_to_json(\"t\".*)", .value)
  | .oneOrThrow => ("row_to_json(\"t\".*)", .valueOrThrow)
  | _ => ("COALESCE(json_agg(row_to_json(\"t\".*)), '[]')", .valueOrThrow)

/-- A query around this one that hands back its rows as one JSON value. -/
def json (query : Query) : Query :=
  let (expression, shape) := jsonOf query.clauses.shape
  query.withClauses { Clauses.empty with
    table := query.clauses.table
    label := some "t"
    selection := [⟨.raw (.verbatim expression), some "json"⟩]
    shape
    source := .body (.query query.statement) }

end SqlComposer.Query
