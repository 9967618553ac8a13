import SqlComposer.Query.Inserting

/-!
# Changing rows and tables

Methods that turn a query into an update, a deletion or one of the statements on whole tables. An
update or a deletion needs a filter, if only an empty one, unless every row is meant.
-/

namespace SqlComposer.Query

/-- A change that was asked for a count hands back the number of rows it touches. -/
def countingRows (clauses : Clauses Statement) : Clauses Statement :=
  if clauses.counts then { clauses with selection := [], shape := .rowCount } else clauses

/-! ## UPDATE -/

/-- Updates rows further. -/
def pushUpdate (query : Query) (assignments : List Assignment) : Except Error Query := do
  discard <| query.clauses.requireTable "update"
  query.clauses.checkGuarded "update"
  let assignments ← match query.clauses.verb with
    | .update earlier => pure (earlier ++ assignments)
    | .select => pure assignments
    | verb => throw (.wrongVerb "update" verb.name)
  return query.modify fun clauses => countingRows { clauses with verb := .update assignments }

/-- Updates columns to values. Keys that the table does not take are dropped, and so is the column
that is stamped with the current time anyway. -/
def update (query : Query) (data : Payload) : Except Error Query := do
  let table ← query.clauses.requireTable "update"
  let values ← data.columnValues table "update"
  query.pushUpdate <| (values.filter fun (key, _) => table.updatedAt != some key).map
    fun (key, term) => .set key term

def updateRaw (query : Query) (fragment : Fragment) : Except Error Query :=
  query.pushUpdate [.raw fragment]

/-- Adds to a column. -/
def increment (query : Query) (column : String) (amount : Term) : Except Error Query :=
  query.pushUpdate [.increment column amount]

/-- Takes off a column. -/
def decrement (query : Query) (column : String) (amount : Term) : Except Error Query :=
  query.pushUpdate [.decrement column amount]

/-! ## Fallback insertions -/

def fallbackShape (clauses : Clauses Statement) : Shape :=
  let updatesSilently : Bool := match clauses.verb with
    | .update _ => clauses.selection.isEmpty && !clauses.selectsAll
    | _ => false
  if updatesSilently then .rowCount
  else if clauses.shape.expectsOne then clauses.shape
  else .one

def fallbackBase (clauses : Clauses Statement) (table : Table) : Clauses Statement :=
  { Clauses.ofTable table with
    label := clauses.label
    defaults := clauses.defaults
    hooks := clauses.hooks
    selection := clauses.selection
    selectsAll := clauses.selectsAll
    shape := fallbackShape clauses }

/-- Inserts a row if the query matches none. -/
def orCreate (query : Query) (row : Payload) : Except Error Query := do
  let table ← query.clauses.requireTable "or_create"
  if !query.clauses.filter.isSet then throw .fallbackWithoutCondition
  let fallback ← (query.withClauses (fallbackBase query.clauses table)).insert row
  return query.modify fun clauses => { clauses with
    shape :=
      if clauses.shape.expectsOne || clauses.shape = .rowCount then clauses.shape else .one
    inTransaction := true
    fallback := some fallback.statement }

/-- Updates the row that matches, or inserts one if none does. -/
def upsert (query : Query) (data row : Payload) : Except Error Query := do
  let updated ← if data.entries.isEmpty then pure query else query.update data
  updated.orCreate row

/-! ## DELETE -/

/-- Deletes the rows that match. -/
def delete (query : Query) : Except Error Query := do
  discard <| query.clauses.requireTable "delete"
  query.clauses.checkGuarded "delete"
  match query.clauses.verb with
  | .select => return query.modify fun clauses => countingRows { clauses with verb := .delete }
  | verb => throw (.wrongVerb "delete from" verb.name)

/-! ## Whole tables -/

def truncate (query : Query) (options : TruncateOptions) : Except Error Query := do
  discard <| query.clauses.requireTable "truncate"
  match query.clauses.verb with
  | .select => return query.modify fun clauses =>
      { clauses with verb := .truncate options, shape := .void }
  | verb => throw (.wrongVerb "truncate from" verb.name)

def describe (query : Query) (column : Option String) : Except Error Query := do
  discard <| query.clauses.requireTable "column info"
  return query.modify fun clauses => { clauses with
    verb := .describe column, shape := if column.isSome then .oneOrThrow else .all }

def copy (query : Query) (options : CopyOptions) : Except Error Query := do
  discard <| query.clauses.requireTable "copy"
  if let some format := options.format then
    if !CopyOptions.isFormat format then throw (.invalidCopyFormat format)
  match query.clauses.verb with
  | .select => return query.modify fun clauses =>
      { clauses with verb := .copy options, shape := .rowCount }
  | verb => throw (.wrongVerb "copy from" verb.name)

/-! ## Hooks -/

def modifyHooks (query : Query) (change : Hooks → Hooks) : Query :=
  query.modify fun clauses => { clauses with hooks := change clauses.hooks }

/-- Calls a hook before an insertion, which the hook can prevent. -/
def beforeInsert (query : Query) (hook : String) : Query :=
  query.modifyHooks fun hooks => { hooks with beforeInsert := hooks.beforeInsert ++ [hook] }

def afterInsert (query : Query) (hook : String) : Query :=
  query.modifyHooks fun hooks => { hooks with afterInsert := hooks.afterInsert ++ [hook] }

/-- Calls a hook before an update, which the hook can prevent. -/
def beforeUpdate (query : Query) (hook : String) : Query :=
  query.modifyHooks fun hooks => { hooks with beforeUpdate := hooks.beforeUpdate ++ [hook] }

def afterUpdate (query : Query) (hook : String) : Query :=
  query.modifyHooks fun hooks => { hooks with afterUpdate := hooks.afterUpdate ++ [hook] }

end SqlComposer.Query
