import SqlComposer.Query
import SqlComposer.RowPlan

/-!
# Inserting rows

Methods that turn a query into an insertion. What the query selects becomes what the insertion hands
back; its filter is dropped, since conditions given from then on restrict which rows a conflict
merges.
-/

namespace SqlComposer.Query

/-- The shape of an insertion of one row or several that started as a selection of a shape. -/
def insertShape (many : Bool) : Shape → Shape
  | .rowCount => .rowCount
  | .void => .void
  | .pluck => if many then .pluck else .one
  | .rows => if many then .rows else .one
  | .value => if many then .all else .value
  | .valueOrThrow => if many then .all else .valueOrThrow
  | .oneOrThrow => if many then .all else .oneOrThrow
  | .all | .one => if many then .all else .one

/-- Turns a selection into an insertion with the related rows of a plan. -/
def startInsert (query : Query) (insertion : Insertion Statement) (many : Bool)
    (readBack : List String) (related : List RelatedInsert) : Except Error Query :=
  match query.clauses.verb with
  | .select => .ok <| query.modify fun clauses => { clauses with
      filter := .unset
      everyRow := false
      selection := if clauses.counts then [] else clauses.selection
      shape := if clauses.counts then .rowCount else insertShape many clauses.shape
      verb := .insert insertion
      inTransaction := clauses.inTransaction || !related.isEmpty
      readBack
      related }
  | verb => .error (.wrongVerb "insert from" verb.name)

/-- Inserts rows laid over the defaults of the query. -/
def insertRows (query : Query) (rows : List Payload) (many : Bool) : Except Error Query := do
  let table ← query.clauses.requireTable "insert"
  let merged := rows.map fun row => row.onto query.clauses.defaults
  let plan ← RowPlan.ofPayloads table query.catalog.isSome merged
  if plan.columns.isEmpty && rows.length > 1 then throw .rowsWithoutColumns
  query.startInsert ⟨plan.columns, .rows plan.cells, none⟩ many plan.readBack plan.related

/-- Inserts one row. -/
def insert (query : Query) (row : Payload) : Except Error Query := query.insertRows [row] false

/-- Inserts several rows in one statement. -/
def insertMany (query : Query) (rows : List Payload) : Except Error Query :=
  if rows.isEmpty then .error .nothingInserted else query.insertRows rows true

/-- Inserts the rows of a fragment. -/
def insertRaw (query : Query) (columns : List String) (fragment : Fragment) :
    Except Error Query := do
  discard <| query.clauses.requireTable "insert"
  query.startInsert ⟨columns, .raw fragment, none⟩ true [] []

/-- The names of the columns of a selection, each of which has to be known. -/
def sourceColumns (items : List (SelectItem Statement)) : Except Error (List String) :=
  items.mapM fun item =>
    match item.outputName? with
    | some name => .ok name
    | none => .error .sourceColumnUnnamed

/-- Inserts the row that another query selects, extended by values. -/
def insertFrom (query source : Query) (data : Payload) : Except Error Query := do
  let table ← query.clauses.requireTable "insert"
  let clauses := source.clauses
  if !clauses.shape.expectsOne then throw .createFromMultipleRows
  let .select := clauses.verb | throw .sourceNotASelect
  if clauses.selection.isEmpty then throw .sourceWithoutSelection
  let columns ← sourceColumns clauses.selection
  let values ← (data.onto query.clauses.defaults).columnValues table "insert_from"
  let selection := clauses.selection ++ values.map fun (_, term) => ⟨.term term, none⟩
  let statement : Statement := ⟨{ clauses with selection }⟩
  query.startInsert ⟨columns ++ values.map (·.1), .query statement, none⟩ false [] []

/-- Lays values over the defaults for keys that an insertion does not set. -/
def defaults (query : Query) (data : Payload) : Except Error Query :=
  if data.hasNested then .error .nestedDefaults
  else .ok <| query.modify fun clauses =>
    { clauses with defaults := data.onto clauses.defaults }

end SqlComposer.Query

namespace SqlComposer

/-! ## Conflicts -/

/-- An insertion and a conflict that it does not react to yet. -/
structure PendingConflict where
  query : Query
  insertion : Insertion Statement
  target : ConflictTarget

/-- Asks an insertion to react to a conflict. -/
def Query.onConflict (query : Query) (target : ConflictTarget) : Except Error PendingConflict :=
  match query.clauses.verb with
  | .insert insertion => .ok ⟨query, insertion, target⟩
  | _ => .error .conflictWithoutInsert

namespace PendingConflict

/-- The insertion with its reaction, in place of an earlier one. -/
def settle (pending : PendingConflict) (action : ConflictAction) : Query :=
  pending.query.modify fun clauses =>
    let conflict := some ⟨pending.target, action⟩
    { clauses with verb := .insert { pending.insertion with conflict } }

/-- Leaves rows in conflict as they are. -/
def ignore (pending : PendingConflict) : Query := pending.settle .ignore

/-- Merges rows in conflict, for which the target has to be known. -/
def merge (pending : PendingConflict) (spec : MergeSpec) : Except Error Query :=
  if pending.target.isInferred then .error .conflictTargetMissing
  else .ok (pending.settle (.merge spec))

def set (pending : PendingConflict) (data : Payload) : Except Error Query := do
  if pending.target.isInferred then throw .conflictTargetMissing
  let table ← pending.query.clauses.requireTable "on conflict"
  let values ← data.columnValues table "on conflict"
  return pending.settle (.merge (.values values))

end PendingConflict
end SqlComposer
