import SqlComposer.Clause.Source
import SqlComposer.Payload

/-!
# Insertions and assignments

An insertion names the columns it writes and where their values come from: rows of cells, a fragment
or a query. It may say what to do when a row is in conflict with one that exists already.

Rows may depend on other rows. A row that is inserted before fills the cell of the column that
refers to it; until then the cell is pending. Rows inserted after refer to a key of the inserted
row.

An update sets a column to a value, or adds something to it or takes something off. A fragment may
stand for any number of assignments.
-/

namespace SqlComposer

/-- One cell of an inserted row. -/
inductive Cell where
  | value (term : Term)
  | default
  /-- The key of a row that is still to be inserted. -/
  | pending

namespace Cell

/-- The code of a cell; columns in it are not qualified. -/
def code : Cell → Written
  | value term => term.code none
  | default | pending => .ok [.word "DEFAULT"]

def rowCode (row : List Cell) : Written := do
  return Code.parenthesized (Code.separated ", " (← row.mapM code))

end Cell

/-- Where inserted values come from. -/
inductive InsertSource (Sub : Type) where
  | rows (rows : List (List Cell))
  /-- A fragment in place of the rows. -/
  | raw (fragment : Fragment)
  | query (query : Sub)

/-! ## ON CONFLICT -/

inductive ConflictTarget where
  | columns (columns : List String)
  | raw (fragment : Fragment)
  | inferred

namespace ConflictTarget

def isInferred : ConflictTarget → Bool
  | inferred => true
  | _ => false

def code : ConflictTarget → Written
  | columns names => .ok (.word " " :: Code.parenthesized (Code.nameList names))
  | raw fragment => do return .word " " :: (← fragment.code)
  | inferred => .ok []

end ConflictTarget

/-- What an existing row is set to in a conflict. -/
inductive MergeSpec where
  /-- Every inserted column to the value that was to be inserted. -/
  | inserted
  /-- Some columns to the values that were to be inserted. -/
  | columns (columns : List String)
  /-- Columns to values of their own. -/
  | values (values : List (String × Term))
  | raw (fragment : Fragment)

namespace MergeSpec

/-- Columns set to the values that were to be inserted. -/
def insertedCode (columns : List String) : Written :=
  if columns.isEmpty then .error .nothingMerged
  else .ok <| Code.separated ", " <| columns.map fun column =>
    [.name column, .word " = excluded.", .name column]

def code (inserted : List String) : MergeSpec → Written
  | .inserted => insertedCode inserted
  | columns names => insertedCode names
  | values assigned => do
    let items ← assigned.mapM fun (column, term) => do
      return .name column :: .word " = " :: (← term.code none)
    return Code.separated ", " items
  | raw fragment => fragment.code

end MergeSpec

/-- What happens to a row that is in conflict. -/
inductive ConflictAction where
  | ignore
  | merge (spec : MergeSpec)

structure Conflict where
  target : ConflictTarget
  action : ConflictAction

/-- The code of a reaction. The filter of the statement restricts which rows are merged. -/
def Conflict.code (conflict : Conflict) (inserted : List String) (filter : Filter Written)
    (qualifier : Qualifier) : Written := do
  let target ← conflict.target.code
  match conflict.action with
  | .ignore =>
    if filter.isSet then throw .conditionAfterDoNothing
    return .word " ON CONFLICT" :: target ++ [.word " DO NOTHING"]
  | .merge spec =>
    let values ← spec.code inserted
    let condition : Code := match ← filter.code? qualifier with
      | some condition => .word " WHERE " :: condition
      | none => []
    return .word " ON CONFLICT" :: target ++ .word " DO UPDATE SET " :: values ++ condition

/-! ## INSERT -/

structure Insertion (Sub : Type) where
  columns : List String
  source : InsertSource Sub
  conflict : Option Conflict

namespace Insertion

def sourceCode (insertion : Insertion Written) : Written := do
  let columns := Code.parenthesized (Code.nameList insertion.columns)
  match insertion.source with
  | .rows rows =>
    if insertion.columns.isEmpty then
      if rows.length > 1 then throw .rowsWithoutColumns
      return [.word " DEFAULT VALUES"]
    let rows ← rows.mapM Cell.rowCode
    return columns ++ .word " VALUES " :: Code.separated ", " rows
  | .raw fragment => return columns ++ .word " VALUES " :: (← fragment.code)
  | .query sub => return columns ++ .word " " :: (← sub)

def code (insertion : Insertion Written) (target : Code) (filter : Filter Written)
    (qualifier : Qualifier) : Written := do
  let source ← insertion.sourceCode
  let conflict ← match insertion.conflict with
    | some conflict => conflict.code insertion.columns filter qualifier
    | none => if filter.isSet then throw .conditionOnInsert else pure []
  return .word "INSERT INTO " :: target ++ source ++ conflict

/-- Puts a value into a cell of a row; nothing happens if there is no such cell. -/
def fill {Sub : Type} (insertion : Insertion Sub) (row column : Nat) (value : Literal) :
    Insertion Sub :=
  match insertion.source with
  | .rows rows =>
    { insertion with
      source := .rows (rows.modify row fun cells => cells.set column (.value (.literal value))) }
  | _ => insertion

end Insertion

/-! ## Related rows -/

/-- Rows of another table that are inserted along with a row of an insertion. -/
inductive RelatedInsert where
  /-- A row inserted before, whose key goes into a cell. -/
  | before (row column : Nat) (relation : Relation) (data : Payload)
  /-- Rows inserted after, which refer to the key of the row. -/
  | after (row : Nat) (relation : Relation) (rows : List Payload)

/-! ## Assignments -/

inductive Assignment where
  | set (column : String) (value : Term)
  | raw (fragment : Fragment)
  | increment (column : String) (amount : Term)
  | decrement (column : String) (amount : Term)

namespace Assignment

/-- The code of an assignment; columns in it are not qualified. -/
def code : Assignment → Written
  | set column value => do return .name column :: .word " = " :: (← value.code none)
  | raw fragment => fragment.code
  | increment column amount => do
    return .name column :: .word " = " :: .name column :: .word " + " :: (← amount.code none)
  | decrement column amount => do
    return .name column :: .word " = " :: .name column :: .word " - " :: (← amount.code none)

def stamp (column : String) : Code := [.name column, .word " = now()"]

/-- The list of assignments of an update, followed by the stamp of the table. -/
def listCode (assignments : List Assignment) (stamped : Option String) : Written := do
  if assignments.isEmpty && stamped.isNone then throw .nothingUpdated
  let items ← assignments.mapM code
  return Code.separated ", " (items ++ (stamped.map stamp).toList)

end Assignment
end SqlComposer
