import SqlComposer.Description.Term
import SqlComposer.Rehearsal

/-!
# Descriptions of results

Rows and outputs as they are handed back, and answers that are prepared for a rehearsal.
-/

namespace SqlComposer.Description

def writeRow (row : Row) : Json :=
  .object [("columns", .list (row.columns.map .text)), ("values", writeLiterals row.values)]

/-- At most one value, as a list. -/
def writeOption {α : Type} (write : α → Json) (value : Option α) : Json :=
  .list (value.map write).toList

def writeOutput : Output → Json
  | .all found => tagged "all" (.list (found.map writeRow))
  | .one found => tagged "one" (writeOption writeRow found)
  | .rows found => tagged "rows" (.list (found.map writeLiterals))
  | .pluck found => tagged "pluck" (writeLiterals found)
  | .value found => tagged "value" (writeOption writeLiteral found)
  | .rowCount count => tagged "row_count" (.int count)
  | .void => .text "void"

/-- A failure by its kind. -/
def readError (json : Json) : Reading Error := do
  let message := (← optional json "message" text).getD ""
  match (← optional json "kind" text).getD "construction" with
  | "construction" => return .refused message
  | "not_found" => return .missing message
  | "more_than_one_row" => return .moreThanOneRow ((← optional json "count" nat).getD 0)
  | "create_from_multiple_rows" => return .createFromMultipleRows
  | "decode" => return .decode ((← optional json "column" text).getD "") message
  | "config" => return .configuration message
  | "serialization" => return .serialization message
  | _ => malformed "kind of a failure"

/-- A result counts its rows unless the description says otherwise. -/
def readRowSet (json : Json) : Reading (Except Error RowSet) := do
  match json.get? "fail" with
  | some failure => return .error (← readError failure)
  | none =>
    let columns ← listField json "columns" text
    let rows ← listField json "rows" readLiterals
    let count := (← optional json "count" nat).getD rows.length
    return .ok ⟨count, rows.map fun values => ⟨columns, values⟩⟩

def readWire (json : Json) : Reading WireValue :=
  match json with
  | .null => .ok none
  | json => (hexBytes json).map some

def writeWire : WireValue → Json
  | some bytes => .text (hexText bytes)
  | none => .null

def readReply (json : Json) : Reading Wire.Reply := do
  let columns ← listField json "columns" fun column => do
    let [name, type] ← texts column | malformed "column"
    return (name, WireType.ofName type)
  let rows ← listField json "rows" fun row => do (← items row).mapM readWire
  return ⟨columns, rows, ← optional json "count" nat⟩

def readAnswer (json : Json) : Reading Wire.Answer := do
  let types := (← listField json "param_types" text).map WireType.ofName
  if ← switch json "fail" then return ⟨types, none⟩
  return ⟨types, some (← readReply json)⟩

end SqlComposer.Description
