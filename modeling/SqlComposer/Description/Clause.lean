import SqlComposer.Clause.Change
import SqlComposer.Clause.Selection
import SqlComposer.Clause.Source
import SqlComposer.Clause.Transfer
import SqlComposer.Description.Term
import SqlComposer.Window

/-!
# Descriptions of clauses

Sorting, windows, the options of inserts and of copies.
-/

namespace SqlComposer.Description

def readDirection (json : Json) : Reading Direction := do lift (Direction.parse (← text json))

/-- A column with or without a direction, or a fragment. The direction is looked at first. -/
def readOrderItem (json : Json) : Reading OrderItem := do
  match json with
  | .list [column] => lift (OrderItem.ofColumn (← text column) none)
  | .list [column, direction] =>
    let direction ← readDirection direction
    lift (OrderItem.ofColumn (← text column) (some direction))
  | json => return .raw (← field json "raw" readFragment)

/-- Orders a window further, by a column with its direction or by a fragment. -/
def orderWindow (window : Window) (json : Json) : Reading Window := do
  match json with
  | .list [column, direction] =>
    let direction ← readDirection direction
    lift (window.orderBy (← text column) direction)
  | json => return window.orderByRaw (← field json "raw" readFragment)

def readWindow (json : Json) : Reading Window := do
  let partition ← listField json "partition" text
  let window ← partition.foldlM (fun window column => lift (window.partitionBy column)) Window.whole
  (← listField json "order" pure).foldlM orderWindow window

/-- A text is the name of a window. -/
def readOver (json : Json) : Reading Over := do
  match json with
  | .text name => return .named name
  | json => return .window (← readWindow json)

def readConflictTarget (json : Json) : Reading ConflictTarget := do
  match json with
  | .text "inferred" => return .inferred
  | .object [("columns", columns)] => return .columns (← texts columns)
  | .object [("raw", fragment)] => return .raw (← readFragment fragment)
  | _ => malformed "conflict target"

/-- A target is a file, a program or, if neither is given, the client. -/
def readCopyTarget (json : Json) : Reading CopyTarget := do
  match ← optional json "path" text, ← optional json "program" text with
  | some path, _ => return .path path
  | none, some program => return .program program
  | none, none => return .client

def readCopy (json : Json) : Reading CopyOptions := do
  let direction : CopyDirection :=
    match ← optional json "direction" text with
    | some "to" => .outOf
    | _ => .into
  let header ← optional json "header" fun
    | .bool present => .ok (CopyHeader.present present)
    | _ => .ok .checked
  return { CopyOptions.plain direction (← readCopyTarget json) with
    columns := ← listField json "columns" text
    format := ← optional json "format" text
    freeze := ← optional json "freeze" flag
    delimiter := ← optional json "delimiter" text
    null := ← optional json "null" text
    header
    quote := ← optional json "quote" text
    escape := ← optional json "escape" text
    forceQuote := ← listField json "force_quote" text
    forceNotNull := ← listField json "force_not_null" text
    forceNull := ← listField json "force_null" text
    encoding := ← optional json "encoding" text }

end SqlComposer.Description
