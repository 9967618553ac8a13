import SqlComposer.Clause.Shape
import SqlComposer.Literal.Diagnostic
import SqlComposer.Schema.Table

/-!
# Results

What comes back from the database is a set of rows with the number of rows that the statement
touched. What a caller gets is an output, whose form is determined by the shape of the query.
-/

namespace SqlComposer

/-! ## Rows -/

structure Row where
  columns : List String
  values : List Literal

namespace Row

def get? (row : Row) (column : String) : Option Literal :=
  if column ∈ row.columns then row.values[row.columns.idxOf column]? else none

def first? (row : Row) : Option Literal := row.values.head?

def size (row : Row) : Nat := row.values.length

/-- The row as a JSON object; a column name that occurs again takes the later value. -/
def toJson (row : Row) : Json :=
  .object <| (row.columns.zip row.values).foldl
    (fun members (column, value) => putEntry column value.toJson members) []

/-- The values that arrived as text read as the types that a table declares for their columns. -/
def decodeText (table : Table) (row : Row) : Except Error Row := do
  let values ← (row.columns.zip row.values).mapM fun (column, value) =>
    table.decodeText column value
  return { row with values }

def diagnostic (row : Row) : String :=
  "Record \x7b columns: " ++ diagnosticList (row.columns.map diagnosticText) ++
    ", values: " ++ diagnosticList (row.values.map Literal.diagnostic) ++ " \x7d"

end Row

/-- The rows that a statement returned and the number of rows it touched. -/
structure RowSet where
  rowCount : Nat
  rows : List Row

def RowSet.empty : RowSet := ⟨0, []⟩

/-! ## Outputs -/

/-- What a caller gets. -/
inductive Output where
  | all (rows : List Row)
  | one (row : Option Row)
  | rows (rows : List (List Literal))
  | pluck (values : List Literal)
  | value (value : Option Literal)
  | rowCount (count : Nat)
  | void

namespace Output

/-- The output of a shape for a result; nothing but the number of rows is handed back unless the
statement returns rows. -/
def ofRowSet (shape : Shape) (returnsRecords : Bool) (result : RowSet) : Output :=
  match shape with
  | .void => void
  | .rowCount => rowCount result.rowCount
  | shape =>
    if returnsRecords then
      match shape with
      | .one | .oneOrThrow => one result.rows.head?
      | .rows => rows (result.rows.map Row.values)
      | .pluck => pluck (result.rows.filterMap Row.first?)
      | .value | .valueOrThrow => value (result.rows.head?.bind Row.first?)
      | _ => all result.rows
    else rowCount result.rowCount

/-- The form of an output as messages show it. -/
def diagnostic : Output → String
  | all found => "All(" ++ diagnosticList (found.map Row.diagnostic) ++ ")"
  | one found => "One(" ++ diagnosticOption (found.map Row.diagnostic) ++ ")"
  | rows found =>
    "Rows(" ++ diagnosticList (found.map fun values =>
      diagnosticList (values.map Literal.diagnostic)) ++ ")"
  | pluck found => "Pluck(" ++ diagnosticList (found.map Literal.diagnostic) ++ ")"
  | value found => "Value(" ++ diagnosticOption (found.map Literal.diagnostic) ++ ")"
  | rowCount count => "RowCount(" ++ toString count ++ ")"
  | void => "Void"

/-- The failure of asking an output for what it does not hold. -/
def mismatch {α : Type} (output : Output) (wanted : String) : Except Error α :=
  .error (.wrongShape wanted output.diagnostic)

def records (output : Output) : Except Error (List Row) :=
  match output with
  | all found => .ok found
  | one found => .ok found.toList
  | other => other.mismatch "records"

def record (output : Output) : Except Error (Option Row) :=
  match output with
  | one found => .ok found
  | all found => .ok found.head?
  | other => other.mismatch "a record"

def singleValue (output : Output) : Except Error (Option Literal) :=
  match output with
  | value found => .ok found
  | other => other.mismatch "a value"

def rowCount? : Output → Option Nat
  | rowCount count => some count
  | _ => none

def executed (output : Output) : Except Error Nat :=
  match output with
  | rowCount count => .ok count
  | void => .ok 0
  | all found => .ok found.length
  | other => other.mismatch "a row count"

end Output
end SqlComposer
