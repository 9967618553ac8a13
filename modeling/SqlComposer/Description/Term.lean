import SqlComposer.Description.Reading
import SqlComposer.Fragment
import SqlComposer.Wire.Bytes

/-!
# Descriptions of values

A literal is null or an object whose single member says its type, so that nothing is lost: integers,
decimals and the bits of doubles are texts. Fragments, column references and terms are built on it.
-/

namespace SqlComposer.Description

def readLiteral (json : Json) : Reading Literal := do
  match json with
  | .null => return .null
  | .object [(type, value)] =>
    match type with
    | "bool" => return .bool (← flag value)
    | "int" => return .int (← intText value)
    | "float" => return .float ⟨UInt64.ofNat (ofBigEndian (← hexBytes value))⟩
    | "decimal" => return .decimal (← need "decimal" (Decimal.read (← text value)))
    | "text" => return .text (← text value)
    | "json" => return .json (← nested value)
    | "uuid" => return .uuid (← need "UUID" (Uuid.read (← text value)))
    | "ts" =>
      let [seconds, nanos] ← items value | malformed "seconds and nanoseconds"
      return .instant ⟨← int seconds, ← nat nanos⟩
    | "date" =>
      let [year, month, day] ← items value | malformed "year, month and day"
      return .date (← need "date" (Date.ofParts? (← int year) (← nat month) (← nat day)))
    | "bytes" => return .bytes (← hexBytes value)
    | _ => malformed "type of a literal"
  | _ => malformed "literal"

/-- Every NaN is written alike. -/
def writeLiteral : Literal → Json
  | .null => .null
  | .bool value => tagged "bool" (.bool value)
  | .int value => tagged "int" (.text (toString value))
  | .float value =>
    tagged "float" (.text (if value.isNaN then "nan" else hexText (bigEndian 8 value.bits.toNat)))
  | .decimal value => tagged "decimal" (.text value.toText)
  | .text value => tagged "text" (.text value)
  | .json value => tagged "json" (.text value.toText)
  | .uuid value => tagged "uuid" (.text value.toText)
  | .instant value => tagged "ts" (.list [.int value.seconds, .int value.nanos])
  | .date value => tagged "date" (.list [.int value.year, .int value.month, .int value.day])
  | .bytes value => tagged "bytes" (.text (hexText value))

def readLiterals (json : Json) : Reading (List Literal) := do (← items json).mapM readLiteral

def writeLiterals (values : List Literal) : Json := .list (values.map writeLiteral)

/-- A text alone is a fragment without marks. -/
def readFragment (json : Json) : Reading Fragment := do
  match json with
  | .text sql => return .verbatim sql
  | json => return ⟨← field json "sql" text, ← listField json "values" readLiteral⟩

def writeFragment (fragment : Fragment) : Json :=
  .object [("sql", .text fragment.sql), ("values", writeLiterals fragment.values)]

/-- The table comes first and is null for an unqualified column. -/
def readColumn (json : Json) : Reading ColumnRef := do
  match json with
  | .list [.null, name] => return ⟨none, ← text name⟩
  | .list [table, name] => return ⟨some (← text table), ← text name⟩
  | _ => malformed "column reference"

def writeColumn (column : ColumnRef) : Json := .list [textOrNull column.table, .text column.name]

/-- A column can be given in its parts or as a text that names it. -/
def readTerm (json : Json) : Reading Term := do
  match json with
  | .object [("raw", fragment)] => return .raw (← readFragment fragment)
  | .object [("col", column)] => lift (Term.ofColumn (← text column))
  | .object [("colref", column)] => return .column (← readColumn column)
  | json => return .literal (← readLiteral json)

def writeTerm : Term → Json
  | .literal value => writeLiteral value
  | .raw fragment => tagged "raw" (writeFragment fragment)
  | .column reference => tagged "colref" (writeColumn reference)

end SqlComposer.Description
