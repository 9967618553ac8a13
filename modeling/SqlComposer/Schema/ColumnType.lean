import SqlComposer.Error
import SqlComposer.Json.Reader
import SqlComposer.Literal

/-!
# Column types

The type of a column says how its values are declared, how a literal is prepared before it is
written, and how a value that arrives as text is read.
-/

namespace SqlComposer

inductive ColumnType where
  | boolean
  | smallInt
  | integer
  | bigInt
  | real
  | double
  | numeric (precisionAndScale : Option (Nat × Nat))
  | text
  | varchar (length : Option Nat)
  | json
  | jsonb
  | uuid
  | timestamp
  | timestampTz
  | date
  | bytea
  deriving DecidableEq, Repr

def NumberFault.integerMessage : NumberFault → String
  | empty => "cannot parse integer from empty string"
  | invalid => "invalid digit found in string"
  | tooLarge => "number too large to fit in target type"
  | tooSmall => "number too small to fit in target type"

def NumberFault.floatMessage : NumberFault → String
  | empty => "cannot parse float from empty string"
  | _ => "invalid float literal"

namespace ColumnType

def toSql : ColumnType → String
  | boolean => "boolean"
  | smallInt => "smallint"
  | integer => "integer"
  | bigInt => "bigint"
  | real => "real"
  | double => "double precision"
  | numeric none => "numeric"
  | numeric (some (precision, scale)) => s!"numeric({precision}, {scale})"
  | text => "text"
  | varchar none => "varchar"
  | varchar (some length) => s!"varchar({length})"
  | json => "json"
  | jsonb => "jsonb"
  | uuid => "uuid"
  | timestamp => "timestamp"
  | timestampTz => "timestamp with time zone"
  | date => "date"
  | bytea => "bytea"

def isJson : ColumnType → Bool
  | json | jsonb => true
  | _ => false

def isTextual : ColumnType → Bool
  | text | varchar _ => true
  | _ => false

/-- Prepares a literal for the column: a JSON column takes every literal but null as JSON. -/
def encode (type : ColumnType) (value : Literal) : Literal :=
  match value with
  | .null => .null
  | value => if type.isJson then .json value.toJson else value

/-- The value of a text that was read as a column's value, or the fault found in it. -/
def decoded {α : Type} (column reason : String) (make : α → Literal) (value : Option α) :
    Except Error Literal :=
  match value with
  | some value => .ok (make value)
  | none => .error (.decode column reason)

/-- Reads a value of this type that arrives as text for a column. A boolean is true when its text
starts with `t`. -/
def decode (type : ColumnType) (column content : String) : Except Error Literal :=
  match type with
  | boolean => .ok (.bool (content.toList.head? == some 't'))
  | smallInt | integer | bigInt =>
    match readInt64 content with
    | .ok value => .ok (.int value)
    | .error fault => .error (.decode column fault.integerMessage)
  | real | double =>
    match Double.read content with
    | .ok value => .ok (.float value)
    | .error fault => .error (.decode column fault.floatMessage)
  | numeric _ => decoded column "invalid decimal" .decimal (Decimal.read content)
  | json | jsonb => decoded column "invalid JSON" .json (Json.read content)
  | uuid => decoded column "invalid UUID" .uuid (Uuid.read content)
  | timestampTz => decoded column "invalid timestamp" .instant (Instant.read content)
  | timestamp => decoded column "invalid timestamp" .instant (Instant.readLocal content)
  | date => decoded column "invalid date" .date (Date.read content)
  | bytea => decoded column "invalid bytea hex literal" .bytes (readByteString content)
  | text | varchar _ => .ok (.text content)

end ColumnType
end SqlComposer
