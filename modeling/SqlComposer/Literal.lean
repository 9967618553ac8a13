import SqlComposer.Json.Value
import SqlComposer.Number.Decimal
import SqlComposer.Time.Text
import SqlComposer.Uuid

/-!
# Literals

A literal is a typed value that reaches the database as a bound parameter, or comes back from it in
a result. Its JSON form is what records are turned into and what a JSON column stores.
-/

namespace SqlComposer

inductive Literal where
  | null
  | bool (value : Bool)
  | int (value : Int)
  | float (value : Double)
  | decimal (value : Decimal)
  | text (value : String)
  | json (value : Json)
  | uuid (value : Uuid)
  | instant (value : Instant)
  | date (value : Date)
  | bytes (value : List UInt8)

namespace Literal

def isNull : Literal → Bool
  | null => true
  | _ => false

def asInt? : Literal → Option Int
  | int value => some value
  | _ => none

def asText? : Literal → Option String
  | text value => some value
  | _ => none

def asBool? : Literal → Option Bool
  | bool value => some value
  | _ => none

/-- The JSON form of a literal. What JSON has no kind for is written as text, bytes as a list of
numbers; a double that JSON cannot hold becomes null. -/
def toJson : Literal → Json
  | null => .null
  | bool value => .bool value
  | int value => .int value
  | float value => .ofDouble value
  | decimal value => .text value.toText
  | text value => .text value
  | json value => value
  | uuid value => .text value.toText
  | instant value => .text (value.toText "+00:00")
  | date value => .text value.toText
  | bytes value => .list (value.map fun byte => .int byte.toNat)

/-- The literal for a JSON value: scalars become typed, lists and objects stay JSON. An integer
that does not fit a signed 64-bit integer becomes a double. -/
def ofJson : Json → Literal
  | .null => null
  | .bool value => bool value
  | .int value => if value < twoTo 63 then int value else float (.ofInt value)
  | .float value => float value
  | .text value => text value
  | .list items => json (.list items)
  | .object members => json (.object members)

end Literal
end SqlComposer
