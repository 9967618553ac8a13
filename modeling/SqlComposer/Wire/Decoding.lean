import SqlComposer.Result
import SqlComposer.Wire.Encoding

/-!
# Results from the wire

The columns of a result arrive in binary form with their types, and every row has a value for each
of them. A value that is no value of its type and a type without a meaning are failures that name
the column; the latter even where the value is null.
-/

namespace SqlComposer.Wire

/-- The bytes, if there are as many as a width. -/
def exactly? (width : Nat) (bytes : List UInt8) : Option (List UInt8) :=
  if bytes.length = width then some bytes else none

/-- An instant from its microseconds on the wire. -/
def instantOfMicros? (micros : Int) : Option Instant :=
  let nanos := wireEpochSeconds * 1000000000 + micros * 1000
  Instant.checked ⟨nanos / 1000000000, (nanos % 1000000000).toNat⟩

def jsonOf? (bytes : List UInt8) : Option Json := do Json.read (← ofTextBytes? bytes)

/-- JSON behind the mark of its version. -/
def markedJsonOf? : List UInt8 → Option Json
  | 1 :: rest => jsonOf? rest
  | _ => none

/-- How the client reads the values of a type, if the type has a meaning for it. A database has
readers of its own for what it is sent, and they are not these: they take days outside of the
client's calendar. -/
def reader? : WireType → Option (List UInt8 → Option Literal)
  | .bool => some fun bytes => do
    return .bool ((← exactly? 1 bytes) != [0])
  | .int2 => some fun bytes => do return .int (ofSignedBytes (← exactly? 2 bytes))
  | .int4 => some fun bytes => do return .int (ofSignedBytes (← exactly? 4 bytes))
  | .int8 => some fun bytes => do return .int (ofSignedBytes (← exactly? 8 bytes))
  | .float4 => some fun bytes => do
    return .float (.ofBinary32 (ofBigEndian (← exactly? 4 bytes)))
  | .float8 => some fun bytes => do
    return .float ⟨UInt64.ofNat (ofBigEndian (← exactly? 8 bytes))⟩
  | .numeric => some fun bytes => do
    return .decimal (← (← NumericGroups.ofBytes? bytes).toDecimal?)
  | .text | .varchar | .bpchar | .name | .unknown => some fun bytes =>
    (ofTextBytes? bytes).map .text
  | .json => some fun bytes => (jsonOf? bytes).map .json
  | .jsonb => some fun bytes => (markedJsonOf? bytes).map .json
  | .uuid => some fun bytes => (Uuid.ofBytes? bytes).map .uuid
  | .timestamp | .timestamptz => some fun bytes => do
    return .instant (← instantOfMicros? (ofSignedBytes (← exactly? 8 bytes)))
  | .date => some fun bytes => do
    return .date (← Date.ofDays? (ofSignedBytes (← exactly? 4 bytes) + wireEpochDays))
  | .bytea => some fun bytes => some (.bytes bytes)
  | .other _ => none

/-- Reads a value of a column. `place` is the number of columns in front of it. -/
def decode (place : Nat) (column : String) (type : WireType) (value : WireValue) :
    Except Error Literal :=
  match reader? type with
  | none => .error (.decode column ("unsupported column type " ++ type.typeName))
  | some read =>
    match value with
    | none => .ok .null
    | some bytes =>
      match read bytes with
      | some literal => .ok literal
      | none => .error (.decode column s!"error deserializing column {place}")

/-- The failure of a row that has not one value for each column. -/
def unreadableRow : Error := .query "error parsing response from server"

def decodeRow (columns : List (String × WireType)) (values : List WireValue) :
    Except Error Row := do
  if values.length ≠ columns.length then throw unreadableRow
  let values ← (columns.zip values).zipIdx.mapM fun (((column, type), value), place) =>
    decode place column type value
  return ⟨columns.map (·.1), values⟩

/-- Reads a result; the number of rows counts as touched unless another one is reported. -/
def decodeRows (columns : List (String × WireType)) (rows : List (List WireValue))
    (count : Option Nat) : Except Error RowSet := do
  let rows ← rows.mapM (decodeRow columns)
  return ⟨count.getD rows.length, rows⟩

end SqlComposer.Wire
