import SqlComposer.Literal
import SqlComposer.Wire.Bytes
import SqlComposer.Wire.Type

/-!
# Literals on the wire

A literal is sent in binary form. Integers, doubles, decimals, texts and identifiers take the form
of the declared type where they have one in it; everything else is sent in its own form, whatever
type is declared.
-/

namespace SqlComposer

/-- Midnight of 2000-01-01, from which times are counted on the wire. -/
def wireEpochSeconds : Int := 946684800

/-- The day 2000-01-01, from which dates are counted on the wire. -/
def wireEpochDays : Int := 10957

namespace Instant

/-- The microseconds since the start of the count; what is shorter is cut off. -/
def wireMicros (instant : Instant) : Int :=
  ((instant.seconds - wireEpochSeconds) * 1000000000 + instant.nanos).tdiv 1000

end Instant

namespace Wire

/-- An integer of a width, if it fits. -/
def intBytes? (width : Nat) (value : Int) : Option (List UInt8) :=
  if fitsSigned width value then some (signedBytes width value) else none

/-- JSON for a declared type: one of the two types is marked by a version. -/
def jsonBytes (type : WireType) (value : Json) : List UInt8 :=
  let text := textBytes value.toText
  if type = .jsonb then 1 :: text else text

def decimalBytes (value : Decimal) : List UInt8 := (NumericGroups.ofDecimal value).toBytes

def doubleBytes (value : Double) : List UInt8 := bigEndian 8 value.bits.toNat

/-- An integer for a declared type. -/
def encodeInt (type : WireType) (value : Int) : Option (List UInt8) :=
  match type with
  | .int2 => intBytes? 2 value
  | .int4 => intBytes? 4 value
  | .float4 => some (bigEndian 4 (Double.binary32OfInt value))
  | .float8 => some (doubleBytes (.ofInt value))
  | type =>
    if type.isText then some (textBytes (toString value))
    else if type.isJson then some (jsonBytes type (.int value))
    else some (signedBytes 8 value)

def encodeDouble (type : WireType) (value : Double) : Option (List UInt8) :=
  match type with
  | .float4 => some (bigEndian 4 value.toBinary32)
  | .numeric => (Decimal.ofDouble value).map decimalBytes
  | type =>
    if type.isText then some (textBytes (value.toText .plain))
    else if type.isJson then some (jsonBytes type (.ofDouble value))
    else some (doubleBytes value)

def encodeDecimal (type : WireType) (value : Decimal) : List UInt8 :=
  if type.isText then textBytes value.toText
  else if type.isJson then jsonBytes type (.text value.toText)
  else decimalBytes value

def encodeText (type : WireType) (value : String) : Option (List UInt8) :=
  match type with
  | .numeric => (Decimal.read value).map decimalBytes
  | .uuid => (Uuid.read value).map Uuid.bytes
  | type => some (if type.isJson then jsonBytes type (.text value) else textBytes value)

/-- A literal for a declared type; nothing if it cannot be sent. -/
def encode? (type : WireType) : Literal → Option WireValue
  | .null => some none
  | .bool value => some (some [if value then 1 else 0])
  | .int value => (encodeInt type value).map some
  | .float value => (encodeDouble type value).map some
  | .decimal value => some (some (encodeDecimal type value))
  | .text value => (encodeText type value).map some
  | .json value => some (some (jsonBytes type value))
  | .uuid value => some (some (if type.isText then textBytes value.toText else value.bytes))
  | .instant value => some (some (signedBytes 8 value.wireMicros))
  | .date value => some (some (signedBytes 4 (value.toDays - wireEpochDays)))
  | .bytes value => some (some value)

/-- Literals for declared types; what is beyond the declared types is taken for text. The first that
cannot be sent fails with its place, counted from `place`. -/
def encodeFrom (place : Nat) : List WireType → List Literal → Except Nat (List WireValue)
  | _, [] => .ok []
  | types, value :: rest =>
    match encode? (types.headD .text) value with
    | none => .error place
    | some sent => (encodeFrom (place + 1) types.tail rest).map (sent :: ·)

/-- Literals for declared types, from the first. -/
def encodeAll (types : List WireType) (values : List Literal) : Except Nat (List WireValue) :=
  encodeFrom 0 types values

end Wire
end SqlComposer
