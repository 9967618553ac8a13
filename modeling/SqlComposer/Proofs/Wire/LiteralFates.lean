import Mathlib.Algebra.Order.Field.Rat
import Mathlib.Tactic.FieldSimp
import SqlComposer.Proofs.Json.ValueReading
import SqlComposer.Proofs.Values.CalendarDays
import SqlComposer.Proofs.Wire.NumericGroups

/-!
# What a sent literal stands for

A literal may come back from the wire as a literal of another kind and still be the same value: an
integer as the text that spells it, a text as the identifier that it spells, a decimal with other
zeros at its end. For each kind of literal and each type the table of fates says whether the bytes
that are sent are read back as the value, are refused by the reader of the type, or are bytes of
another form that the reader may take for another value. The readers are those of the client, by
which it reads back what it sent. A database may take what they refuse: four bytes of JSON that are
sent for a date are no day of the client's calendar, but a day for PostgreSQL.
-/

namespace SqlComposer

/-! ## Values -/

/-- The number that a decimal is. -/
def Decimal.number (x : Decimal) : ℚ :=
  (if x.negative then -(x.mantissa : ℚ) else x.mantissa) / 10 ^ x.scale

namespace Literal

/-- Whether a text spells the value of a literal. Numbers and identifiers are spelled by every text
that is read as them. -/
def SpelledBy : Literal → String → Prop
  | bool value, spelling => spelling = if value then "true" else "false"
  | int value, spelling => readInt64 spelling = .ok value
  | decimal value, spelling => ∃ x, Decimal.read spelling = some x ∧ x.number = value.number
  | text value, spelling => spelling = value
  | json value, spelling => spelling = value.toText
  | uuid value, spelling => Uuid.read spelling = some value
  | instant value, spelling => spelling = value.toText "+00:00"
  | date value, spelling => spelling = value.toText
  | _, _ => False

/-- Whether a literal that was read is the value of a literal that was sent. -/
def Denotes : Literal → Literal → Prop
  | decimal sent, json read => ∃ spelling, read = .text spelling ∧ (decimal sent).SpelledBy spelling
  | sent, json read => read = sent.toJson
  | sent, text read => sent.SpelledBy read
  | bool sent, bool read => read = sent
  | int sent, int read => read = sent
  | int sent, decimal read => read.number = sent
  | decimal sent, int read => read = sent.number
  | decimal sent, decimal read => read.number = sent.number
  | text sent, bool read => (bool read).SpelledBy sent
  | text sent, int read => (int read).SpelledBy sent
  | text sent, decimal read => (decimal read).SpelledBy sent
  | text sent, uuid read => (uuid read).SpelledBy sent
  | text sent, instant read => (instant read).SpelledBy sent
  | text sent, date read => (date read).SpelledBy sent
  | uuid sent, uuid read => read = sent
  | instant sent, instant read => read = sent
  | date sent, date read => read = sent
  | bytes sent, bytes read => read = sent
  | _, _ => False

/-- What a literal is that can exist: its integers fit 64 bits, the names of its objects are
distinct and its instant lies within the calendar. -/
def WellFormed : Literal → Prop
  | int value => fitsInt64 value
  | json value => value.WellFormed
  | instant value => value.date?.isSome
  | _ => True

end Literal

/-! ## Fates -/

/-- What becomes of a literal that is sent for a type and read by the client's reader for it. -/
inductive Fate where
  /-- The value is read back. -/
  | kept
  /-- The bytes are refused by the client's reader. -/
  | refused
  /-- The bytes are those of another form, and may be read as another value. -/
  | mistakable
  deriving DecidableEq, Repr

/-- What a fate says about the literal that was sent and what was read. -/
def Fate.Describes (sent : Literal) (read : Option Literal) : Fate → Prop
  | kept => ∃ value, read = some value ∧ sent.Denotes value
  | refused => read = none
  | mistakable => True

/-- The fate of a JSON value that is sent as JSON. -/
def Json.fate (value : Json) : Fate :=
  if !value.isExact then .mistakable
  else if value.depth ≤ Json.maxDepth then .kept
  else .refused

/-- The fate of a literal that is sent for a type, by the reader that the client has for it. JSON
for a date is refused because no four bytes of JSON are a day of the client's calendar. Doubles,
which are rounded, are left out. -/
def Literal.fate (value : Literal) : WireType → Fate
  | .bool =>
    match value with
    | bool _ => .kept
    | int _ | decimal _ | uuid _ | instant _ | date _ => .refused
    | _ => .mistakable
  | .int2 =>
    match value with
    | int _ => .kept
    | bool _ | decimal _ | uuid _ | instant _ | date _ => .refused
    | _ => .mistakable
  | .int4 =>
    match value with
    | int _ => .kept
    | bool _ | decimal _ | uuid _ | instant _ => .refused
    | _ => .mistakable
  | .int8 =>
    match value with
    | int _ => .kept
    | decimal x => if x.isZero then .kept else .refused
    | bool _ | uuid _ | date _ => .refused
    | _ => .mistakable
  | .numeric =>
    match value with
    | decimal _ | text _ => .kept
    | bool _ | date _ => .refused
    | _ => .mistakable
  | .text | .varchar | .bpchar =>
    match value with
    | int _ | decimal _ | text _ | json _ | uuid _ => .kept
    | _ => .mistakable
  | .name | .unknown =>
    match value with
    | text _ | json _ => .kept
    | _ => .mistakable
  | .json =>
    match value with
    | int _ | decimal _ | text _ => .kept
    | json value => value.fate
    | bool _ | date _ => .refused
    | _ => .mistakable
  | .jsonb =>
    match value with
    | int _ | decimal _ | text _ => .kept
    | json value => value.fate
    | bool _ => .refused
    | _ => .mistakable
  | .uuid =>
    match value with
    | text _ | uuid _ => .kept
    | bool _ | int _ | instant _ | date _ => .refused
    | _ => .mistakable
  | .timestamp | .timestamptz =>
    match value with
    | instant value => if value.isWholeMicro then .kept else .mistakable
    | bool _ | uuid _ | date _ => .refused
    | _ => .mistakable
  | .date =>
    match value with
    | date _ => .kept
    | bool _ | int _ | decimal _ | json _ | uuid _ | instant _ => .refused
    | _ => .mistakable
  | .bytea =>
    match value with
    | bytes _ => .kept
    | _ => .mistakable
  | .float4 | .float8 | .other _ => .mistakable

end SqlComposer
