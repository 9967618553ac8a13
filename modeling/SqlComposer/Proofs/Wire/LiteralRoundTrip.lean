import SqlComposer.Proofs.Wire.LiteralFates

/-!
# Literals that are read back

Every literal has the fate that the table gives it. Most refusals come from the width of the bytes:
a reader for one width takes no others. What is read back was written in the form of its type.
-/

namespace SqlComposer

/-! ## Numbers of decimals -/

namespace Decimal

theorem number_of_isZero {x : Decimal} (h : x.isZero) : x.number = 0 := by
  unfold number
  rw [beq_iff_eq.1 h]
  simp

theorem number_plainZero (x : Decimal) : (NumericGroups.plainZero x).number = x.number := by
  unfold NumericGroups.plainZero
  split
  · rename_i hzero
    rw [number_of_isZero hzero]
    exact number_of_isZero rfl
  · rfl

/-- A decimal and its text are the same number. -/
theorem spelledBy_toText (x : Decimal) : (Literal.decimal x).SpelledBy x.toText := by
  refine ⟨⟨x.negative && x.mantissa != 0, x.mantissa, x.scale, x.mantissa_lt, x.scale_le⟩, ?_, ?_⟩
  · rw [read_toText]
    exact dif_pos ⟨x.mantissa_lt, x.scale_le⟩
  · by_cases hzero : x.isZero
    · rw [number_of_isZero hzero]
      exact number_of_isZero hzero
    · have hsign : (x.negative && x.mantissa != 0) = x.negative := by
        rw [bne, show (x.mantissa == 0) = false from eq_false_of_ne_true hzero]
        exact Bool.and_true _
      unfold number
      rw [hsign]

end Decimal

/-! ## Widths -/

namespace Wire

/-- The number of bytes of the types that have only values of one width. -/
def width? : WireType → Option Nat
  | .bool => some 1
  | .int2 => some 2
  | .int4 | .float4 | .date => some 4
  | .int8 | .float8 | .timestamp | .timestamptz => some 8
  | .uuid => some 16
  | _ => none

/-- Bytes of another width than the type has are refused. -/
theorem read_eq_none_of_width {type : WireType} {read : List UInt8 → Option Literal} {width : Nat}
    {bytes : List UInt8} (hread : reader? type = some read) (hwidth : width? type = some width)
    (h : bytes.length ≠ width) : read bytes = none := by
  cases type <;> cases hwidth <;> cases hread
  case uuid => simp [Uuid.ofBytes?, h]
  all_goals simp [exactly?_of_length_ne h]

/-- Fewer bytes than the fields in front of the groups are no number. -/
theorem read_numeric_eq_none {read : List UInt8 → Option Literal} {bytes : List UInt8}
    (hread : reader? .numeric = some read) (h : bytes.length < 8) : read bytes = none := by
  have hnone : NumericGroups.ofBytes? bytes = none := by
    unfold NumericGroups.ofBytes?
    dsimp only
    rw [if_pos]
    · rfl
    · rw [List.length_take]
      omega
  cases hread
  simp [hnone]

/-! ## Forms that are read back -/

/-- An integer sent in its own width is read back. -/
theorem read_signedBytes {type : WireType} {read : List UInt8 → Option Literal} {width : Nat}
    {value : Int} (hread : reader? type = some read)
    (htype : (type, width) ∈ [(.int2, 2), (.int4, 4), (.int8, 8)]) (h : fitsSigned width value) :
    read (signedBytes width value) = some (.int value) := by
  simp only [List.mem_cons, Prod.mk.injEq, List.not_mem_nil, or_false] at htype
  obtain ⟨rfl, rfl⟩ | ⟨rfl, rfl⟩ | ⟨rfl, rfl⟩ := htype <;> cases hread <;>
    simp [exactly?_of_length, ofSignedBytes_signedBytes h]

/-- A text sent as text is read back. -/
theorem read_textBytes {type : WireType} {read : List UInt8 → Option Literal}
    (hread : reader? type = some read) (htype : type.isText || type = .name || type = .unknown)
    (text : String) : read (textBytes text) = some (.text text) := by
  cases type <;> cases htype <;> cases hread <;> simp

/-- A JSON value sent as JSON is read back as its text is. -/
theorem read_jsonBytes {type : WireType} {read : List UInt8 → Option Literal}
    (hread : reader? type = some read) (htype : type.isJson) (value : Json) :
    read (jsonBytes type value) = (Json.read value.toText).map .json := by
  cases type <;> cases htype <;> cases hread <;>
    simp [jsonBytes, markedJsonOf?, jsonOf?]

/-- A decimal is read back, a zero without its sign. -/
theorem read_decimalBytes {read : List UInt8 → Option Literal}
    (hread : reader? .numeric = some read) (value : Decimal) :
    read (decimalBytes value) = some (.decimal (NumericGroups.plainZero value)) := by
  have hbytes := NumericGroups.ofBytes?_toBytes (NumericGroups.sendable_ofDecimal value)
  have hvalue := NumericGroups.toDecimal?_ofDecimal value
  cases hread
  simp [decimalBytes, hbytes, hvalue]

/-! ## Bytes that are no JSON -/

/-- The first byte of a character is the character itself or one of the bytes that start a longer
form. -/
theorem exists_utf8EncodeChar_eq_cons (c : Char) :
    ∃ byte rest, String.utf8EncodeChar c = byte :: rest ∧
      (byte.toNat = c.toNat ∨ 0x80 ≤ c.toNat ∧ 0x80 ≤ byte.toNat) ∧ byte.toNat < 0xf8 := by
  have hcode : c.val.toNat = c.toNat := rfl
  unfold String.utf8EncodeChar
  dsimp only
  split_ifs
  all_goals
    refine ⟨_, _, rfl, ?_⟩
    rw [UInt8.toNat_ofNat']
    omega

/-- No JSON starts with one of the first control characters or with a byte that starts no
character. -/
theorem jsonOf?_eq_none {byte : UInt8} {rest : List UInt8}
    (h : byte.toNat < 9 ∨ 0xf8 ≤ byte.toNat) : jsonOf? (byte :: rest) = none := by
  unfold jsonOf?
  cases htext : ofTextBytes? (byte :: rest) with
  | none => rfl
  | some text =>
    rw [ofTextBytes?_eq_some_iff] at htext
    cases hchars : text.toList with
    | nil => simp [textBytes, hchars] at htext
    | cons c chars =>
      obtain ⟨first, others, hfirst, hcode⟩ := exists_utf8EncodeChar_eq_cons c
      rw [textBytes, hchars, List.flatMap_cons, hfirst, List.cons_append] at htext
      obtain ⟨rfl, -⟩ := List.cons.inj htext
      have hcontrol : c.toNat < 9 := by omega
      have hnone (found : List Json.Token) : Json.scanBetween found c = none := by
        rw [← Char.ofNat_toNat c]
        interval_cases c.toNat <;> rfl
      exact Json.read_eq_none hchars hnone

/-- No JSON is a date: its first byte alone stands for days beyond the calendar. -/
theorem ofDays?_json {value : Json} (h : (textBytes value.toText).length = 4) :
    Date.ofDays? (ofSignedBytes (textBytes value.toText) + wireEpochDays) = none := by
  obtain ⟨c, rest, htext, hc⟩ := value.exists_first_toText
  obtain ⟨first, others, hfirst, hcode⟩ := exists_utf8EncodeChar_eq_cons c
  obtain ⟨hleast, hmost⟩ : 0x22 ≤ c.toNat ∧ c.toNat < 0x80 := by simpa [Json.isFirst] using hc
  have hbytes : textBytes value.toText =
      first :: (others ++ rest.flatMap String.utf8EncodeChar) := by
    rw [textBytes, htext, List.flatMap_cons, hfirst, List.cons_append]
  rw [hbytes] at h ⊢
  generalize others ++ rest.flatMap String.utf8EncodeChar = tail at h ⊢
  obtain ⟨second, third, fourth, rfl⟩ := List.length_eq_three.1 (Nat.succ.inj h)
  have hnumber : ofBigEndian [first, second, third, fourth] =
      ((first.toNat * 256 + second.toNat) * 256 + third.toNat) * 256 + fourth.toNat := by
    simp [ofBigEndian]
  have hsmall := second.toNat_lt
  have hsmall' := third.toNat_lt
  have hsmall'' := fourth.toNat_lt
  have hlimit : twoTo 32 = 4294967296 := by decide
  have hdays : 500000000 ≤ ofSignedBytes [first, second, third, fourth] := by
    unfold ofSignedBytes
    simp only [hnumber, List.length_cons, List.length_nil, Nat.reduceAdd, Nat.reduceMul, hlimit]
    rw [if_pos (by omega)]
    omega
  by_contra hdate
  have hbounds := Date.bounds_of_ofDays? (Option.isSome_iff_ne_none.2 hdate)
  unfold wireEpochDays at hbounds
  omega

/-- No date is JSON. -/
theorem exists_signedBytes_eq_cons {days : Int} (hleast : -(2 ^ 27 : Int) ≤ days)
    (hmost : days < 2 ^ 27) :
    ∃ byte rest, signedBytes 4 days = byte :: rest ∧ (byte.toNat < 9 ∨ 0xf8 ≤ byte.toNat) := by
  refine ⟨_, _, rfl, ?_⟩
  rw [UInt8.toNat_ofNat', show twoTo (8 * 4) = 4294967296 by decide]
  omega

/-! ## One kind of literals after the other -/

section

variable {type : WireType} {read : List UInt8 → Option Literal}

theorem bool_fate (value : Bool) (hread : reader? type = some read) :
    (Literal.fate (.bool value) type).Describes (.bool value)
      (read [if value then 1 else 0]) := by
  generalize hbyte : (if value then 1 else 0 : UInt8) = byte
  have hsmall : byte.toNat < 9 := by
    rw [← hbyte]
    cases value <;> decide
  cases type with
  | bool =>
    cases hread
    cases value <;> cases hbyte <;> exact ⟨_, rfl, rfl⟩
  | int2 | int4 | int8 | uuid | timestamp | timestamptz | date =>
    exact read_eq_none_of_width hread rfl (by simp)
  | numeric => exact read_numeric_eq_none hread (by simp)
  | json =>
    cases hread
    show (jsonOf? [byte]).map Literal.json = none
    rw [jsonOf?_eq_none (.inl hsmall)]
    rfl
  | jsonb =>
    cases hread
    show (markedJsonOf? [byte]).map Literal.json = none
    have hempty : jsonOf? [] = none := by
      unfold jsonOf?
      rw [show ofTextBytes? [] = some "" from ofTextBytes?_textBytes ""]
      rfl
    cases value <;> cases hbyte
    · rfl
    · show (jsonOf? []).map Literal.json = none
      rw [hempty]
      rfl
  | _ => trivial

/-- Integers and texts are JSON that is read back. -/
theorem jsonBytes_fate {sent : Literal} {value : Json} (hread : reader? type = some read)
    (htype : type.isJson) (hwell : value.WellFormed) (hexact : value.isExact)
    (hdepth : value.depth = 0) (hdenotes : sent.Denotes (.json value)) :
    Fate.Describes sent (read (jsonBytes type value)) .kept := by
  refine ⟨.json value, ?_, hdenotes⟩
  rw [read_jsonBytes hread htype, Json.read_toText hwell hexact, if_pos (by omega)]
  rfl

/-- An integer meets its fate at every type it can be sent to. -/
theorem int_fate {value : Int} (hvalue : fitsInt64 value) {bytes : List UInt8}
    (hsent : encodeInt type value = some bytes) (hread : reader? type = some read) :
    (Literal.fate (.int value) type).Describes (.int value) (read bytes) := by
  obtain ⟨hleast, hmost⟩ := hvalue
  have hwide : fitsSigned 8 value := by
    rw [fitsSigned_iff]
    unfold twoTo at *
    norm_num at *
    omega
  have hnumber : Json.fitsNumber value :=
    ⟨hleast, hmost.trans (Int.ofNat_lt.2 (Nat.pow_lt_pow_right (by decide) (by decide)))⟩
  cases type with
  | int2 | int4 =>
    obtain ⟨hfits, hbytes⟩ := Option.ite_none_right_eq_some.1 hsent
    cases hbytes
    exact ⟨_, read_signedBytes hread (by decide) hfits, rfl⟩
  | int8 =>
    cases hsent
    exact ⟨_, read_signedBytes hread (by decide) hwide, rfl⟩
  | text | varchar | bpchar =>
    cases hsent
    exact ⟨_, read_textBytes hread rfl _, readInt64_toString ⟨hleast, hmost⟩⟩
  | json | jsonb =>
    cases hsent
    exact jsonBytes_fate hread rfl hnumber rfl rfl rfl
  | bool | uuid | date =>
    cases hsent
    exact read_eq_none_of_width hread rfl (by simp)
  | _ => trivial

theorem encodeDecimal_isText (htype : type.isText) (value : Decimal) :
    encodeDecimal type value = textBytes value.toText := if_pos htype

theorem encodeDecimal_isJson (htype : type.isJson) (value : Decimal) :
    encodeDecimal type value = jsonBytes type (.text value.toText) := by
  have htext : ¬type.isText := by cases type <;> cases htype <;> decide
  exact (if_neg htext).trans (if_pos htype)

theorem encodeDecimal_own (htext : type.isText = false) (hjson : type.isJson = false)
    (value : Decimal) : encodeDecimal type value = decimalBytes value :=
  (if_neg (Bool.eq_false_iff.1 htext)).trans (if_neg (Bool.eq_false_iff.1 hjson))

theorem decimal_fate (value : Decimal) (hread : reader? type = some read) :
    (Literal.fate (.decimal value) type).Describes (.decimal value)
      (read (encodeDecimal type value)) := by
  have hlength : (decimalBytes value).length =
      8 + 2 * (NumericGroups.ofDecimal value).groups.length := NumericGroups.length_toBytes _
  cases type with
  | text | varchar | bpchar =>
    rw [encodeDecimal_isText rfl]
    exact ⟨_, read_textBytes hread rfl _, value.spelledBy_toText⟩
  | json | jsonb =>
    rw [encodeDecimal_isJson rfl]
    exact jsonBytes_fate hread rfl trivial rfl rfl ⟨_, rfl, value.spelledBy_toText⟩
  | numeric =>
    rw [encodeDecimal_own rfl rfl]
    exact ⟨_, read_decimalBytes hread value, value.number_plainZero⟩
  | bool | int2 | int4 | date =>
    rw [encodeDecimal_own rfl rfl]
    exact read_eq_none_of_width hread rfl (by omega)
  | int8 =>
    rw [encodeDecimal_own rfl rfl]
    show (if value.isZero then Fate.kept else .refused).Describes _ _
    split
    · rename_i hzero
      have hbytes : decimalBytes value = signedBytes 8 0 := by
        unfold decimalBytes
        rw [NumericGroups.ofDecimal_zero hzero]
        decide
      rw [hbytes]
      refine ⟨_, read_signedBytes hread (by decide) (by decide), ?_⟩
      show ((0 : Int) : ℚ) = value.number
      rw [Decimal.number_of_isZero hzero, Int.cast_zero]
    · rename_i hzero
      have hsome := List.length_pos_iff.2 (NumericGroups.groups_ofDecimal_ne_nil hzero)
      exact read_eq_none_of_width hread rfl (by omega)
  | _ => trivial

/-- A text is sent as JSON to JSON types and as its bytes to all others but two. -/
theorem encodeText_own (hnumeric : type ≠ .numeric) (huuid : type ≠ .uuid) (value : String) :
    encodeText type value =
      some (if type.isJson then jsonBytes type (.text value) else textBytes value) := by
  cases type <;> first | rfl | contradiction

/-- A text meets its fate at every type it can be sent to. -/
theorem text_fate {value : String} {bytes : List UInt8}
    (hsent : encodeText type value = some bytes) (hread : reader? type = some read) :
    (Literal.fate (.text value) type).Describes (.text value) (read bytes) := by
  cases type with
  | text | varchar | bpchar | name | unknown =>
    rw [encodeText_own (by decide) (by decide)] at hsent
    rw [← Option.some.inj hsent, if_neg (by decide)]
    exact ⟨_, read_textBytes hread rfl _, rfl⟩
  | json | jsonb =>
    rw [encodeText_own (by decide) (by decide)] at hsent
    rw [← Option.some.inj hsent, if_pos (by decide)]
    exact jsonBytes_fate hread rfl trivial rfl rfl rfl
  | numeric =>
    obtain ⟨x, hx, rfl⟩ := Option.map_eq_some_iff.1 hsent
    exact ⟨_, read_decimalBytes hread x, x, hx, x.number_plainZero.symm⟩
  | uuid =>
    obtain ⟨x, hx, rfl⟩ := Option.map_eq_some_iff.1 hsent
    cases hread
    exact ⟨.uuid x, congrArg (Option.map Literal.uuid) (dif_pos x.length_bytes), hx⟩
  | _ => trivial

theorem json_fate {value : Json} (hvalue : value.WellFormed) (hread : reader? type = some read) :
    (Literal.fate (.json value) type).Describes (.json value) (read (jsonBytes type value)) := by
  cases type with
  | text | varchar | bpchar | name | unknown =>
    unfold jsonBytes
    rw [if_neg (by decide)]
    exact ⟨_, read_textBytes hread rfl _, rfl⟩
  | json | jsonb =>
    show value.fate.Describes _ _
    rw [read_jsonBytes hread rfl]
    unfold Json.fate
    split
    · trivial
    · rename_i hexact
      rw [Json.read_toText hvalue (by simpa using hexact)]
      split
      · exact ⟨_, rfl, rfl⟩
      · rfl
  | date =>
    unfold jsonBytes
    rw [if_neg (by decide)]
    by_cases hlength : (textBytes value.toText).length = 4
    · have hdate := ofDays?_json hlength
      cases hread
      simp [Fate.Describes, Literal.fate, exactly?_of_length hlength, hdate]
    · exact read_eq_none_of_width hread rfl hlength
  | _ => trivial

/-- A unique identifier meets its fate at every type it can be sent to. -/
theorem uuid_fate (value : Uuid) (hread : reader? type = some read) :
    (Literal.fate (.uuid value) type).Describes (.uuid value)
      (read (if type.isText then textBytes value.toText else value.bytes)) := by
  cases type with
  | text | varchar | bpchar =>
    rw [if_pos (by decide)]
    exact ⟨_, read_textBytes hread rfl _, value.read_toText⟩
  | uuid =>
    rw [if_neg (by decide)]
    cases hread
    exact ⟨.uuid value, congrArg (Option.map Literal.uuid) (dif_pos value.length_bytes), rfl⟩
  | bool | int2 | int4 | int8 | timestamp | timestamptz | date =>
    exact read_eq_none_of_width hread rfl (by simp [WireType.isText, value.length_bytes])
  | _ => trivial

/-- An instant meets its fate at every type it can be sent to. -/
theorem instant_fate {value : Instant} (hvalue : value.date?.isSome)
    (hread : reader? type = some read) :
    (Literal.fate (.instant value) type).Describes (.instant value)
      (read (signedBytes 8 value.wireMicros)) := by
  cases type with
  | timestamp | timestamptz =>
    show (if value.isWholeMicro then Fate.kept else .mistakable).Describes _ _
    split
    · rename_i hmicro
      have hbytes := ofSignedBytes_signedBytes (Instant.fitsSigned_wireMicros hvalue hmicro)
      have hinstant := Instant.instantOfMicros?_wireMicros hvalue hmicro
      cases hread
      exact ⟨.instant value, by simp [exactly?_of_length, hbytes, hinstant], rfl⟩
    · trivial
  | bool | int2 | int4 | uuid | date => exact read_eq_none_of_width hread rfl (by simp)
  | _ => trivial

theorem date_fate (value : Date) (hread : reader? type = some read) :
    (Literal.fate (.date value) type).Describes (.date value)
      (read (signedBytes 4 (value.toDays - wireEpochDays))) := by
  have hdays := value.toDays_bounds
  have hfits : fitsSigned 4 (value.toDays - wireEpochDays) := by
    rw [fitsSigned_iff]
    unfold twoTo wireEpochDays
    norm_num
    omega
  cases type with
  | date =>
    have hbytes := ofSignedBytes_signedBytes hfits
    have hdate := value.ofDays?_toDays
    cases hread
    exact ⟨.date value, by simp [exactly?_of_length, hbytes, hdate], rfl⟩
  | json =>
    have hepoch : wireEpochDays < 2 ^ 20 ∧ -(2 ^ 20 : Int) < wireEpochDays := by decide
    obtain ⟨byte, rest, hbytes, hfirst⟩ :
        ∃ byte rest, signedBytes 4 (value.toDays - wireEpochDays) = byte :: rest ∧
          (byte.toNat < 9 ∨ 0xf8 ≤ byte.toNat) :=
      exists_signedBytes_eq_cons (by omega) (by omega)
    rw [hbytes]
    cases hread
    show (jsonOf? (byte :: rest)).map Literal.json = none
    rw [jsonOf?_eq_none hfirst]
    rfl
  | numeric => exact read_numeric_eq_none hread (by simp)
  | bool | int2 | int8 | uuid | timestamp | timestamptz =>
    exact read_eq_none_of_width hread rfl (by simp)
  | _ => trivial

theorem bytes_fate (value : List UInt8) (hread : reader? type = some read) :
    (Literal.fate (.bytes value) type).Describes (.bytes value) (read value) := by
  cases type with
  | bytea =>
    cases hread
    exact ⟨_, rfl, rfl⟩
  | _ => trivial

/-! ## Every literal -/

/-- A literal that is sent for a type has the fate of the table: where the table says so, the bytes
are read back as the value, and elsewhere they are refused, unless they are bytes of another
form. -/
theorem describes_read_of_encode? {value : Literal} (hvalue : value.WellFormed)
    {bytes : List UInt8} (hsent : encode? type value = some (some bytes))
    (hread : reader? type = some read) : (value.fate type).Describes value (read bytes) := by
  cases value with
  | null => cases hsent
  | bool value =>
    cases hsent
    exact bool_fate value hread
  | int value =>
    obtain ⟨bytes, hbytes, hsome⟩ := Option.map_eq_some_iff.1 hsent
    cases hsome
    exact int_fate hvalue hbytes hread
  | float value => cases type <;> trivial
  | decimal value =>
    cases hsent
    exact decimal_fate value hread
  | text value =>
    obtain ⟨bytes, hbytes, hsome⟩ := Option.map_eq_some_iff.1 hsent
    cases hsome
    exact text_fate hbytes hread
  | json value =>
    cases hsent
    exact json_fate hvalue hread
  | uuid value =>
    cases hsent
    exact uuid_fate value hread
  | instant value =>
    cases hsent
    exact instant_fate hvalue hread
  | date value =>
    cases hsent
    exact date_fate value hread
  | bytes value =>
    cases hsent
    exact bytes_fate _ hread

/-- The decimal 19.99 is sent for a numeric column in two groups and read back as its number. -/
theorem describes_read_of_price :
    ∃ read, Literal.WellFormed (.decimal ⟨false, 1999, 2, by decide, by decide⟩) ∧
      encode? .numeric (.decimal ⟨false, 1999, 2, by decide, by decide⟩) =
        some (some [0, 2, 0, 0, 0, 0, 0, 2, 0, 19, 38, 172]) ∧
      reader? .numeric = some read ∧
      (Literal.fate (.decimal ⟨false, 1999, 2, by decide, by decide⟩) .numeric).Describes
        (.decimal ⟨false, 1999, 2, by decide, by decide⟩)
        (read [0, 2, 0, 0, 0, 0, 0, 2, 0, 19, 38, 172]) := by
  have hbytes : decimalBytes ⟨false, 1999, 2, by decide, by decide⟩ =
      [0, 2, 0, 0, 0, 0, 0, 2, 0, 19, 38, 172] := by decide
  have hsent : encode? .numeric (.decimal ⟨false, 1999, 2, by decide, by decide⟩) =
      some (some [0, 2, 0, 0, 0, 0, 0, 2, 0, 19, 38, 172]) := congrArg (some ∘ some) hbytes
  have hvalue : Literal.WellFormed (.decimal ⟨false, 1999, 2, by decide, by decide⟩) := trivial
  exact ⟨_, hvalue, hsent, rfl, describes_read_of_encode? hvalue hsent rfl⟩

/-- The integer 1 is sent for a numeric column as an integer of eight bytes, which are read as
zero. -/
theorem int_read_as_zero :
    ∃ bytes read value, encode? .numeric (.int 1) = some (some bytes) ∧
      reader? .numeric = some read ∧ read bytes = some value ∧ ¬(Literal.int 1).Denotes value := by
  have hbytes : signedBytes 8 1 = [0, 0, 0, 0, 0, 0, 0, 1] := by decide
  have hsent : encode? .numeric (.int 1) = some (some [0, 0, 0, 0, 0, 0, 0, 1]) :=
    congrArg (some ∘ some) hbytes
  have hgroups : NumericGroups.ofBytes? [0, 0, 0, 0, 0, 0, 0, 1] = some ⟨[], 0, false, 1⟩ := by
    decide
  have hzero : NumericGroups.toDecimal? ⟨[], 0, false, 1⟩ =
      some ⟨false, 0, 1, by decide, by decide⟩ := by decide
  refine ⟨_, _, .decimal ⟨false, 0, 1, by decide, by decide⟩, hsent, rfl, by simp [hgroups, hzero],
    ?_⟩
  show ¬Decimal.number _ = ((1 : Int) : ℚ)
  rw [Decimal.number_of_isZero rfl]
  simp

end

end Wire
end SqlComposer
