import Mathlib.Data.List.Forall2
import SqlComposer.Json.Reader
import SqlComposer.Proofs.Values.DigitStrings
import SqlComposer.Proofs.Values.UuidText

/-!
# Scanning the text of a value

The text that is written for a JSON value is scanned as the tokens of the value. A word or a number
ends only with the character behind it, so what is said of a scanner is which tokens it has found
once it settles.
-/

namespace SqlComposer.Json

/-! ## Settled scanners -/

/-- The tokens that were found, in reverse, if the text may end here. -/
def Scanner.settled? (scanner : Scanner) : Option (List Token) :=
  match scanner.state with
  | .between => some scanner.tokens
  | .word read => (readWord read.reverse).map (.scalar · :: scanner.tokens)
  | .number read => (readNumber read.reverse).map (.scalar · :: scanner.tokens)
  | _ => none

/-- The token that a mark of punctuation is. -/
def mark? (c : Char) : Option Token :=
  if c = '\x7b' then some .openObject
  else if c = '\x7d' then some .closeObject
  else if c = '[' then some .openList
  else if c = ']' then some .closeList
  else if c = ',' then some .comma
  else if c = ':' then some .colon
  else none

theorem scanBetween_mark {c : Char} {token : Token} (h : mark? c = some token)
    (found : List Token) : scanBetween found c = some ⟨.between, token :: found⟩ := by
  unfold mark? at h
  split_ifs at h with h1 h2 h3 h4 h5 h6 <;> subst_vars <;> cases h <;> rfl

theorem mark_ends {c : Char} {token : Token} (h : mark? c = some token) :
    c.isAlpha = false ∧ continuesNumber c = false := by
  unfold mark? at h
  split_ifs at h <;> subst_vars <;> decide

/-- A mark settles what stands in front of it. -/
theorem Scanner.step_mark {scanner : Scanner} {c : Char} {token : Token} {found : List Token}
    (hsettled : scanner.settled? = some found) (hmark : mark? c = some token) :
    scanner.step c = some ⟨.between, token :: found⟩ := by
  obtain ⟨halpha, hnumber⟩ := mark_ends hmark
  obtain ⟨state, tokens⟩ := scanner
  cases state with
  | between =>
    cases hsettled
    exact scanBetween_mark hmark _
  | word read =>
    obtain ⟨value, hvalue, rfl⟩ := Option.map_eq_some_iff.1 hsettled
    simp only [Scanner.step, halpha, hvalue]
    exact scanBetween_mark hmark _
  | number read =>
    obtain ⟨value, hvalue, rfl⟩ := Option.map_eq_some_iff.1 hsettled
    simp only [Scanner.step, hnumber, hvalue]
    exact scanBetween_mark hmark _
  | string | escape | unit | pairBackslash | pairLetter => cases hsettled

/-- Whether a text is scanned as a list of tokens, whatever was found in front of it. -/
def Scans (text : List Char) (tokens : List Token) : Prop :=
  ∀ before, ∃ scanner, text.foldlM Scanner.step ⟨.between, before⟩ = some scanner ∧
    scanner.settled? = some (tokens.reverse ++ before)

theorem Scans.nil : Scans [] [] := fun before ↦ ⟨⟨.between, before⟩, rfl, rfl⟩

/-- Texts with a mark between them are scanned one after the other. -/
theorem Scans.append_mark {first second : List Char} {front back : List Token} {c : Char}
    {token : Token} (hfirst : Scans first front) (hmark : mark? c = some token)
    (hsecond : Scans second back) : Scans (first ++ c :: second) (front ++ token :: back) := by
  intro before
  obtain ⟨scanner, hscan, hsettled⟩ := hfirst before
  obtain ⟨scanner', hscan', hsettled'⟩ := hsecond (token :: (front.reverse ++ before))
  refine ⟨scanner', ?_, ?_⟩
  · rw [List.foldlM_append, hscan]
    show (c :: second).foldlM Scanner.step scanner = _
    rw [List.foldlM_cons, Scanner.step_mark hsettled hmark]
    exact hscan'
  · rw [hsettled']
    simp

theorem Scans.mark {c : Char} {token : Token} {text : List Char} {tokens : List Token}
    (hmark : mark? c = some token) (htext : Scans text tokens) :
    Scans (c :: text) (token :: tokens) := Scans.nil.append_mark hmark htext

theorem tokens_eq_some {text : String} {found : List Token} (h : Scans text.toList found) :
    tokens text = some found := by
  obtain ⟨⟨state, tokens⟩, hscan, hsettled⟩ := h []
  rw [List.append_nil] at hsettled
  unfold Json.tokens
  rw [hscan]
  cases state with
  | between =>
    cases hsettled
    simp
  | word read =>
    obtain ⟨value, hvalue, hfound⟩ := Option.map_eq_some_iff.1 hsettled
    simp only [Option.bind_eq_bind, Option.bind_some, hvalue, hfound]
    simp
  | number read =>
    obtain ⟨value, hvalue, hfound⟩ := Option.map_eq_some_iff.1 hsettled
    simp only [Option.bind_eq_bind, Option.bind_some, hvalue, hfound]
    simp
  | string | escape | unit | pairBackslash | pairLetter => cases hsettled

/-- A text that starts with a character of no token is refused. -/
theorem tokens_eq_none {text : String} {c : Char} {rest : List Char}
    (htext : text.toList = c :: rest) (hfirst : ∀ found, scanBetween found c = none) :
    tokens text = none := by
  have hstep : Scanner.step ⟨.between, []⟩ c = none := hfirst []
  unfold tokens
  rw [htext, List.foldlM_cons, hstep]
  rfl

/-! ## Words -/

theorem scans_null : Scans "null".toList [.scalar null] :=
  fun before ↦ ⟨⟨.word ['l', 'l', 'u', 'n'], before⟩, rfl, rfl⟩

theorem scans_bool (value : Bool) :
    Scans (if value then "true" else "false").toList [.scalar (bool value)] := by
  cases value with
  | false => exact fun before ↦ ⟨⟨.word ['e', 's', 'l', 'a', 'f'], before⟩, rfl, rfl⟩
  | true => exact fun before ↦ ⟨⟨.word ['e', 'u', 'r', 't'], before⟩, rfl, rfl⟩

/-! ## Numbers -/

/-- The scanner takes in the characters of a number one by one. -/
private theorem foldlM_number {text read : List Char} {found : List Token}
    (h : ∀ c ∈ text, continuesNumber c) :
    text.foldlM Scanner.step ⟨.number read, found⟩ =
      some ⟨.number (text.reverse ++ read), found⟩ := by
  induction text generalizing read with
  | nil => rfl
  | cons c text ih =>
    have hc : continuesNumber c := h c List.mem_cons_self
    have hstep : Scanner.step ⟨.number read, found⟩ c = some ⟨.number (c :: read), found⟩ :=
      if_pos hc
    rw [List.foldlM_cons, hstep]
    show text.foldlM Scanner.step _ = _
    rw [ih fun c hc ↦ h c (List.mem_cons_of_mem _ hc), List.reverse_cons, List.append_assoc]
    rfl

/-- A number starts with its sign or with a digit. -/
theorem exists_cons_of_readNumber {text : List Char} {value : Json}
    (h : readNumber text = some value) :
    ∃ c rest, text = c :: rest ∧ (c = '-' ∨ c.isDigit) := by
  cases text with
  | nil => exact absurd h (by simp [readNumber])
  | cons c rest =>
    refine ⟨c, rest, rfl, or_iff_not_imp_left.2 fun hsign ↦ ?_⟩
    by_contra hdigit
    have hwhole : (c :: rest).takeWhile Char.isDigit = [] := by
      rw [List.takeWhile_cons, if_neg hdigit]
    unfold readNumber at h
    split at h
    rename_i heq
    split at heq
    · rename_i hminus
      exact hsign (List.cons.inj hminus).1
    · obtain ⟨rfl, rfl⟩ := Prod.mk.inj heq
      rw [hwhole] at h
      exact absurd h (by simp)

/-- The text of a number is scanned as it. -/
theorem scans_number {text : List Char} {value : Json} (hread : readNumber text = some value)
    (htext : ∀ c ∈ text, continuesNumber c) : Scans text [.scalar value] := by
  intro before
  obtain ⟨c, rest, rfl, hfirst⟩ := exists_cons_of_readNumber hread
  have hstep : Scanner.step ⟨.between, before⟩ c = some ⟨.number [c], before⟩ := by
    obtain rfl | hdigit := hfirst
    · rfl
    · have hne (d : Char) (hd : d.isDigit = false) : c ≠ d := by
        rintro rfl
        rw [hd] at hdigit
        cases hdigit
      show scanBetween before c = _
      unfold scanBetween
      rw [if_neg (by simp [hne ' ' rfl, hne '\n' rfl, hne '\t' rfl, hne '\r' rfl]),
        if_neg (hne _ rfl), if_neg (hne _ rfl), if_neg (hne _ rfl), if_neg (hne _ rfl),
        if_neg (hne _ rfl), if_neg (hne _ rfl), if_neg (hne _ rfl), if_pos (.inr hdigit)]
  refine ⟨⟨.number (rest.reverse ++ [c]), before⟩, ?_, ?_⟩
  · rw [List.foldlM_cons, hstep]
    exact foldlM_number fun c hc ↦ htext c (List.mem_cons_of_mem _ hc)
  · unfold Scanner.settled?
    simp [hread]

/-! ## Integers -/

/-- The range of the integers of a JSON value. -/
def fitsNumber (value : Int) : Prop := -(twoTo 63 : Int) ≤ value ∧ value < twoTo 64

theorem takeWhole_eq {digits : List Char} {value : Nat} (h : digitsFrom value digits < twoTo 64) :
    Leading.takeWhole value digits = ⟨digitsFrom value digits, 0⟩ := by
  induction digits generalizing value with
  | nil => rfl
  | cons c digits ih =>
    rw [digitsFrom_cons] at h ⊢
    rw [Leading.takeWhole, if_pos (Nat.lt_of_le_of_lt (le_digitsFrom _ _) h), ih h]

/-- The decimal digits of a number of 64 bits are read as that number. -/
private theorem readNumber_digits {number : Nat} (h : number < twoTo 64) (negative : Bool) :
    readNumber ((if negative then ['-'] else []) ++ (toString number).toList) =
      some (wholeNumber negative number) := by
  have hdigits : ∀ c ∈ (toString number).toList, c.isDigit := fun _ ↦ isDigit_of_mem_toString
  have hvalue := digitsFrom_toString number
  have hzero := head_toString_ne_zero number
  have hnil := toString_ne_nil number
  generalize (toString number).toList = digits at *
  have hleading : Leading.takeWhole 0 digits = ⟨number, 0⟩ := by
    rw [takeWhole_eq (hvalue ▸ h), hvalue]
  unfold readNumber
  split
  rename_i sign body hsign
  have hparts : sign = negative ∧ body = digits := by
    cases negative with
    | true =>
      obtain ⟨hsign, hbody⟩ := Prod.mk.inj hsign
      exact ⟨hsign.symm, hbody.symm⟩
    | false =>
      rw [if_neg Bool.false_ne_true, List.nil_append] at hsign
      split at hsign
      · exact absurd rfl (ne_sign_of_isDigit (hdigits _ List.mem_cons_self)).1
      · obtain ⟨hsign, hbody⟩ := Prod.mk.inj hsign
        exact ⟨hsign.symm, hbody.symm⟩
  rw [hparts.1, hparts.2, List.takeWhile_eq_self_iff.2 hdigits,
    List.dropWhile_eq_nil_iff.2 hdigits]
  dsimp only
  rw [hzero, hleading, List.isEmpty_eq_false_iff.2 hnil]
  rfl

/-- An integer is read back from its text. -/
theorem readNumber_toString {value : Int} (h : fitsNumber value) :
    readNumber (toString value).toList = some (int value) := by
  obtain ⟨hleast, hmost⟩ := h
  cases value with
  | ofNat number => exact readNumber_digits (Int.ofNat_lt.1 hmost) false
  | negSucc number =>
    have hlimit : number + 1 ≤ twoTo 63 := by omega
    have htext : (toString (Int.negSucc number)).toList = ['-'] ++ (toString (number + 1)).toList :=
      String.toList_append
    have hwhole : wholeNumber true (number + 1) = int (Int.negSucc number) := by
      unfold wholeNumber
      rw [if_neg (by decide), if_neg (by omega)]
      rfl
    rw [htext, ← hwhole]
    exact readNumber_digits (Nat.lt_of_le_of_lt hlimit (by decide)) true

theorem scans_int {value : Int} (h : fitsNumber value) :
    Scans (toString value).toList [.scalar (int value)] := by
  refine scans_number (readNumber_toString h) fun c hc ↦ ?_
  unfold continuesNumber
  cases value with
  | ofNat number =>
    have hdigit : c.isDigit := isDigit_of_mem_toString (show c ∈ (toString number).toList from hc)
    simp [hdigit]
  | negSucc number =>
    rw [show (toString (Int.negSucc number)).toList = '-' :: (toString (number + 1)).toList from
      String.toList_append] at hc
    obtain rfl | hc := List.mem_cons.1 hc
    · decide
    · simp [isDigit_of_mem_toString hc]

/-! ## Strings -/

/-- What is written for a character inside of a string is scanned as it. -/
theorem foldlM_escapedChar (c : Char) (read : List Char) (found : List Token) :
    (escapedChar c).foldlM Scanner.step ⟨.string read, found⟩ =
      some ⟨.string (c :: read), found⟩ := by
  obtain rfl | hquote := eq_or_ne c '"'
  · rfl
  obtain rfl | hbackslash := eq_or_ne c '\\'
  · rfl
  obtain rfl | hbackspace := eq_or_ne c '\x08'
  · rfl
  obtain rfl | hfeed := eq_or_ne c '\x0c'
  · rfl
  obtain rfl | hline := eq_or_ne c '\n'
  · rfl
  obtain rfl | hreturn := eq_or_ne c '\r'
  · rfl
  obtain rfl | htab := eq_or_ne c '\t'
  · rfl
  unfold escapedChar
  rw [if_neg hquote, if_neg hbackslash, if_neg hbackspace, if_neg hfeed, if_neg hline,
    if_neg hreturn, if_neg htab]
  by_cases hcontrol : c.toNat < 0x20
  · -- The four digits of a code unit spell the number of the character.
    have hhigh := hexValue?_hexDigit (n := c.toNat / 16) (by omega)
    have hlow := hexValue?_hexDigit (n := c.toNat % 16) (by omega)
    have hunit : finishUnit read none (c.toNat / 16 * 16 + c.toNat % 16) =
        some (.string (c :: read)) := by
      unfold finishUnit
      rw [Nat.div_add_mod']
      simp only
      rw [if_neg (by omega), if_neg (by omega), Char.ofNat_toNat]
    have hzeros : ['\\', 'u', '0', '0'].foldlM Scanner.step ⟨.string read, found⟩ =
        some ⟨.unit read none 2 0, found⟩ := rfl
    have hfirst : Scanner.step ⟨.unit read none 2 0, found⟩ (hexDigit (c.toNat / 16)) =
        some ⟨.unit read none 3 (c.toNat / 16), found⟩ := by
      unfold Scanner.step
      simp only [hhigh, Option.bind_eq_bind, Option.bind_some, Nat.zero_mul, Nat.zero_add]
      rfl
    have hsecond : Scanner.step ⟨.unit read none 3 (c.toNat / 16), found⟩
        (hexDigit (c.toNat % 16)) = some ⟨.string (c :: read), found⟩ := by
      unfold Scanner.step
      simp only [hlow, hunit, Option.bind_eq_bind, Option.bind_some]
      rfl
    rw [if_pos hcontrol]
    show (['\\', 'u', '0', '0'] ++ [hexDigit (c.toNat / 16), hexDigit (c.toNat % 16)]).foldlM
      Scanner.step _ = _
    rw [List.foldlM_append, hzeros, Option.bind_eq_bind, Option.bind_some, List.foldlM_cons, hfirst,
      Option.bind_eq_bind, Option.bind_some, List.foldlM_cons, hsecond]
    rfl
  · have hstep : Scanner.step ⟨.string read, found⟩ c = some ⟨.string (c :: read), found⟩ := by
      unfold Scanner.step
      dsimp only
      rw [if_neg hquote, if_neg hbackslash, if_neg hcontrol]
    rw [if_neg hcontrol, List.foldlM_cons, hstep]
    rfl

theorem foldlM_string (text read : List Char) (found : List Token) :
    (text.flatMap escapedChar).foldlM Scanner.step ⟨.string read, found⟩ =
      some ⟨.string (text.reverse ++ read), found⟩ := by
  induction text generalizing read with
  | nil => rfl
  | cons c text ih =>
    rw [List.flatMap_cons, List.foldlM_append, foldlM_escapedChar]
    show (text.flatMap escapedChar).foldlM Scanner.step _ = _
    rw [ih, List.reverse_cons, List.append_assoc]
    rfl

theorem scans_string (text : String) :
    Scans (stringText text).toList [.scalar (.text text)] := by
  intro before
  refine ⟨⟨.between, .scalar (.text text) :: before⟩, ?_, rfl⟩
  unfold stringText
  rw [String.toList_ofList, List.foldlM_cons]
  show (text.toList.flatMap escapedChar ++ ['"']).foldlM Scanner.step ⟨.string [], before⟩ = _
  rw [List.foldlM_append, foldlM_string, List.append_nil]
  show Scanner.step ⟨.string text.toList.reverse, before⟩ '"' = _
  unfold Scanner.step
  dsimp only
  rw [if_pos rfl, List.reverse_reverse, String.ofList_toList]

end SqlComposer.Json
