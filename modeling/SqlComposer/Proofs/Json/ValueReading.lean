import SqlComposer.Proofs.Json.TokenScanning
import SqlComposer.Proofs.Values.NumeralTexts

/-!
# Reading back a value

A JSON value is read back from its text if its integers fit, its names are distinct and every double
in it is read back from its own digits. A value with more than 127 lists and objects inside of one
another is refused, and no other one.
-/

namespace SqlComposer.Json

/-! ## Values that are read back -/

/-- Whether a double is read back from its text. Reading rounds twice, so for some doubles it ends
at a neighbour. -/
def readsBack (x : Double) : Bool :=
  match readNumber (floatText x).toList with
  | some (.float y) => decide (y = x)
  | _ => false

mutual

/-- Whether every double in a value is read back from its text. -/
def isExact : Json → Bool
  | float value => readsBack value
  | list items => isExactItems items
  | object members => isExactMembers members
  | _ => true

def isExactItems : List Json → Bool
  | [] => true
  | item :: rest => item.isExact && isExactItems rest

def isExactMembers : List (String × Json) → Bool
  | [] => true
  | (_, value) :: rest => value.isExact && isExactMembers rest

end

mutual

/-- Whether the integers of a value fit 64 bits and no object has a name twice. -/
def WellFormed : Json → Prop
  | int value => fitsNumber value
  | list items => WellFormedItems items
  | object members => (members.map (·.1)).Nodup ∧ WellFormedMembers members
  | _ => True

def WellFormedItems : List Json → Prop
  | [] => True
  | item :: rest => item.WellFormed ∧ WellFormedItems rest

def WellFormedMembers : List (String × Json) → Prop
  | [] => True
  | (_, value) :: rest => value.WellFormed ∧ WellFormedMembers rest

end

mutual

/-- How many lists and objects are open at once while a value is read. -/
def depth : Json → Nat
  | list items => depthItems items + 1
  | object members => depthMembers members + 1
  | _ => 0

def depthItems : List Json → Nat
  | [] => 0
  | item :: rest => max item.depth (depthItems rest)

def depthMembers : List (String × Json) → Nat
  | [] => 0
  | (_, value) :: rest => max value.depth (depthMembers rest)

end

/-! ## Tokens of a value -/

mutual

def valueTokens : Json → List Token
  | list items => .openList :: ([Token.comma].intercalate (itemTokens items) ++ [.closeList])
  | object members =>
    .openObject :: ([Token.comma].intercalate (memberTokens members) ++ [.closeObject])
  | value => [.scalar value]

def itemTokens : List Json → List (List Token)
  | [] => []
  | item :: rest => item.valueTokens :: itemTokens rest

def memberTokens : List (String × Json) → List (List Token)
  | [] => []
  | (name, value) :: rest =>
    (.scalar (text name) :: .colon :: value.valueTokens) :: memberTokens rest

end

theorem scans_float {x : Double} (h : readsBack x) :
    Scans (floatText x).toList [.scalar (float x)] := by
  unfold readsBack at h
  have hread : readNumber (floatText x).toList = some (float x) := by
    split at h
    · rename_i y hy
      rw [hy, of_decide_eq_true h]
    · cases h
  have hfinite : x.isFinite := by
    by_contra hspecial
    unfold floatText at hread
    rw [if_neg hspecial] at hread
    cases hread
  refine scans_number hread fun c hc ↦ ?_
  unfold floatText at hc
  rw [if_pos hfinite] at hc
  have hnumeral : isNumeral c := List.all_eq_true.1 (isNumeralText_double hfinite) c hc
  unfold isNumeral at hnumeral
  unfold continuesNumber
  grind

/-- Texts with commas between them are scanned one after the other. -/
theorem scans_intercalate {texts : List String} {tokens : List (List Token)}
    (h : List.Forall₂ (fun text tokens ↦ Scans text.toList tokens) texts tokens) :
    Scans (",".intercalate texts).toList ([Token.comma].intercalate tokens) := by
  induction h with
  | nil => exact Scans.nil
  | cons hfirst hrest ih =>
    cases hrest with
    | nil =>
      rw [String.intercalate_singleton, List.intercalate_singleton]
      exact hfirst
    | cons hsecond hrest =>
      rw [String.intercalate_cons_cons, List.intercalate_cons_cons, String.toList_append,
        String.toList_append, List.append_assoc, List.append_assoc]
      exact hfirst.append_mark rfl ih

mutual

/-- The text of a value is scanned as its tokens. -/
theorem scans_toText : ∀ value : Json, value.WellFormed → value.isExact →
    Scans value.toText.toList value.valueTokens
  | null, _, _ => scans_null
  | bool value, _, _ => scans_bool value
  | int value, h, _ => scans_int h
  | float value, _, h => scans_float h
  | text value, _, _ => scans_string value
  | list items, hwell, hexact => by
    have hitems := scans_intercalate (scans_itemTexts items hwell hexact)
    rw [toText, String.toList_append, String.toList_append]
    exact .mark rfl (hitems.append_mark rfl .nil)
  | object members, hwell, hexact => by
    have hmembers := scans_intercalate (scans_memberTexts members hwell.2 hexact)
    rw [toText, String.toList_append, String.toList_append]
    exact .mark rfl (hmembers.append_mark rfl .nil)

theorem scans_itemTexts : ∀ items : List Json, WellFormedItems items → isExactItems items →
    List.Forall₂ (fun text tokens ↦ Scans text.toList tokens) (itemTexts items) (itemTokens items)
  | [], _, _ => .nil
  | item :: rest, hwell, hexact => by
    obtain ⟨hitem, hrest⟩ := Bool.and_eq_true_iff.1 hexact
    exact .cons (scans_toText item hwell.1 hitem) (scans_itemTexts rest hwell.2 hrest)

theorem scans_memberTexts : ∀ members : List (String × Json), WellFormedMembers members →
    isExactMembers members →
    List.Forall₂ (fun text tokens ↦ Scans text.toList tokens) (memberTexts members)
      (memberTokens members)
  | [], _, _ => .nil
  | (name, value) :: rest, hwell, hexact => by
    obtain ⟨hvalue, hrest⟩ := Bool.and_eq_true_iff.1 hexact
    refine .cons ?_ (scans_memberTexts rest hwell.2 hrest)
    have hcolon : mark? ':' = some .colon := rfl
    rw [String.toList_append, String.toList_append, List.append_assoc]
    exact (scans_string name).append_mark hcolon (scans_toText value hwell.1 hvalue)

end

/-! ## Putting tokens together -/

/-- What may come next where a value has to. -/
def Expected.isValue : Expected → Bool
  | .value | .valueOrClose => true
  | _ => false

/-- What may come next where a name has to. -/
def Expected.isName : Expected → Bool
  | .name | .nameOrClose => true
  | _ => false

theorem putEntry_of_notMem {name : String} {value : Json} {members : List (String × Json)}
    (h : name ∉ members.map (·.1)) : putEntry name value members = members ++ [(name, value)] := by
  induction members with
  | nil => rfl
  | cons member members ih =>
    rw [List.map_cons, List.mem_cons, not_or] at h
    rw [putEntry, if_neg (Ne.symm h.1), ih h.2, List.cons_append]

private theorem notMem_of_nodup {name : String} {value : Json} {front back : List (String × Json)}
    (h : ((front ++ (name, value) :: back).map (·.1)).Nodup) : name ∉ front.map (·.1) := by
  rw [List.map_append, List.map_cons, List.nodup_append] at h
  exact fun hfront ↦ h.2.2 name hfront name List.mem_cons_self rfl

/-- A complete value is taken wherever a value may come. -/
theorem Assembly.step_scalar {assembly : Assembly} (h : assembly.expected.isValue) (value : Json) :
    assembly.step (.scalar value) = some (assembly.add value) := by
  obtain ⟨expected, frames, result⟩ := assembly
  cases expected <;> first | rfl | cases h

theorem Assembly.step_openList {assembly : Assembly} (h : assembly.expected.isValue) :
    assembly.step .openList = assembly.enter (.list []) .valueOrClose := by
  obtain ⟨expected, frames, result⟩ := assembly
  cases expected <;> first | rfl | cases h

theorem Assembly.step_openObject {assembly : Assembly} (h : assembly.expected.isValue) :
    assembly.step .openObject = assembly.enter (.object [] "") .nameOrClose := by
  obtain ⟨expected, frames, result⟩ := assembly
  cases expected <;> first | rfl | cases h

/-- A name is taken wherever a name may come, and a colon has to follow. -/
theorem foldlM_name {expected : Expected} (h : expected.isName) (name previous : String)
    (members : List (String × Json)) (frames : List Frame) (result : Json) (rest : List Token) :
    (Token.scalar (text name) :: .colon :: rest).foldlM Assembly.step
        ⟨expected, .object members previous :: frames, result⟩ =
      rest.foldlM Assembly.step ⟨.value, .object members name :: frames, .null⟩ := by
  cases expected <;> first | rfl | cases h

private theorem foldlM_scalar {assembly : Assembly} (h : assembly.expected.isValue) {value : Json} :
    [Token.scalar value].foldlM Assembly.step assembly = some (assembly.add value) := by
  rw [List.foldlM_cons, assembly.step_scalar h]
  rfl

/-- A scalar opens nothing, so it fits if all that is open already does. -/
private theorem foldlM_flat {assembly : Assembly} (hopen : assembly.frames.length ≤ maxDepth)
    (h : assembly.expected.isValue) {value : Json} :
    [Token.scalar value].foldlM Assembly.step assembly =
      if assembly.frames.length + 0 ≤ maxDepth then some (assembly.add value) else none := by
  rw [Nat.add_zero, if_pos hopen, foldlM_scalar h]

mutual

/-- The tokens of a value put it together, unless too much is open at once. -/
theorem foldlM_valueTokens : ∀ (value : Json) (assembly : Assembly), value.WellFormed →
    assembly.frames.length ≤ maxDepth → assembly.expected.isValue →
    value.valueTokens.foldlM Assembly.step assembly =
      if assembly.frames.length + value.depth ≤ maxDepth then some (assembly.add value) else none
  | null, _, _, hopen, h => foldlM_flat hopen h
  | bool _, _, _, hopen, h => foldlM_flat hopen h
  | int _, _, _, hopen, h => foldlM_flat hopen h
  | float _, _, _, hopen, h => foldlM_flat hopen h
  | text _, _, _, hopen, h => foldlM_flat hopen h
  | list items, ⟨expected, frames, result⟩, hwell, _, h => by
    rw [valueTokens, depth, List.foldlM_cons, Assembly.step_openList h, Assembly.enter]
    dsimp only
    by_cases hroom : frames.length < maxDepth
    · rw [if_pos hroom]
      show ([Token.comma].intercalate (itemTokens items) ++ [Token.closeList]).foldlM
        Assembly.step ⟨.valueOrClose, .list [] :: frames, .null⟩ = _
      cases items with
      | nil =>
        rw [depthItems, if_pos (by omega)]
        rfl
      | cons item rest =>
        rw [List.foldlM_append, foldlM_itemTokens (item :: rest) [] frames .valueOrClose .null hwell
          hroom (List.cons_ne_nil _ _) rfl, Nat.add_assoc, Nat.add_comm 1]
        split
        · show some (Assembly.add ⟨.value, frames, .null⟩ (list _)) = _
          rw [List.append_nil, List.reverse_reverse]
          rfl
        · rfl
    · rw [if_neg hroom, if_neg (by omega)]
      rfl
  | object members, ⟨expected, frames, result⟩, hwell, _, h => by
    rw [valueTokens, depth, List.foldlM_cons, Assembly.step_openObject h, Assembly.enter]
    dsimp only
    by_cases hroom : frames.length < maxDepth
    · rw [if_pos hroom]
      show ([Token.comma].intercalate (memberTokens members) ++ [Token.closeObject]).foldlM
        Assembly.step ⟨.nameOrClose, .object [] "" :: frames, .null⟩ = _
      cases members with
      | nil =>
        rw [depthMembers, if_pos (by omega)]
        rfl
      | cons member rest =>
        obtain ⟨last, hmembers⟩ := foldlM_memberTokens (member :: rest) [] frames .nameOrClose ""
          .null hwell.2 hwell.1 hroom (List.cons_ne_nil _ _) rfl
        rw [List.foldlM_append, hmembers, Nat.add_assoc, Nat.add_comm 1]
        split <;> rfl
    · rw [if_neg hroom, if_neg (by omega)]
      rfl

theorem foldlM_itemTokens : ∀ (items done : List Json) (frames : List Frame) (expected : Expected)
    (result : Json), WellFormedItems items → frames.length < maxDepth → items ≠ [] →
    expected.isValue →
    ([Token.comma].intercalate (itemTokens items)).foldlM Assembly.step
        ⟨expected, .list done :: frames, result⟩ =
      if frames.length + 1 + depthItems items ≤ maxDepth then
        some ⟨.commaOrClose, .list (items.reverse ++ done) :: frames, .null⟩
      else none
  | [], _, _, _, _, _, _, hnil, _ => absurd rfl hnil
  | [item], done, frames, expected, result, hwell, hopen, _, h => by
    have hitem := foldlM_valueTokens item ⟨expected, .list done :: frames, result⟩ hwell.1 hopen h
    rw [itemTokens, itemTokens, List.intercalate_singleton, hitem, depthItems, depthItems,
      Nat.max_zero]
    rfl
  | item :: next :: rest, done, frames, expected, result, hwell, hopen, _, h => by
    have hitem := foldlM_valueTokens item ⟨expected, .list done :: frames, result⟩ hwell.1 hopen h
    have hrest := foldlM_itemTokens (next :: rest) (item :: done) frames .value .null hwell.2 hopen
      (List.cons_ne_nil _ _) rfl
    rw [itemTokens, itemTokens, List.intercalate_cons_cons, List.append_assoc, List.foldlM_append,
      hitem, depthItems]
    simp only [List.length_cons]
    by_cases hfits : frames.length + 1 + item.depth ≤ maxDepth
    · rw [if_pos hfits]
      show ([Token.comma].intercalate (itemTokens (next :: rest))).foldlM Assembly.step
        ⟨.value, .list (item :: done) :: frames, .null⟩ = _
      have hitems : (next :: rest).reverse ++ item :: done =
          (item :: next :: rest).reverse ++ done := by simp
      rw [hrest, hitems]
      split <;> [rw [if_pos (by omega)]; rw [if_neg (by omega)]]
    · rw [if_neg hfits, if_neg (by omega)]
      rfl

theorem foldlM_memberTokens : ∀ (members done : List (String × Json)) (frames : List Frame)
    (expected : Expected) (previous : String) (result : Json), WellFormedMembers members →
    ((done ++ members).map (·.1)).Nodup → frames.length < maxDepth → members ≠ [] →
    expected.isName →
    ∃ last, ([Token.comma].intercalate (memberTokens members)).foldlM Assembly.step
        ⟨expected, .object done previous :: frames, result⟩ =
      if frames.length + 1 + depthMembers members ≤ maxDepth then
        some ⟨.commaOrClose, .object (done ++ members) last :: frames, .null⟩
      else none
  | [], _, _, _, _, _, _, _, _, hnil, _ => absurd rfl hnil
  | [(name, value)], done, frames, expected, previous, result, hwell, hnodup, hopen, _, h => by
    have hvalue := foldlM_valueTokens value ⟨.value, .object done name :: frames, .null⟩ hwell.1
      hopen rfl
    have hnew := notMem_of_nodup hnodup
    refine ⟨name, ?_⟩
    rw [memberTokens, memberTokens, List.intercalate_singleton, foldlM_name h, hvalue, depthMembers,
      depthMembers, Nat.max_zero, ← putEntry_of_notMem hnew]
    rfl
  | (name, value) :: next :: rest, done, frames, expected, previous, result, hwell, hnodup, hopen,
      _, h => by
    have hvalue := foldlM_valueTokens value ⟨.value, .object done name :: frames, .null⟩ hwell.1
      hopen rfl
    have hnew := notMem_of_nodup hnodup
    obtain ⟨last, hrest⟩ := foldlM_memberTokens (next :: rest) (done ++ [(name, value)]) frames
      .name name .null hwell.2 (by rwa [List.append_assoc]) hopen (List.cons_ne_nil _ _) rfl
    refine ⟨last, ?_⟩
    rw [memberTokens, memberTokens, List.intercalate_cons_cons, List.append_assoc, List.cons_append,
      List.cons_append, foldlM_name h, List.foldlM_append, hvalue, depthMembers]
    simp only [List.length_cons]
    by_cases hfits : frames.length + 1 + value.depth ≤ maxDepth
    · rw [if_pos hfits]
      show ([Token.comma].intercalate (memberTokens (next :: rest))).foldlM Assembly.step
        ⟨.name, .object (putEntry name value done) name :: frames, .null⟩ = _
      rw [putEntry_of_notMem hnew, hrest, List.append_assoc, List.singleton_append]
      split <;> [rw [if_pos (by omega)]; rw [if_neg (by omega)]]
    · rw [if_neg hfits, if_neg (by omega)]
      rfl

end

/-! ## Reading -/

/-- A value whose doubles are read back from their digits is read back from its text, unless too
much of it is open at once. -/
theorem read_toText {value : Json} (hwell : value.WellFormed) (hexact : value.isExact) :
    read value.toText = if value.depth ≤ maxDepth then some value else none := by
  have hvalue := foldlM_valueTokens value ⟨.value, [], .null⟩ hwell (Nat.zero_le _) rfl
  unfold read
  rw [tokens_eq_some (scans_toText value hwell hexact), Option.bind_eq_bind, Option.bind_some,
    hvalue, List.length_nil, Nat.zero_add]
  split <;> rfl

/-- A text that starts with a character of no token is refused. -/
theorem read_eq_none {text : String} {c : Char} {rest : List Char} (htext : text.toList = c :: rest)
    (hfirst : ∀ found, scanBetween found c = none) : read text = none := by
  unfold read
  rw [tokens_eq_none htext hfirst]
  rfl

/-! ## The first character -/

/-- What a text of a value may start with: it is ASCII, and neither a blank nor a control
character. -/
def isFirst (c : Char) : Bool := decide (0x22 ≤ c.toNat) && decide (c.toNat < 0x80)

private theorem isFirst_of_isNumeral {c : Char} (h : isNumeral c) : isFirst c := by
  unfold isNumeral at h
  simp only [Bool.or_eq_true, beq_iff_eq] at h
  obtain (((hdigit | rfl) | rfl) | rfl) | rfl := h
  · obtain ⟨hleast, hmost⟩ := toNat_of_isDigit hdigit
    unfold isFirst
    rw [decide_eq_true (by omega), decide_eq_true (by omega)]
    rfl
  all_goals decide

private theorem exists_first_of_numeral {text : String} (hnumeral : isNumeralText text)
    (hdigit : holdsDigit text) : ∃ c rest, text.toList = c :: rest ∧ isFirst c := by
  cases htext : text.toList with
  | nil =>
    unfold holdsDigit at hdigit
    rw [htext] at hdigit
    cases hdigit
  | cons c rest =>
    unfold isNumeralText at hnumeral
    rw [htext, List.all_cons, Bool.and_eq_true] at hnumeral
    exact ⟨c, rest, rfl, isFirst_of_isNumeral hnumeral.1⟩

/-- The text of a value starts with a quote, a bracket, a sign, a digit or a letter. -/
theorem exists_first_toText (value : Json) :
    ∃ c rest, value.toText.toList = c :: rest ∧ isFirst c := by
  cases value with
  | null => exact ⟨_, _, rfl, by decide⟩
  | bool value => cases value <;> exact ⟨_, _, rfl, by decide⟩
  | int value => exact exists_first_of_numeral (isNumeralText_int value) (holdsDigit_int value)
  | float value =>
    have htext : Shorthand.numberText? (float value) = some (floatText value) := rfl
    obtain hnull | hnumeral := isNumeralText_json htext
    · exact ⟨'n', "ull".toList, congrArg String.toList hnull, by decide⟩
    · obtain hnull | hdigit := holdsDigit_json htext
      · exact ⟨'n', "ull".toList, congrArg String.toList hnull, by decide⟩
      · exact exists_first_of_numeral hnumeral hdigit
  | text value =>
    exact ⟨'"', _, String.toList_ofList, by decide⟩
  | list items =>
    rw [toText, String.toList_append, String.toList_append]
    exact ⟨'[', _, rfl, by decide⟩
  | object members =>
    rw [toText, String.toList_append, String.toList_append]
    exact ⟨'\x7b', _, rfl, by decide⟩

end SqlComposer.Json
