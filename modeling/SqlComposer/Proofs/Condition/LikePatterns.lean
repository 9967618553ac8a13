import Mathlib
import SqlComposer.Condition.Code
import SqlComposer.Proofs.Script.ExceptResults

/-!
# What text comparisons match

The comparisons of texts are written with LIKE and ILIKE behind a column. Their pattern is put
together by the database, from the bound text and a percent sign in front of it or behind it. Here
is what such a test comes to, with PostgreSQL's reading of patterns, beside what a comparison is
named for: that a text occurs in another, begins it, or ends it.

The bound text stands in the pattern as it is, so its percent signs and underscores are wildcards
and its backslashes take away the meaning of what follows. The test is the named one exactly for
texts with none of these characters. A text without a backslash is at least never missed.
-/

namespace SqlComposer

/-! ## Patterns -/

namespace Like

/-- One item of a pattern. -/
inductive Item where
  | anyText
  | anyChar
  | exact (c : Char)

/-- The items of a pattern. A backslash makes the character behind it stand for itself, so one at
the end leaves the pattern without a meaning. -/
def items? : List Char → Option (List Item)
  | [] => some []
  | '%' :: rest => (items? rest).map (.anyText :: ·)
  | '_' :: rest => (items? rest).map (.anyChar :: ·)
  | ['\\'] => none
  | '\\' :: c :: rest => (items? rest).map (.exact c :: ·)
  | c :: rest => (items? rest).map (.exact c :: ·)

/-- Whether a text consists of what the items stand for, one behind the other. -/
def fits : List Item → List Char → Bool
  | [], cs => cs.isEmpty
  | .anyText :: items, cs => cs.tails.any (fits items)
  | .anyChar :: _, [] => false
  | .anyChar :: items, _ :: cs => fits items cs
  | .exact _ :: _, [] => false
  | .exact c :: items, d :: cs => c == d && fits items cs

/-- Whether a text matches a pattern; nothing if the pattern has no meaning. -/
def matches? (content pattern : List Char) : Option Bool :=
  (items? pattern).map fun items ↦ fits items content

/-- The characters that do not stand for themselves in a pattern. -/
def IsSpecial (c : Char) : Prop := c = '%' ∨ c = '_' ∨ c = '\\'

instance : DecidablePred IsSpecial := fun _ ↦ inferInstanceAs (Decidable (_ ∨ _))

def lowered (cs : List Char) : List Char := cs.map Char.toLower

end Like

/-! ## Tests in SQL -/

/-- What constants and bound texts with `||` between them come to. -/
def Code.joined? : Code → Option (List Char)
  | [.text content] => some content.toList
  | [.bind (.text content)] => some content.toList
  | .text content :: .word " || " :: rest => (joined? rest).map (content.toList ++ ·)
  | .bind (.text content) :: .word " || " :: rest => (joined? rest).map (content.toList ++ ·)
  | _ => none

/-- What a test behind a column comes to for the text of the column. ILIKE does not tell ASCII
letters from their small forms. -/
def Code.verdict? (test : Code) (content : String) : Option Bool :=
  match test with
  | .word " " :: .word "LIKE" :: .word " " :: pattern =>
    (joined? pattern).bind fun pattern ↦ Like.matches? content.toList pattern
  | .word " " :: .word "ILIKE" :: .word " " :: pattern =>
    (joined? pattern).bind fun pattern ↦
      Like.matches? (Like.lowered content.toList) (Like.lowered pattern)
  | _ => none

namespace Comparison

/-- The characters that a comparison goes by. -/
def compared (comparison : Comparison) (text : String) : List Char :=
  match comparison with
  | containsInsensitive | startsWithInsensitive | endsWithInsensitive => Like.lowered text.toList
  | _ => text.toList

/-- What a comparison of texts is named for. -/
def Finds (comparison : Comparison) (operand content : String) : Prop :=
  match comparison with
  | contains | containsInsensitive => comparison.compared operand <:+: comparison.compared content
  | startsWith | startsWithInsensitive =>
    comparison.compared operand <+: comparison.compared content
  | endsWith | endsWithInsensitive => comparison.compared operand <:+ comparison.compared content
  | _ => False

end Comparison

/-- The test is defined for every text of the column, and comes to true exactly for those in which
the comparison finds its operand. -/
def Code.TestsFor (test : Code) (comparison : Comparison) (operand : String) : Prop :=
  ∀ content, ∃ verdict, test.verdict? content = some verdict ∧
    (verdict = true ↔ comparison.Finds operand content)

namespace Like

/-! ## Items of texts -/

@[simp]
theorem items?_percent (rest : List Char) :
    items? ('%' :: rest) = (items? rest).map (.anyText :: ·) := rfl

@[simp]
theorem items?_underscore (rest : List Char) :
    items? ('_' :: rest) = (items? rest).map (.anyChar :: ·) := rfl

@[simp]
theorem items?_escaped (c : Char) (rest : List Char) :
    items? ('\\' :: c :: rest) = (items? rest).map (.exact c :: ·) := rfl

@[simp]
theorem fits_nil (cs : List Char) : fits [] cs = cs.isEmpty := rfl

@[simp]
theorem fits_exact_nil (c : Char) (items : List Item) : fits (.exact c :: items) [] = false := rfl

@[simp]
theorem fits_exact_cons (c d : Char) (items : List Item) (cs : List Char) :
    fits (.exact c :: items) (d :: cs) = (c == d && fits items cs) := rfl

theorem fits_anyText (items : List Item) (cs : List Char) :
    fits (.anyText :: items) cs = true ↔
      ∃ skipped left, cs = skipped ++ left ∧ fits items left := by
  change cs.tails.any (fits items) = true ↔ _
  rw [List.any_eq_true]
  constructor
  · rintro ⟨left, hleft, hfits⟩
    obtain ⟨skipped, hskipped⟩ := (List.mem_tails _ _).1 hleft
    exact ⟨skipped, left, hskipped.symm, hfits⟩
  · rintro ⟨skipped, left, rfl, hfits⟩
    exact ⟨left, (List.mem_tails _ _).2 (List.suffix_append skipped left), hfits⟩

theorem fits_exact (text : List Char) (items : List Item) (cs : List Char) :
    fits (text.map .exact ++ items) cs = true ↔ ∃ left, cs = text ++ left ∧ fits items left := by
  induction text generalizing cs with
  | nil => simp
  | cons c text ih =>
    cases cs with
    | nil => simp
    | cons d cs =>
      rw [List.map_cons, List.cons_append, fits_exact_cons, Bool.and_eq_true, beq_iff_eq, ih]
      constructor
      · rintro ⟨rfl, left, rfl, hfits⟩
        exact ⟨left, rfl, hfits⟩
      · rintro ⟨left, hcs, hfits⟩
        obtain ⟨rfl, rfl⟩ := List.cons.inj hcs
        exact ⟨rfl, left, rfl, hfits⟩

theorem items?_plain {c : Char} (plain : ¬IsSpecial c) (rest : List Char) :
    items? (c :: rest) = (items? rest).map (.exact c :: ·) := by
  simp only [IsSpecial, not_or] at plain
  rw [items?]
  · exact plain.1
  · exact plain.2.1
  · exact fun hc ↦ absurd hc plain.2.2
  · exact fun _ _ hc ↦ absurd hc plain.2.2

/-- Characters that are not special stand for themselves. -/
theorem items?_append {text : List Char} (plain : ∀ c ∈ text, ¬IsSpecial c) (rest : List Char) :
    items? (text ++ rest) = (items? rest).map (text.map .exact ++ ·) := by
  induction text with
  | nil => simp
  | cons c text ih =>
    rw [List.forall_mem_cons] at plain
    rw [List.cons_append, items?_plain plain.1, ih plain.2, Option.map_map]
    rfl

theorem matches?_eq_true {content pattern : List Char} :
    matches? content pattern = some true ↔
      ∃ items, items? pattern = some items ∧ fits items content = true := by
  rw [matches?, Option.map_eq_some_iff]

/-! ## One item at a time -/

section

variable {left pattern : List Char} (behind : matches? left pattern = some true)

include behind

theorem matches?_percent (skipped : List Char) :
    matches? (skipped ++ left) ('%' :: pattern) = some true := by
  obtain ⟨items, hitems, hfits⟩ := matches?_eq_true.1 behind
  refine matches?_eq_true.2 ⟨.anyText :: items, ?_, (fits_anyText items _).2 ⟨_, _, rfl, hfits⟩⟩
  rw [items?_percent, hitems, Option.map_some]

theorem matches?_underscore (c : Char) : matches? (c :: left) ('_' :: pattern) = some true := by
  obtain ⟨items, hitems, hfits⟩ := matches?_eq_true.1 behind
  refine matches?_eq_true.2 ⟨.anyChar :: items, ?_, hfits⟩
  rw [items?_underscore, hitems, Option.map_some]

theorem matches?_escaped (c : Char) :
    matches? (c :: left) ('\\' :: c :: pattern) = some true := by
  obtain ⟨items, hitems, hfits⟩ := matches?_eq_true.1 behind
  refine matches?_eq_true.2 ⟨.exact c :: items, ?_, ?_⟩
  · rw [items?_escaped, hitems, Option.map_some]
  · rw [fits_exact_cons, hfits, beq_self_eq_true, Bool.and_true]

theorem matches?_plain {c : Char} (plain : ¬IsSpecial c) :
    matches? (c :: left) (c :: pattern) = some true := by
  obtain ⟨items, hitems, hfits⟩ := matches?_eq_true.1 behind
  refine matches?_eq_true.2 ⟨.exact c :: items, ?_, ?_⟩
  · rw [items?_plain plain, hitems, Option.map_some]
  · rw [fits_exact_cons, hfits, beq_self_eq_true, Bool.and_true]

/-- A text without backslashes is matched by the pattern that it makes, in front of what the rest of
the pattern matches. -/
theorem matches?_self {text : List Char} (unescaped : '\\' ∉ text) :
    matches? (text ++ left) (text ++ pattern) = some true := by
  induction text with
  | nil => exact behind
  | cons c text ih =>
    rw [List.mem_cons, not_or] at unescaped
    have hrest := ih unescaped.2
    by_cases hc : IsSpecial c
    · rcases hc with rfl | rfl | rfl
      · exact matches?_percent hrest ['%']
      · exact matches?_underscore hrest '_'
      · exact absurd rfl unescaped.1
    · exact matches?_plain hrest hc

end

/-! ## Texts with a special character -/

/-- A text that a pattern matches. Where the pattern has a special character, the text differs from
it: a percent sign stands for nothing, an underscore for a letter, a backslash is gone or, at the
end, takes away the meaning of the percent sign that comes behind. -/
def sample : List Char → List Char
  | [] => []
  | '%' :: rest => sample rest
  | '_' :: rest => 'a' :: sample rest
  | ['\\'] => ['%']
  | '\\' :: c :: rest => c :: sample rest
  | c :: rest => c :: sample rest

theorem length_sample_le (cs : List Char) : (sample cs).length ≤ cs.length := by
  fun_induction sample cs <;> simp only [List.length_nil, List.length_cons] <;> omega

/-- A character that is not read as a special one is none. -/
theorem not_special {c : Char} {rest : List Char} (percent : c ≠ '%') (underscore : c ≠ '_')
    (last : c = '\\' → rest ≠ []) (escape : ∀ d others, c = '\\' → rest ≠ d :: others) :
    ¬IsSpecial c := by
  rintro (hc | hc | hc)
  · exact percent hc
  · exact underscore hc
  · cases rest with
    | nil => exact last hc rfl
    | cons d others => exact escape d others hc rfl

/-- Only a text without special characters is its own sample. -/
theorem not_special_of_sample {cs : List Char} (h : sample cs = cs) : ∀ c ∈ cs, ¬IsSpecial c := by
  fun_induction sample cs with
  | case1 => simp
  | case2 rest =>
    have hlength := length_sample_le rest
    rw [h, List.length_cons] at hlength
    omega
  | case3 rest => exact absurd (List.cons.inj h).1 (by decide)
  | case4 => exact absurd (List.cons.inj h).1 (by decide)
  | case5 c rest =>
    have hlength := congrArg List.length h
    have hrest := length_sample_le rest
    simp only [List.length_cons] at hlength
    omega
  | case6 c rest percent underscore last escape ih =>
    exact List.forall_mem_cons.2 ⟨not_special percent underscore last escape,
      ih (List.cons.inj h).2⟩

/-- A pattern that has a meaning matches its sample, with or without a percent sign behind it. -/
theorem matches?_sample {cs suffix : List Char} (hsuffix : suffix = [] ∨ suffix = ['%'])
    (defined : (items? (cs ++ suffix)).isSome) :
    matches? (sample cs) (cs ++ suffix) = some true := by
  fun_induction sample cs with
  | case1 =>
    rcases hsuffix with rfl | rfl
    · rfl
    · rfl
  | case2 rest ih =>
    rw [List.cons_append, items?_percent, Option.isSome_map] at defined
    exact matches?_percent (ih defined) []
  | case3 rest ih =>
    rw [List.cons_append, items?_underscore, Option.isSome_map] at defined
    exact matches?_underscore (ih defined) 'a'
  | case4 =>
    rcases hsuffix with rfl | rfl
    · cases defined
    · rfl
  | case5 c rest ih =>
    rw [List.cons_append, List.cons_append, items?_escaped, Option.isSome_map] at defined
    exact matches?_escaped (ih defined) c
  | case6 c rest percent underscore last escape ih =>
    have plain := not_special percent underscore last escape
    rw [List.cons_append, items?_plain plain, Option.isSome_map] at defined
    exact matches?_plain (ih defined) plain

/-! ## Patterns with percent signs around a text -/

/-- A percent sign where there may be any text. -/
def percentIf (free : Bool) : List Char := if free then ['%'] else []

/-- A text with percent signs where any text may come before or behind it. -/
def around (before after : Bool) (text : List Char) : List Char :=
  percentIf before ++ (text ++ percentIf after)

theorem exists_items_percentIf (free : Bool) :
    ∃ items, items? (percentIf free) = some items ∧
      ∀ left, fits items left = true ↔ (free = false → left = []) := by
  cases free with
  | false => exact ⟨[], rfl, by simp⟩
  | true =>
    have hfits (left : List Char) : fits [.anyText] left = true :=
      (fits_anyText [] left).2 ⟨left, [], (List.append_nil left).symm, rfl⟩
    exact ⟨[.anyText], rfl, by simp [hfits]⟩

/-- What may be skipped in front of a pattern is taken by a percent sign that stands there. -/
theorem matches?_around_of_percentIf {before after : Bool} {text skipped left : List Char}
    (behind : matches? left (text ++ percentIf after) = some true)
    (free : before = false → skipped = []) :
    matches? (skipped ++ left) (around before after text) = some true := by
  cases before with
  | false =>
    rw [free rfl]
    exact behind
  | true => exact matches?_percent behind skipped

/-- A pattern that has a meaning matches the sample of the text with percent signs around it. -/
theorem matches?_sample_around {before after : Bool} {text : List Char}
    (defined : (items? (around before after text)).isSome) :
    matches? (sample text) (around before after text) = some true := by
  have hsuffix : percentIf after = [] ∨ percentIf after = ['%'] := by
    cases after
    · exact .inl rfl
    · exact .inr rfl
  have hdefined : (items? (text ++ percentIf after)).isSome := by
    cases before with
    | false => exact defined
    | true =>
      rw [around, percentIf, if_pos rfl, List.singleton_append, items?_percent, Option.isSome_map]
        at defined
      exact defined
  have hsample : matches? ([] ++ sample text) (around before after text) = some true :=
    matches?_around_of_percentIf (matches?_sample hsuffix hdefined) fun _ ↦ rfl
  exact hsample

/-- A text without special characters has to stand in what is matched. -/
theorem matches?_around {text : List Char} (plain : ∀ c ∈ text, ¬IsSpecial c) (before after : Bool)
    (content : List Char) :
    ∃ verdict, matches? content (around before after text) = some verdict ∧
      (verdict = true ↔ ∃ skipped left, content = skipped ++ (text ++ left) ∧
        (before = false → skipped = []) ∧ (after = false → left = [])) := by
  obtain ⟨ending, hending, hleft⟩ := exists_items_percentIf after
  have htext : items? (text ++ percentIf after) = some (text.map .exact ++ ending) := by
    rw [items?_append plain, hending, Option.map_some]
  cases before with
  | false =>
    refine ⟨_, congrArg (Option.map (fits · content)) htext, ?_⟩
    rw [fits_exact]
    constructor
    · rintro ⟨left, hcontent, hfits⟩
      exact ⟨[], left, hcontent, fun _ ↦ rfl, (hleft left).1 hfits⟩
    · rintro ⟨skipped, left, hcontent, hskipped, hends⟩
      rw [hskipped rfl] at hcontent
      exact ⟨left, hcontent, (hleft left).2 hends⟩
  | true =>
    have hpattern : items? (around true after text) =
        some (.anyText :: (text.map .exact ++ ending)) := by
      rw [around, percentIf, if_pos rfl, List.singleton_append, items?_percent, htext,
        Option.map_some]
    refine ⟨_, congrArg (Option.map (fits · content)) hpattern, ?_⟩
    simp only [fits_anyText, fits_exact, hleft]
    constructor
    · rintro ⟨skipped, _, hcontent, left, rfl, hends⟩
      exact ⟨skipped, left, hcontent, nofun, hends⟩
    · rintro ⟨skipped, left, hcontent, -, hends⟩
      exact ⟨skipped, _, hcontent, left, rfl, hends⟩

/-! ## Small forms -/

theorem toLower_eq_of_special {c : Char} (special : IsSpecial c.toLower) : c.toLower = c := by
  apply Char.toLower_eq_of_not_isUpper
  intro hupper
  have hlower : c.toLower.isLower = true := by
    rw [Char.isLower_toLower_eq_isAlpha, Char.isAlpha, hupper, Bool.true_or]
  rcases special with hc | hc | hc <;> rw [hc] at hlower <;> exact absurd hlower (by decide)

theorem toLower_special {c : Char} (special : IsSpecial c) : c.toLower = c := by
  rcases special with rfl | rfl | rfl <;> decide

theorem mem_lowered {c : Char} (special : IsSpecial c) {cs : List Char} :
    c ∈ lowered cs ↔ c ∈ cs := by
  rw [lowered, List.mem_map]
  constructor
  · rintro ⟨d, hd, rfl⟩
    rwa [toLower_eq_of_special special]
  · intro hc
    exact ⟨c, hc, toLower_special special⟩

theorem lowered_lowered (cs : List Char) : lowered (lowered cs) = lowered cs := by
  unfold lowered
  rw [List.map_map]
  apply List.map_congr_left
  intro c _
  exact Char.toLower_eq_of_not_isUpper (by simp)

theorem lowered_around (before after : Bool) (text : List Char) :
    lowered (around before after text) = around before after (lowered text) := by
  have hpercent (free : Bool) : lowered (percentIf free) = percentIf free := by
    cases free <;> decide
  unfold lowered at hpercent ⊢
  rw [around, List.map_append, List.map_append, hpercent, hpercent, around]

theorem lowered_sample {cs : List Char} (h : lowered cs = cs) :
    lowered (sample cs) = sample cs := by
  unfold lowered at h ⊢
  fun_induction sample cs with
  | case1 => rfl
  | case2 rest ih => exact ih (List.cons.inj h).2
  | case3 rest ih => exact congrArg ('a' :: ·) (ih (List.cons.inj h).2)
  | case4 => rfl
  | case5 c rest ih =>
    obtain ⟨hc, hrest⟩ := List.cons.inj (List.cons.inj h).2
    rw [List.map_cons, hc, ih hrest]
  | case6 c rest _ _ _ _ ih =>
    obtain ⟨hc, hrest⟩ := List.cons.inj h
    rw [List.map_cons, hc, ih hrest]

end Like

namespace Comparison

open Like

/-! ## The comparisons of texts -/

def patternCode (comparison : Comparison) (operand : String) : Code :=
  (if comparison.anyBefore then [.text "%", .word " || "] else []) ++
    (.bind (.text operand) :: if comparison.anyAfter then [.word " || ", .text "%"] else [])

/-- What a comparison of texts writes behind its left-hand side. -/
def test (comparison : Comparison) (operand : String) : Code :=
  .word " " :: .word comparison.operator :: .word " " :: comparison.patternCode operand

variable {comparison : Comparison} (pattern : comparison.isPattern)

theorem values_test (comparison : Comparison) (operand : String) :
    Code.values (comparison.test operand) = [.text operand] := by
  unfold test patternCode
  cases comparison.anyBefore <;> cases comparison.anyAfter <;> rfl

theorem joined?_patternCode (comparison : Comparison) (operand : String) :
    (comparison.patternCode operand).joined? =
      some (around comparison.anyBefore comparison.anyAfter operand.toList) := by
  unfold patternCode around
  cases comparison.anyBefore <;> cases comparison.anyAfter <;> simp [Code.joined?, percentIf]

theorem compared_eq (comparison : Comparison) :
    (∀ text, comparison.compared text = text.toList) ∨
      ∀ text, comparison.compared text = lowered text.toList := by
  cases comparison
  case containsInsensitive | startsWithInsensitive | endsWithInsensitive => exact .inr fun _ ↦ rfl
  all_goals exact .inl fun _ ↦ rfl

theorem mem_compared (comparison : Comparison) {c : Char} (special : IsSpecial c) {text : String} :
    c ∈ comparison.compared text ↔ c ∈ text.toList := by
  rcases comparison.compared_eq with hcompared | hcompared
  · rw [hcompared]
  · rw [hcompared, mem_lowered special]

/-- The sample of what a comparison goes by is a text that it goes by as it is. -/
theorem compared_sample (comparison : Comparison) (operand : String) :
    comparison.compared (String.ofList (sample (comparison.compared operand))) =
      sample (comparison.compared operand) := by
  rcases comparison.compared_eq with hcompared | hcompared
  · rw [hcompared, hcompared, String.toList_ofList]
  · rw [hcompared, hcompared, String.toList_ofList,
      lowered_sample (lowered_lowered operand.toList)]

include pattern

theorem comparisonCode_text (left : Code) (operand : String) (qualifier : Qualifier) :
    comparisonCode left comparison (.term (.literal (.text operand))) qualifier =
      .ok (left ++ comparison.test operand) := by
  have hnull : (Term.literal (.text operand)).isNull = false := rfl
  simp only [comparisonCode, hnull, Bool.false_eq_true, and_false, if_false, Term.code, pattern,
    if_true]
  simp [test, patternCode, pure, Except.pure, bind, Except.bind]

/-- The test matches the texts that the comparison goes by against the operand with percent signs
around it. -/
theorem verdict?_test (operand content : String) :
    (comparison.test operand).verdict? content =
      matches? (comparison.compared content)
        (around comparison.anyBefore comparison.anyAfter (comparison.compared operand)) := by
  have hjoined := comparison.joined?_patternCode operand
  cases comparison
  case contains | startsWith | endsWith =>
    exact congrArg (Option.bind · fun pattern ↦ matches? content.toList pattern) hjoined
  case containsInsensitive | startsWithInsensitive | endsWithInsensitive =>
    have hlowered := congrArg
      (Option.bind · fun pattern ↦ matches? (lowered content.toList) (lowered pattern)) hjoined
    rw [Option.bind_some, lowered_around] at hlowered
    exact hlowered
  all_goals cases pattern

/-- An operand is found iff it stands in the content where the comparison allows it. -/
theorem finds_iff (operand content : String) :
    comparison.Finds operand content ↔ ∃ skipped left,
      comparison.compared content = skipped ++ (comparison.compared operand ++ left) ∧
        (comparison.anyBefore = false → skipped = []) ∧
        (comparison.anyAfter = false → left = []) := by
  cases comparison
  case contains | containsInsensitive =>
    constructor
    · rintro ⟨skipped, left, hcontent⟩
      exact ⟨skipped, left, by rw [← hcontent, List.append_assoc], nofun, nofun⟩
    · rintro ⟨skipped, left, hcontent, -, -⟩
      exact ⟨skipped, left, by rw [hcontent, List.append_assoc]⟩
  case startsWith | startsWithInsensitive =>
    constructor
    · rintro ⟨left, hcontent⟩
      exact ⟨[], left, hcontent.symm, fun _ ↦ rfl, nofun⟩
    · rintro ⟨skipped, left, hcontent, hskipped, -⟩
      rw [hskipped rfl] at hcontent
      exact ⟨left, hcontent.symm⟩
  case endsWith | endsWithInsensitive =>
    constructor
    · rintro ⟨skipped, hcontent⟩
      exact ⟨skipped, [], by rw [List.append_nil, hcontent], nofun, fun _ ↦ rfl⟩
    · rintro ⟨skipped, left, hcontent, -, hleft⟩
      rw [hleft rfl, List.append_nil] at hcontent
      exact ⟨skipped, hcontent.symm⟩
  all_goals cases pattern

/-- The test for a text is what the comparison is named for exactly if no character of the text is
special. -/
theorem testsFor_test_iff (operand : String) :
    (comparison.test operand).TestsFor comparison operand ↔
      ∀ c ∈ operand.toList, ¬IsSpecial c := by
  constructor
  · intro htests
    -- The operand would have to stand in its own sample, which is no longer than the operand.
    obtain ⟨verdict, hverdict, hfinds⟩ :=
      htests (String.ofList (sample (comparison.compared operand)))
    rw [verdict?_test pattern, compared_sample] at hverdict
    rw [finds_iff pattern, compared_sample] at hfinds
    have hdefined := congrArg Option.isSome hverdict
    rw [matches?, Option.isSome_map] at hdefined
    obtain rfl := Option.some.inj (hverdict.symm.trans (matches?_sample_around hdefined))
    obtain ⟨skipped, left, hsample, -, -⟩ := hfinds.1 rfl
    have hlength := congrArg List.length hsample
    have hshort := length_sample_le (comparison.compared operand)
    simp only [List.length_append] at hlength
    obtain rfl : skipped = [] := List.eq_nil_of_length_eq_zero (by omega)
    obtain rfl : left = [] := List.eq_nil_of_length_eq_zero (by omega)
    rw [List.nil_append, List.append_nil] at hsample
    intro c hc special
    exact not_special_of_sample hsample c ((comparison.mem_compared special).2 hc) special
  · intro plain content
    have hcompared : ∀ c ∈ comparison.compared operand, ¬IsSpecial c := fun c hc special ↦
      plain c ((comparison.mem_compared special).1 hc) special
    rw [verdict?_test pattern]
    simp only [finds_iff pattern]
    exact matches?_around hcompared _ _ _

/-- A text without backslashes is never missed. -/
theorem verdict?_of_finds {operand content : String} (unescaped : '\\' ∉ operand.toList)
    (finds : comparison.Finds operand content) :
    (comparison.test operand).verdict? content = some true := by
  obtain ⟨skipped, left, hcontent, hskipped, hleft⟩ := (finds_iff pattern operand content).1 finds
  have hunescaped : '\\' ∉ comparison.compared operand := fun hmem ↦
    unescaped ((comparison.mem_compared (.inr (.inr rfl))).1 hmem)
  obtain ⟨ending, hending, hfits⟩ := exists_items_percentIf comparison.anyAfter
  have hends : matches? left (percentIf comparison.anyAfter) = some true :=
    matches?_eq_true.2 ⟨ending, hending, (hfits left).2 hleft⟩
  rw [verdict?_test pattern, hcontent]
  exact matches?_around_of_percentIf (matches?_self hends hunescaped) hskipped

end Comparison

open Like

/-- What the comparisons of texts match. Behind the column stands a test that binds the text as it
is. It is defined for every text of the column and finds what the comparison is named for exactly if
the text has no percent sign, underscore or backslash; without a backslash it never misses a text
of the column. -/
theorem Condition.code?_matching (column : ColumnRef) (comparison : Comparison)
    (pattern : comparison.isPattern) (operand : String) (qualifier : Qualifier) :
    ∃ test : Code,
      code? (.compare column comparison (.term (.literal (.text operand)))) qualifier =
          .ok (some (column.code qualifier ++ test)) ∧
        Code.values test = [.text operand] ∧
        (test.TestsFor comparison operand ↔ ∀ c ∈ operand.toList, ¬IsSpecial c) ∧
        ('\\' ∉ operand.toList → ∀ content, comparison.Finds operand content →
          test.verdict? content = some true) := by
  refine ⟨comparison.test operand, ?_, comparison.values_test operand,
    Comparison.testsFor_test_iff pattern operand,
    fun unescaped _ ↦ Comparison.verdict?_of_finds pattern unescaped⟩
  rw [code?, formula, Comparison.comparisonCode_text pattern]
  rfl

/-- A text without special characters is looked for as it is. -/
theorem Condition.code?_matching_name :
    Comparison.isPattern .containsInsensitive ∧
      ∃ test : Code, code? (.compare ⟨none, "name"⟩ .containsInsensitive
          (.term (.literal (.text "Ada")))) (some (.name "user")) =
            .ok (some ([.name "user", .word ".", .name "name"] ++ test)) ∧
        test.TestsFor .containsInsensitive "Ada" := by
  refine ⟨rfl, ?_⟩
  obtain ⟨test, hcode, -, htests, -⟩ :=
    Condition.code?_matching ⟨none, "name"⟩ .containsInsensitive rfl "Ada" (some (.name "user"))
  exact ⟨test, hcode, htests.2 (by simp [IsSpecial])⟩

/-- Looking for a text with a percent sign also finds texts that do not contain it. -/
theorem Condition.code?_percent :
    ∃ test : Code, code? (.compare ⟨none, "name"⟩ .contains (.term (.literal (.text "50%"))))
        (some (.name "user")) = .ok (some ([.name "user", .word ".", .name "name"] ++ test)) ∧
      Code.values test = [.text "50%"] ∧ test.verdict? "500" = some true ∧
      ¬Comparison.Finds .contains "50%" "500" := by
  refine ⟨Comparison.test .contains "50%", rfl, rfl, by decide, ?_⟩
  unfold Comparison.Finds
  decide

end SqlComposer
