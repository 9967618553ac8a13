import SqlComposer.Proofs.Mentions.TermSpelling

/-!
# Spelling of conditions

A comparison is written as what it mentions, and laying out a formula only puts words around its
atoms. What is left out of a formula because it is empty mentions nothing.
-/

namespace SqlComposer

variable {raw : Fragment → Prop} {owner : Option String} {code : Code}

/-- Whenever a statement can be written, its code spells what it mentions. -/
def Statement.Spelled (raw : Fragment → Prop) (statement : Statement) : Prop :=
  ∀ code, statement.code = .ok code → Spells raw code statement.mentions

/-! ## Comparisons -/

namespace Comparison

theorem operator_mem (comparison : Comparison) : comparison.operator ∈ Code.vocabulary := by
  have hword : comparison.operator ∈ Code.conditionWords := by
    cases comparison <;> simp [operator, Code.conditionWords]
  simp [Code.vocabulary, hword]

variable {left right : Code} {mentioned others : List Mention} (comparison : Comparison)

/-- Two sides with the operator between them. -/
private theorem spells_sides (hleft : Spells raw left mentioned)
    (hright : Spells raw right others) :
    Spells raw (left ++ [Piece.word " ", .word comparison.operator, .word " "] ++ right)
      (mentioned ++ others) := by
  rw [List.append_assoc]
  refine hleft.append (.word (by simp [Code.vocabulary, Code.punctuation]) ?_) rfl
  exact .word comparison.operator_mem (.word (by simp [Code.vocabulary, Code.punctuation]) hright)

/-- A pattern is made of the term and a constant on each side on which it is open. -/
private theorem spells_pattern (hright : Spells raw right others) :
    Spells raw
      ((if comparison.anyBefore then [Piece.text "%", .word " || "] else []) ++ right ++
        if comparison.anyAfter then [Piece.word " || ", .text "%"] else [])
      ((if comparison.anyBefore then [Mention.constant "%"] else []) ++ others ++
        if comparison.anyAfter then [Mention.constant "%"] else []) := by
  have hbehind : Spells raw
      (right ++ if comparison.anyAfter then [Piece.word " || ", .text "%"] else [])
      (others ++ if comparison.anyAfter then [Mention.constant "%"] else []) := by
    split
    · refine hright.append (.word (by simp [Code.vocabulary, Code.punctuation]) ?_) rfl
      exact .constant (by simp [Code.constants]) rfl .nil
    · rwa [List.append_nil, List.append_nil]
  rw [List.append_assoc, List.append_assoc]
  split
  · refine .constant (by simp [Code.constants]) rfl ?_
    exact .word (by simp [Code.vocabulary, Code.punctuation]) hbehind
  · exact hbehind

variable {comparison}

/-- A comparison with a term spells the mentions of both sides. -/
private theorem spells_term {term : Term} (hleft : Spells raw left mentioned)
    (checked : term.Checked raw)
    (h : comparisonCode left comparison (.term term) (owner.map .name) = .ok code) :
    Spells raw code (comparison.mentions mentioned (.term term) owner) := by
  simp only [comparisonCode] at h
  simp only [Comparison.mentions]
  have hnull (word : String) (known : word ∈ Code.vocabulary) (lead : Code.led [.word word]) :
      Spells raw (left ++ [Piece.word word]) mentioned := by
    have hword := hleft.append (.word known .nil) lead
    rwa [List.append_nil] at hword
  by_cases hequals : comparison = .equals ∧ term.isNull = true
  · have hside : (comparison = .equals ∨ comparison = .not) ∧ term.isNull = true :=
      ⟨.inl hequals.1, hequals.2⟩
    rw [if_pos hequals] at h
    rw [if_pos hside, ← Except.ok.inj h]
    exact hnull " IS NULL" (by simp [Code.vocabulary, Code.conditionWords]) rfl
  rw [if_neg hequals] at h
  by_cases hnot : comparison = .not ∧ term.isNull = true
  · have hside : (comparison = .equals ∨ comparison = .not) ∧ term.isNull = true :=
      ⟨.inr hnot.1, hnot.2⟩
    rw [if_pos hnot] at h
    rw [if_pos hside, ← Except.ok.inj h]
    exact hnull " IS NOT NULL" (by simp [Code.vocabulary, Code.conditionWords]) rfl
  rw [if_neg hnot] at h
  have hside : ¬((comparison = .equals ∨ comparison = .not) ∧ term.isNull = true) := by
    rintro ⟨hcomparison | hcomparison, hterm⟩
    · exact hequals ⟨hcomparison, hterm⟩
    · exact hnot ⟨hcomparison, hterm⟩
  rw [if_neg hside]
  obtain ⟨right, hright, hcode⟩ := bind_eq_ok.1 h
  have hterm := Term.spells checked hright
  by_cases hpattern : comparison.isPattern = true
  · rw [if_pos hpattern, pure_eq_ok] at hcode
    rw [← hcode]
    have hall := spells_sides comparison hleft (spells_pattern comparison hterm)
    simpa only [hpattern, true_and, List.append_assoc] using hall
  · rw [if_neg hpattern, pure_eq_ok] at hcode
    rw [← hcode]
    have hall := spells_sides comparison hleft hterm
    simpa [hpattern] using hall

/-- A comparison is written as what it mentions, given that its left-hand side is. -/
theorem spells {operand : Comparand Statement} (hleft : Spells raw left mentioned)
    (checked : operand.Checked raw (Statement.Spelled raw))
    (h : comparisonCode left comparison (Statement.foldComparand Clauses.code operand)
      (owner.map .name) = .ok code) :
    Spells raw code (comparison.mentions mentioned
      (Statement.foldComparand Clauses.mentions operand) owner) := by
  cases operand with
  | term term => exact spells_term hleft checked h
  | list terms =>
    simp only [Statement.foldComparand, comparisonCode] at h
    split at h
    · cases terms with
      | nil =>
        rw [← Except.ok.inj h]
        have hconstant : Spells raw [.word (if comparison = .in then "1=0" else "1=1")] [] :=
          .word (by split <;> simp [Code.vocabulary, Code.conditionWords]) .nil
        have hdropped := hleft.dropped hconstant
        rwa [List.append_nil] at hdropped
      | cons first rest =>
        obtain ⟨right, hright, hcode⟩ := bind_eq_ok.1 h
        rw [pure_eq_ok] at hcode
        rw [← hcode]
        exact spells_sides comparison hleft (Term.spells_list checked hright).parenthesized
    · exact absurd h (by simp)
  | range lower upper =>
    simp only [Statement.foldComparand, comparisonCode] at h
    split at h
    · obtain ⟨below, hbelow, hrest⟩ := bind_eq_ok.1 h
      obtain ⟨above, habove, hcode⟩ := bind_eq_ok.1 hrest
      rw [pure_eq_ok] at hcode
      rw [← hcode]
      have hlower := Term.spells checked.1 hbelow
      have hupper := Term.spells checked.2 habove
      simp only [Statement.foldComparand, Comparison.mentions, List.append_assoc,
        List.singleton_append]
      refine hleft.glued " BETWEEN " ?_ (by simp [Code.vocabulary, Code.conditionWords]) rfl
      exact hlower.glued " AND " hupper (by simp [Code.vocabulary, Code.conditionWords]) rfl
    · exact absurd h (by simp)
  | query sub =>
    obtain ⟨right, hright, hcode⟩ := bind_eq_ok.1 h
    rw [pure_eq_ok] at hcode
    rw [← hcode]
    exact spells_sides comparison hleft (checked right hright).parenthesized

end Comparison

/-! ## Formulas -/

namespace Formula

/-- The layout of a formula spells what is mentioned; an empty formula mentions nothing. -/
def Spelled (raw : Fragment → Prop) (formula : Formula) (mentions : List Mention) : Prop :=
  match formula.layout with
  | some layout => Spells raw layout.code mentions
  | none => mentions = []

/-- The layouts of the formulas that are not empty spell what is mentioned one after another. -/
def SpelledAll (raw : Fragment → Prop) (formulas : List Formula) (mentions : List Mention) : Prop :=
  ∃ parts : List (Layout × List Mention), layouts formulas = parts.map Prod.fst ∧
    mentions = parts.flatMap Prod.snd ∧ ∀ part ∈ parts, Spells raw part.1.code part.2

variable {formula : Formula} {formulas : List Formula} {mentions others : List Mention}
  {joiner : Joiner}

theorem spelled_atom (h : Spells raw code mentions) : Spelled raw (.atom code) mentions := h

theorem spelledAll_nil : SpelledAll raw [] [] := ⟨[], rfl, rfl, by simp⟩

theorem spelledAll_cons (h : Spelled raw formula mentions)
    (hrest : SpelledAll raw formulas others) :
    SpelledAll raw (formula :: formulas) (mentions ++ others) := by
  obtain ⟨parts, hparts, rfl, hspelled⟩ := hrest
  unfold Spelled at h
  unfold SpelledAll layouts
  split at h
  · rename_i layout hlayout
    refine ⟨(layout, mentions) :: parts, ?_, rfl, List.forall_mem_cons.2 ⟨h, hspelled⟩⟩
    rw [hlayout, hparts]
    rfl
  · rename_i hlayout
    refine ⟨parts, ?_, by rw [h, List.nil_append], hspelled⟩
    rw [hlayout, hparts]
    rfl

private theorem spells_within {layout : Layout} (h : Spells raw layout.code mentions) :
    Spells raw (layout.within joiner) mentions := by
  unfold Layout.within
  split
  · exact h.parenthesized
  · exact h

/-- Joining parts only adds the word between them and parentheses around them. -/
private theorem spelled_joined (h : SpelledAll raw formulas mentions) :
    match Layout.joined joiner (layouts formulas) with
    | some layout => Spells raw layout.code mentions
    | none => mentions = [] := by
  obtain ⟨parts, hparts, rfl, hspelled⟩ := h
  rw [hparts]
  match parts with
  | [] => rfl
  | [part] => simpa [Layout.joined] using hspelled part (List.mem_singleton_self part)
  | first :: second :: rest =>
    have hword : joiner.word ∈ Code.vocabulary := by
      cases joiner <;> simp [Joiner.word, Code.vocabulary, Code.conditionWords]
    have hlead : Code.led [.word joiner.word] := by cases joiner <;> rfl
    have hwithin : SpellsEach raw
        ((first :: second :: rest).map fun part ↦ part.1.within joiner)
        ((first :: second :: rest).flatMap Prod.snd) :=
      ⟨(first :: second :: rest).map fun part ↦ (part.1.within joiner, part.2), by simp,
        by simp [List.flatMap_map], List.forall_mem_map.2 fun part hpart ↦
          spells_within (hspelled part hpart)⟩
    simpa [Layout.joined, Function.comp_def] using hwithin.separated hword hlead

theorem spelled_every (h : SpelledAll raw formulas mentions) :
    Spelled raw (.every formulas) mentions := spelled_joined h

theorem spelled_any (h : SpelledAll raw formulas mentions) :
    Spelled raw (.any formulas) mentions := spelled_joined h

theorem spelled_not (h : Spelled raw formula mentions) : Spelled raw (.not formula) mentions := by
  unfold Spelled layout
  unfold Spelled at h
  cases hlayout : formula.layout with
  | none => simpa [hlayout] using h
  | some layout =>
    rw [hlayout] at h
    exact .word (by simp [Code.vocabulary, Code.conditionWords]) h.parenthesized

/-- A clause that is written only with a formula spells what the formula mentions. -/
theorem Spelled.clause (h : Spelled raw formula mentions) {clause : Code → Code}
    (hclause : ∀ code, Spells raw code mentions → Follows raw (clause code) mentions) :
    Follows raw
      (match formula.code? with
        | some code => clause code
        | none => [])
      mentions := by
  unfold Spelled at h
  unfold code?
  cases hlayout : formula.layout with
  | none =>
    rw [hlayout] at h
    rw [h]
    exact .nil
  | some layout =>
    rw [hlayout] at h
    exact hclause layout.code h

/-- The code of a formula, empty if there is none, spells what is mentioned. -/
theorem Spelled.spells_code (h : Spelled raw formula mentions) :
    match formula.code? with
    | some code => Spells raw code mentions
    | none => mentions = [] := by
  unfold Spelled at h
  unfold code?
  cases hlayout : formula.layout <;> simpa [hlayout] using h

theorem Spelled.spells_conjunct (h : Spelled raw formula mentions) :
    match formula.conjunct? with
    | some code => Spells raw code mentions
    | none => mentions = [] := by
  unfold Spelled at h
  unfold conjunct?
  cases hlayout : formula.layout with
  | none => simpa [hlayout] using h
  | some layout =>
    rw [hlayout] at h
    exact spells_within h

end Formula

/-! ## Conditions -/

open Statement (foldComparand foldCondition foldConditions foldGroups foldCall foldFilter)

/-- The argument of an aggregate spells its column. -/
private theorem AggregateCall.spells_argument (distinct : Bool) (argument : Option ColumnRef)
    (owner : Option String) :
    Spells raw
      ((if distinct then [Piece.word "DISTINCT "] else []) ++
        match argument with
        | some column => column.code (owner.map .name)
        | none => [.word "*"])
      (argument.toList.flatMap (ColumnRef.mentions owner)) := by
  have hcolumn : Spells raw _ _ := ColumnRef.spells_argument argument owner
    (.word (by simp [Code.vocabulary, Code.punctuation]) .nil : Spells raw [.word "*"] [])
  cases distinct with
  | false => exact hcolumn
  | true => exact .word (by simp [Code.vocabulary, Code.selectionWords]) hcolumn

-- The lemmas of this block walk through conditions as writing and folding do.
mutual

/-- The formula of a checked condition spells its mentions. -/
private theorem spelledCondition (condition : Condition Statement)
    (checked : condition.Checked raw (Statement.Spelled raw)) {formula : Formula}
    (h : (foldCondition Clauses.code condition).formula (owner.map .name) = .ok formula) :
    formula.Spelled raw ((foldCondition Clauses.mentions condition).mentions owner) := by
  match condition, checked with
  | .compare column comparison operand, checked =>
    obtain ⟨code, hcode, hformula⟩ := bind_eq_ok.1 h
    rw [pure_eq_ok] at hformula
    rw [← hformula]
    exact Comparison.spells (column.spells owner) checked hcode
  | .every conditions, checked =>
    obtain ⟨formulas, hformulas, hformula⟩ := bind_eq_ok.1 h
    rw [pure_eq_ok] at hformula
    rw [← hformula]
    exact Formula.spelled_every (spelledConditions conditions checked hformulas)
  | .any conditions, checked =>
    obtain ⟨formulas, hformulas, hformula⟩ := bind_eq_ok.1 h
    rw [pure_eq_ok] at hformula
    rw [← hformula]
    exact Formula.spelled_any (spelledConditions conditions checked hformulas)
  | .not condition, checked =>
    obtain ⟨inner, hinner, hformula⟩ := bind_eq_ok.1 h
    rw [pure_eq_ok] at hformula
    rw [← hformula]
    exact Formula.spelled_not (spelledCondition condition checked hinner)
  | .hasRow sub, checked =>
    obtain ⟨code, hcode, hformula⟩ := bind_eq_ok.1 h
    rw [pure_eq_ok] at hformula
    rw [← hformula]
    exact Formula.spelled_atom (.word (by simp [Code.vocabulary, Code.conditionWords])
      (checked code hcode).parenthesized)
  | .raw fragment, checked =>
    obtain ⟨code, hcode, hformula⟩ := bind_eq_ok.1 h
    rw [pure_eq_ok] at hformula
    rw [← hformula]
    exact Formula.spelled_atom (Fragment.spells checked hcode)
  | .aggregate call comparison operand, checked =>
    obtain ⟨left, hleft, hrest⟩ := bind_eq_ok.1 h
    obtain ⟨code, hcode, hformula⟩ := bind_eq_ok.1 hrest
    rw [pure_eq_ok] at hformula
    rw [← hformula]
    exact Comparison.spells (spelledCall call checked.1 hleft) checked.2 hcode

private theorem spelledConditions (conditions : List (Condition Statement))
    (checked : Condition.CheckedAll raw (Statement.Spelled raw) conditions)
    {formulas : List Formula}
    (h : Condition.formulas (owner.map .name) (foldConditions Clauses.code conditions) =
      .ok formulas) :
    Formula.SpelledAll raw formulas
      (Condition.mentionsOf owner (foldConditions Clauses.mentions conditions)) := by
  match conditions, checked with
  | [], _ =>
    rw [← Except.ok.inj h]
    exact Formula.spelledAll_nil
  | condition :: rest, checked =>
    obtain ⟨first, hfirst, hrest⟩ := bind_eq_ok.1 h
    obtain ⟨others, hothers, hformulas⟩ := bind_eq_ok.1 hrest
    rw [pure_eq_ok] at hformulas
    rw [← hformulas]
    exact Formula.spelledAll_cons (spelledCondition condition checked.1 hfirst)
      (spelledConditions rest checked.2 hothers)

private theorem spelledGroups (groups : List (List (Condition Statement)))
    (checked : Condition.CheckedIn raw (Statement.Spelled raw) groups) {formulas : List Formula}
    (h : Condition.groupFormulas (owner.map .name) (foldGroups Clauses.code groups) =
      .ok formulas) :
    Formula.SpelledAll raw formulas
      (Condition.mentionsIn owner (foldGroups Clauses.mentions groups)) := by
  match groups, checked with
  | [], _ =>
    rw [← Except.ok.inj h]
    exact Formula.spelledAll_nil
  | group :: rest, checked =>
    obtain ⟨first, hfirst, hrest⟩ := bind_eq_ok.1 h
    obtain ⟨others, hothers, hformulas⟩ := bind_eq_ok.1 hrest
    rw [pure_eq_ok] at hformulas
    rw [← hformulas]
    exact Formula.spelledAll_cons
      (Formula.spelled_every (spelledConditions group checked.1 hfirst))
      (spelledGroups rest checked.2 hothers)

/-- An aggregate call spells its mentions. -/
private theorem spelledCall (call : AggregateCall Statement)
    (checked : call.Checked raw (Statement.Spelled raw)) {code : Code}
    (h : Condition.callCode (owner.map .name) (foldCall Clauses.code call) = .ok code) :
    Spells raw code ((foldCall Clauses.mentions call).mentions owner) := by
  match call, checked with
  | ⟨function, argument, distinct, order, withinGroup, ⟨groups⟩⟩, checked =>
    have hargument : Spells raw _ _ := AggregateCall.spells_argument distinct argument owner
    have hfilter {formulas : List Formula} (hformulas : Condition.groupFormulas (owner.map .name)
        (foldGroups Clauses.code groups) = .ok formulas) : Follows raw
          (match (Formula.any formulas).code? with
            | some filter => .word " FILTER " :: Code.parenthesized (.word "WHERE " :: filter)
            | none => [])
          (Condition.mentionsIn owner (foldGroups Clauses.mentions groups)) := by
      refine (Formula.spelled_any (spelledGroups groups checked.2.2 hformulas)).clause ?_
      intro filter hspelled
      refine .word (by simp [Code.vocabulary, Code.conditionWords]) rfl (Spells.parenthesized ?_)
      exact .word (by simp [Code.vocabulary, Code.conditionWords]) hspelled
    cases order with
    | nil =>
      simp only [foldCall, foldFilter, Condition.callCode, List.isEmpty_nil, ↓reduceIte, pure_bind,
        bind_eq_ok, pure_eq_ok] at h
      obtain ⟨formulas, hformulas, rfl⟩ := h
      have hcall := Spells.function checked.1
        (hargument.parenthesized.followed (hfilter hformulas))
      simp only [foldCall, foldFilter, AggregateCall.mentions, List.flatMap_nil, List.append_nil,
        List.cons_append] at hcall ⊢
      exact hcall
    | cons item rest =>
      simp only [foldCall, foldFilter, Condition.callCode, List.isEmpty_cons, Bool.false_eq_true,
        ↓reduceIte, pure_bind, bind_eq_ok, pure_eq_ok] at h
      obtain ⟨items, hitems, formulas, hformulas, rfl⟩ := h
      have horder : Spells raw (.word "ORDER BY " :: items)
          ((item :: rest).flatMap (OrderItem.mentions owner)) :=
        .word (by simp [Code.vocabulary, Code.orderWords])
          (OrderItem.spells_list checked.2.1 hitems)
      cases withinGroup with
      | false =>
        have hinner := (hargument.glued " " horder (by simp [Code.vocabulary, Code.punctuation])
          rfl).parenthesized
        have hcall := Spells.function checked.1 (hinner.followed (hfilter hformulas))
        simp only [foldCall, foldFilter, AggregateCall.mentions, Bool.false_eq_true, ↓reduceIte,
          List.append_nil, List.cons_append] at hcall ⊢
        exact hcall
      | true =>
        have houter := hargument.parenthesized.glued " WITHIN GROUP " horder.parenthesized
          (by simp [Code.vocabulary, Code.conditionWords]) rfl
        have hcall := Spells.function checked.1 (houter.followed (hfilter hformulas))
        simp only [foldCall, foldFilter, AggregateCall.mentions, ↓reduceIte, List.append_nil,
          List.cons_append] at hcall ⊢
        exact hcall

end

/-- A checked condition spells its mentions under any owner. -/
theorem Condition.spelled {condition : Condition Statement} {formula : Formula}
    (checked : condition.Checked raw (Statement.Spelled raw))
    (h : (foldCondition Clauses.code condition).formula (owner.map .name) = .ok formula) :
    formula.Spelled raw ((foldCondition Clauses.mentions condition).mentions owner) :=
  spelledCondition condition checked h

/-- The groups of a filter are formulas like any other. -/
theorem formulas_groups (qualifier : Qualifier) (groups : List (List (Condition Written))) :
    Condition.formulas qualifier (groups.map .every) =
      Condition.groupFormulas qualifier groups := by
  induction groups with
  | nil => rfl
  | cons group rest ih =>
    rw [List.map_cons, Condition.formulas, Condition.groupFormulas, Condition.formula, ih]
    simp only [bind_assoc, pure_bind]

/-- A checked filter spells its mentions under any owner. -/
theorem Filter.spelled {filter : Filter Statement} {formula : Formula}
    (checked : filter.Checked raw (Statement.Spelled raw))
    (h : (foldFilter Clauses.code filter).formula (owner.map .name) = .ok formula) :
    formula.Spelled raw ((foldFilter Clauses.mentions filter).mentions owner) := by
  obtain ⟨groups⟩ := filter
  obtain ⟨formulas, hformulas, hformula⟩ := bind_eq_ok.1 h
  rw [pure_eq_ok] at hformula
  rw [← hformula]
  rw [foldFilter, formulas_groups] at hformulas
  exact Formula.spelled_any (spelledGroups groups checked hformulas)

end SqlComposer
