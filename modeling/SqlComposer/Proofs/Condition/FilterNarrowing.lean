import SqlComposer.Proofs.Condition.AtomTexts
import SqlComposer.Proofs.Statement.DeletionSources

/-!
# Narrower restrictions

One more condition that is demanded of rows keeps out rows and lets none in. What restricts the rows
of a query comes to the conjunction of what restricted them before and the condition, with the whole
text read as SQL does and with any texts in place of the raw fragments. Fragments are written
verbatim, so this needs that those outside parentheses have no OR outside parentheses of their own.
-/

namespace SqlComposer

variable {A : Type}

/-! ## Chains of conjuncts -/

theorem flatMap_intercalate {B : Type} (f : A → List B) (separator : List A)
    (parts : List (List A)) :
    (separator.intercalate parts).flatMap f =
      (separator.flatMap f).intercalate (parts.map (List.flatMap f)) := by
  induction parts with
  | nil => rfl
  | cons first rest ih =>
    cases rest with
    | nil => simp [List.intercalate_singleton]
    | cons second others =>
      rw [List.intercalate_cons_cons, List.flatMap_append, List.flatMap_append, ih, List.map_cons,
        List.map_cons, List.map_cons, List.intercalate_cons_cons]

theorem map_intercalate {B : Type} (f : A → B) (separator : List A) (parts : List (List A)) :
    (separator.intercalate parts).map f =
      (separator.map f).intercalate (parts.map (List.map f)) := by
  have hflat : List.flatMap (fun a ↦ [f a]) = List.map f := funext fun _ ↦ List.map_eq_flatMap.symm
  have hparts := flatMap_intercalate (fun a ↦ [f a]) separator parts
  rwa [hflat] at hparts

theorem intercalate_append (separator : List A) {parts others : List (List A)}
    (nonempty : parts ≠ []) (more : others ≠ []) :
    separator.intercalate (parts ++ others) =
      separator.intercalate parts ++ (separator ++ separator.intercalate others) := by
  induction parts with
  | nil => exact absurd rfl nonempty
  | cons first parts ih =>
    cases parts with
    | nil =>
      rw [List.intercalate_singleton, List.singleton_append, List.intercalate_cons_of_ne_nil more,
        List.append_assoc]
    | cons second parts =>
      have hrest := List.append_ne_nil_of_left_ne_nil (List.cons_ne_nil second parts) others
      rw [List.cons_append, List.intercalate_cons_of_ne_nil hrest, ih (List.cons_ne_nil _ _),
        List.intercalate_cons_cons, List.append_assoc _ (separator.intercalate _)]

namespace Arrangement

def chain (parts : List (Arrangement A)) : List (Symbol A) :=
  [Joiner.and.symbol].intercalate (parts.map (within .and))

/-- The symbols of parts that all have to hold. A single part is kept as it is, unless each part is
written to be joined. -/
def restriction (joins : Bool) (parts : List (Arrangement A)) : List (Symbol A) :=
  if joins then chain parts else (joined .and parts).elim [] symbols

theorem joined_toList (joiner : Joiner) (part : Option (Arrangement A)) :
    joined joiner part.toList = part := by
  cases part <;> rfl

theorem chain_cons (first second : Arrangement A) (rest : List (Arrangement A)) :
    chain (first :: second :: rest) = first.within .and ++ .and :: chain (second :: rest) := by
  rw [chain, List.map_cons, List.map_cons, List.intercalate_cons_cons, List.append_assoc]
  rfl

theorem restriction_of_two (joins : Bool) (first second : Arrangement A)
    (rest : List (Arrangement A)) :
    restriction joins (first :: second :: rest) = chain (first :: second :: rest) := by
  cases joins <;> rfl

theorem restriction_eq_chain {parts : List (Arrangement A)} (joins : Bool)
    (several : 2 ≤ parts.length) : restriction joins parts = chain parts := by
  match parts, several with
  | _ :: _ :: _, _ => exact restriction_of_two joins _ _ _

theorem chain_append {parts others : List (Arrangement A)} (nonempty : parts ≠ [])
    (more : others ≠ []) : chain (parts ++ others) = chain parts ++ .and :: chain others := by
  have hsome : parts.map (within .and) ≠ [] := fun h ↦ nonempty (List.map_eq_nil_iff.1 h)
  have hmore : others.map (within .and) ≠ [] := fun h ↦ more (List.map_eq_nil_iff.1 h)
  rw [chain, List.map_append]
  exact intercalate_append _ hsome hmore

/-- A chain may be joined as a whole. -/
theorem chain_joined (parts others : List (Arrangement A)) :
    chain ((joined .and parts).toList ++ others) = chain (parts ++ others) := by
  match parts with
  | [] => rfl
  | [_] => rfl
  | first :: second :: rest =>
    have hwithin : within .and ⟨chain (first :: second :: rest), .and⟩ =
        chain (first :: second :: rest) := rfl
    cases others with
    | nil =>
      rw [List.append_nil, List.append_nil]
      exact List.intercalate_singleton
    | cons next others =>
      rw [chain_append (List.cons_ne_nil _ _) (List.cons_ne_nil _ _)]
      exact chain_cons ⟨chain (first :: second :: rest), .and⟩ next others

theorem joined_map {B : Type} (f : A → B) (joiner : Joiner) (parts : List (Arrangement A)) :
    (joined joiner parts).map (Arrangement.map f) =
      joined joiner (parts.map (Arrangement.map f)) := by
  have hwithin (part : Arrangement A) :
      (part.map f).within joiner = (part.within joiner).map (Symbol.map f) := by
    unfold within Arrangement.map
    split <;> simp [enclosed, Symbol.map]
  obtain _ | ⟨first, _ | ⟨second, rest⟩⟩ := parts
  · rfl
  · rfl
  · have hsymbols : ([joiner.symbol].intercalate ((first :: second :: rest).map
        (within joiner))).map (Symbol.map f) = [joiner.symbol].intercalate
          (((first :: second :: rest).map (Arrangement.map f)).map (within joiner)) := by
      have hsymbol : [joiner.symbol].map (Symbol.map f) = [joiner.symbol] := by cases joiner <;> rfl
      rw [map_intercalate, hsymbol, List.map_map, List.map_map]
      exact congrArg _ (List.map_congr_left fun part _ ↦ (hwithin part).symm)
    exact congrArg (fun symbols ↦ some (Arrangement.mk symbols joiner)) hsymbols

/-! ### Where parts may stand -/

theorem forms_parts_chain {parts : List (Arrangement A)} (formed : ∀ part ∈ parts, part.Formed)
    (nonempty : parts ≠ []) : Forms .and (chain parts) := by
  obtain ⟨first, rest, rfl⟩ := List.exists_cons_of_ne_nil nonempty
  obtain ⟨hfirst, hrest⟩ := List.forall_mem_cons.1 formed
  exact forms_chain (by decide) hfirst hrest

theorem forms_restriction {parts : List (Arrangement A)} (formed : ∀ part ∈ parts, part.Formed)
    (nonempty : parts ≠ []) (joins : Bool) : Forms .or (restriction joins parts) := by
  have hchain := (forms_parts_chain formed nonempty).weaken
  match parts, joins with
  | [], _ => exact absurd rfl nonempty
  | [part], false => exact Forms.weaken (formed part List.mem_cons_self)
  | [_], true => exact hchain
  | first :: second :: rest, _ => rwa [restriction_of_two]

/-! ### What parts come to -/

section Worth

variable {reading : A → List (Symbol Truth)} (readable : ∀ a, Forms .or (reading a))

theorem refined_enclosed (symbols : List (Symbol A)) :
    Symbol.refined reading (enclosed symbols) =
      enclosed (Symbol.refined reading symbols) := by
  rw [enclosed, List.cons_append, Symbol.refined_cons, Symbol.refined_append]
  rfl

/-- The refined chain is its first part, AND, and the refined rest. -/
theorem refined_chain_cons (first second : Arrangement A) (rest : List (Arrangement A)) :
    Symbol.refined reading (chain (first :: second :: rest)) =
      Symbol.refined reading (first.within .and) ++
        .and :: Symbol.refined reading (chain (second :: rest)) := by
  rw [chain_cons, Symbol.refined_append, Symbol.refined_cons]
  rfl

variable (reading) in
/-- What a part comes to with texts read in place of atoms. -/
def worth (part : Arrangement A) : Truth :=
  (parse (Symbol.refined reading part.symbols)).getD .no

variable (reading) in
/-- What several parts come to together. -/
def worths (parts : List (Arrangement A)) : Truth :=
  (parts.map (worth reading)).foldr Truth.and .yes

variable {part : Arrangement A}

include readable

theorem Formed.reads (h : part.Formed) :
    ReadsAs (part.worth reading) (Symbol.refined reading part.symbols) .or := by
  have hforms : Forms .or (Symbol.refined reading part.symbols) := Forms.refine_all h readable
  obtain ⟨value, hvalue⟩ := Forms.exists_parse_iff.2 hforms
  refine hforms.readsAs (by decide) ?_
  rw [worth, hvalue]
  rfl

/-- A part keeps its value between conjuncts if it may stand there. -/
theorem Formed.reads_within (h : part.Formed)
    (allowed : Forms .and (Symbol.refined reading (part.within .and))) :
    ReadsAs (part.worth reading) (Symbol.refined reading (part.within .and)) .and := by
  have hreads := h.reads readable
  unfold Arrangement.within at allowed ⊢
  split
  · rw [refined_enclosed]
    exact hreads.enclosed.conjuncts
  · rename_i hwhole
    rw [if_neg hwhole] at allowed
    exact allowed.readsAs (by decide) hreads.parse_eq

/-- The parts of a chain may stand between conjuncts if the chain may. -/
theorem forms_of_chain {parts : List (Arrangement A)} (formed : ∀ part ∈ parts, part.Formed)
    (h : Forms .and (Symbol.refined reading (chain parts))) :
    ∀ part ∈ parts, Forms .and (Symbol.refined reading (part.within .and)) := by
  induction parts with
  | nil => exact fun _ hpart ↦ absurd hpart List.not_mem_nil
  | cons first rest ih =>
    obtain ⟨hfirst, hrest⟩ := List.forall_mem_cons.1 formed
    cases rest with
    | nil =>
      rw [chain, List.map_cons, List.map_nil, List.intercalate_singleton] at h
      exact List.forall_mem_singleton.2 h
    | cons second others =>
      rw [refined_chain_cons] at h
      have hwhole : Forms .and (first.within .and) := hfirst.within (by decide)
      have hown := hwhole.refine_all readable
      obtain ⟨hwithin, hothers⟩ := hown.of_joined h
      exact List.forall_mem_cons.2 ⟨hwithin, ih hrest hothers⟩

/-- A refined chain of parts reads as the worths of the parts under AND. -/
theorem reads_parts_chain {parts : List (Arrangement A)} (formed : ∀ part ∈ parts, part.Formed)
    (nonempty : parts ≠ [])
    (allowed : ∀ part ∈ parts, Forms .and (Symbol.refined reading (part.within .and))) :
    ReadsAs (worths reading parts) (Symbol.refined reading (chain parts)) .and := by
  induction parts with
  | nil => exact absurd rfl nonempty
  | cons first rest ih =>
    obtain ⟨hfirst, hrest⟩ := List.forall_mem_cons.1 formed
    obtain ⟨hwithin, hothers⟩ := List.forall_mem_cons.1 allowed
    have hreads := hfirst.reads_within readable hwithin
    cases rest with
    | nil =>
      rw [chain, List.map_cons, List.map_nil, List.intercalate_singleton, worths, List.map_cons,
        List.map_nil, List.foldr_cons, List.foldr_nil, Truth.and_yes]
      exact hreads
    | cons second others =>
      rw [refined_chain_cons]
      exact hreads.and (ih hrest (List.cons_ne_nil _ _) hothers)

/-- Parts that all have to hold come to the conjunction of what they come to. -/
theorem parse_restriction {parts : List (Arrangement A)} (formed : ∀ part ∈ parts, part.Formed)
    (nonempty : parts ≠ []) (joins : Bool)
    (allowed : parts.length = 1 ∨
      ∀ part ∈ parts, Forms .and (Symbol.refined reading (part.within .and))) :
    parse (Symbol.refined reading (restriction joins parts)) = some (worths reading parts) := by
  match parts, joins with
  | [], _ => exact absurd rfl nonempty
  | [part], joins =>
    have hreads := (formed part List.mem_cons_self).reads readable
    have hworths : worths reading [part] = part.worth reading := Truth.and_yes _
    rw [hworths]
    cases joins with
    | false => exact hreads.parse_eq
    | true =>
      have hchain : restriction true [part] = part.within .and :=
        @List.intercalate_singleton _ [Joiner.and.symbol] _
      rw [hchain, within]
      split
      · rw [refined_enclosed]
        exact hreads.enclosed.parse_eq
      · exact hreads.parse_eq
  | first :: second :: rest, _ =>
    have hallowed := allowed.resolve_left (by simp)
    rw [restriction_of_two]
    exact (reads_parts_chain readable formed nonempty hallowed).parse_eq

end Worth

/-! ## Restrictions read as SQL does -/

/-- What a text comes to that restricts rows: every row passes where nothing is demanded. -/
def passes? (symbols : List (Symbol Truth)) : Option Truth :=
  if symbols.isEmpty then some .yes else parse symbols

theorem passes?_of_forms {symbols : List (Symbol Truth)} (h : Forms .or symbols) :
    passes? symbols = parse symbols := by
  cases symbols with
  | nil => cases h
  | cons => rfl

section Narrows

variable {reading : A → List (Symbol Truth)} (readable : ∀ a, Forms .or (reading a))

include readable

/-- A refined restriction has the worth of its parts together. -/
theorem passes?_restriction {parts : List (Arrangement A)} (formed : ∀ part ∈ parts, part.Formed)
    (joins : Bool)
    (allowed : parts.length ≤ 1 ∨
      ∀ part ∈ parts, Forms .and (Symbol.refined reading (part.within .and))) :
    passes? (Symbol.refined reading (restriction joins parts)) = some (worths reading parts) := by
  by_cases hnone : parts = []
  · subst hnone
    cases joins <;> rfl
  · have hforms := (forms_restriction formed hnone joins).refine_all readable
    have hlength : parts.length ≤ 1 → parts.length = 1 := fun hshort ↦
      le_antisymm hshort (List.length_pos_iff.2 hnone)
    rw [passes?_of_forms hforms]
    exact parse_restriction readable formed hnone joins (allowed.imp_left hlength)

omit readable in
theorem worths_middle (parts others : List (Arrangement A)) (part : Arrangement A) :
    worths reading (parts ++ part :: others) =
      (worths reading (parts ++ others)).and (part.worth reading) := by
  have hcons (first : Arrangement A) (rest : List (Arrangement A)) :
      worths reading (first :: rest) = (first.worth reading).and (worths reading rest) := rfl
  induction parts with
  | nil => exact (hcons part others).trans (Truth.and_comm _ _)
  | cons first rest ih =>
    rw [List.cons_append, List.cons_append, hcons, hcons, ih, Truth.and_assoc]

/-- One more part narrows what several parts restrict. -/
theorem narrows {parts others : List (Arrangement A)} {added : Option (Arrangement A)}
    (formed : ∀ part ∈ parts ++ added.toList ++ others, part.Formed) (joins : Bool)
    (exposed : parts ++ others ≠ [] → added ≠ none → ∀ a,
      .atom a ∈ Symbol.outside 0 (restriction joins (parts ++ added.toList ++ others)) →
        Forms .and (reading a)) :
    ∃ before demanded,
      passes? (Symbol.refined reading (restriction joins (parts ++ others))) = some before ∧
      passes? (Symbol.refined reading (restriction false added.toList)) = some demanded ∧
      passes? (Symbol.refined reading (restriction joins (parts ++ added.toList ++ others))) =
        some (before.and demanded) := by
  cases added with
  | none =>
    rw [Option.toList_none, List.append_nil] at formed ⊢
    have hbefore : ∃ before,
        passes? (Symbol.refined reading (restriction joins (parts ++ others))) = some before := by
      by_cases hnone : parts ++ others = []
      · rw [hnone]
        exact ⟨.yes, by cases joins <;> rfl⟩
      · have hforms := (forms_restriction formed hnone joins).refine_all readable
        rw [passes?_of_forms hforms]
        exact Forms.exists_parse_iff.2 hforms
    obtain ⟨before, hbefore⟩ := hbefore
    exact ⟨before, .yes, hbefore, rfl, by rw [Truth.and_yes, hbefore]⟩
  | some part =>
    rw [Option.toList_some, List.append_assoc, List.singleton_append] at formed exposed ⊢
    have hold : ∀ old ∈ parts ++ others, old.Formed := fun old hmem ↦
      formed old (by simp only [List.mem_append, List.mem_cons] at hmem ⊢; tauto)
    have hpart : ∀ new ∈ [part], new.Formed := List.forall_mem_singleton.2 (formed part (by simp))
    -- A part that stands alone is kept as it is. Of several, each stands between conjuncts.
    have hallowed : parts ++ others = [] ∨ ∀ new ∈ parts ++ part :: others,
        Forms .and (Symbol.refined reading (new.within .and)) := by
      refine or_iff_not_imp_left.2 fun hsome ↦ ?_
      have hchain : restriction joins (parts ++ part :: others) = chain (parts ++ part :: others) :=
        restriction_eq_chain joins (by
          have := List.length_pos_iff.2 hsome
          simp only [List.length_append, List.length_cons] at this ⊢
          omega)
      have hquiet := exposed hsome (Option.some_ne_none part)
      rw [hchain] at hquiet
      have hforms := (forms_parts_chain formed (by simp)).refine (fun a _ ↦ readable a) hquiet
      exact forms_of_chain readable formed hforms
    have hbefore := passes?_restriction readable hold joins
      (hallowed.imp (fun hnone ↦ by simp [hnone]) fun hall old hmem ↦
        hall old (by simp only [List.mem_append, List.mem_cons] at hmem ⊢; tauto))
    have hafter := passes?_restriction readable formed joins
      (hallowed.imp_left fun hnone ↦ by
        have := congrArg List.length hnone
        simp only [List.length_append, List.length_cons, List.length_nil] at this ⊢
        omega)
    have hdemanded := passes?_restriction readable hpart false (.inl le_rfl)
    rw [worths_middle] at hafter
    exact ⟨_, _, hbefore, hdemanded.trans (congrArg some (Truth.and_yes _)), hafter⟩

end Narrows

end Arrangement

/-! ## Restrictions of queries -/

namespace Condition

variable {Sub : Type}

mutual

/-- The symbols of a condition may stand where its arrangement says. -/
theorem formed_arrangement (condition : Condition Sub) {part : Arrangement (Condition Sub)}
    (h : condition.arrangement = some part) : part.Formed := by
  cases condition with
  | every conditions | any conditions =>
    exact Arrangement.formed_of_joined (by decide) (formed_arrangements conditions) h
  | not condition =>
    obtain ⟨inner, hinner, rfl⟩ := Option.map_eq_some_iff.1 h
    exact (formed_arrangement condition hinner).negated
  | _ =>
    cases h
    exact Forms.atom _

theorem formed_arrangements (conditions : List (Condition Sub)) :
    ∀ part ∈ arrangements conditions, part.Formed := by
  match conditions with
  | [] => exact fun _ hpart ↦ absurd hpart List.not_mem_nil
  | condition :: rest =>
    intro part hpart
    rcases List.mem_append.1 hpart with hfirst | hrest
    · exact formed_arrangement condition (Option.mem_toList.1 hfirst)
    · exact formed_arrangements rest part hrest

end

theorem arrangements_append (conditions others : List (Condition Sub)) :
    arrangements (conditions ++ others) = arrangements conditions ++ arrangements others := by
  induction conditions with
  | nil => rfl
  | cons condition rest ih =>
    rw [List.cons_append, arrangements, ih, arrangements, List.append_assoc]

end Condition

namespace Placed

def arrangements (qualifier : Qualifier) (conditions : List (Condition Written)) :
    List (Arrangement Placed) :=
  (Condition.arrangements conditions).map (Arrangement.map fun atom ↦ ⟨atom, qualifier⟩)

def symbols (placed : Placed) : List (Symbol Placed) :=
  Arrangement.restriction false placed.arrangement.toList

/-- The code of symbols, if there are any. -/
def text? (symbols : List (Symbol Placed)) : Option Code :=
  if symbols.isEmpty then none else some (symbols.flatMap (Symbol.code Placed.code))

variable {placed : Placed} {qualifier : Qualifier}

theorem formed {part : Arrangement Placed} (h : placed.arrangement = some part) : part.Formed := by
  obtain ⟨inner, hinner, rfl⟩ := Option.map_eq_some_iff.1 h
  exact (placed.condition.formed_arrangement hinner).map _

theorem formed_arrangements (conditions : List (Condition Written)) :
    ∀ part ∈ arrangements qualifier conditions, part.Formed :=
  List.forall_mem_map.2 fun part hpart ↦
    (Condition.formed_arrangements conditions part hpart).map _

theorem arrangements_concat (conditions : List (Condition Written))
    (condition : Condition Written) :
    arrangements qualifier (conditions ++ [condition]) =
      arrangements qualifier conditions ++ (arrangement ⟨condition, qualifier⟩).toList := by
  rw [arrangements, Condition.arrangements_append, List.map_append, arrangements, arrangement]
  cases hcondition : condition.arrangement <;> simp [Condition.arrangements, hcondition]

/-- A filter of one group is arranged as its conditions joined by AND. -/
theorem arrangement_group (group : List (Condition Written)) :
    arrangement ⟨(⟨[group]⟩ : Filter Written).condition, qualifier⟩ =
      Arrangement.joined .and (arrangements qualifier group) := by
  have hgroup : (⟨[group]⟩ : Filter Written).condition.arrangement =
      Arrangement.joined .and (Condition.arrangements group) := by
    have hfilter : (⟨[group]⟩ : Filter Written).condition.arrangement =
        Arrangement.joined .or
          ((Arrangement.joined .and (Condition.arrangements group)).toList ++ []) := rfl
    rw [hfilter, List.append_nil, Arrangement.joined_toList]
  rw [arrangement, hgroup, Arrangement.joined_map]
  rfl

theorem text?_of_forms {joiner : Joiner} {symbols : List (Symbol Placed)}
    (h : Forms joiner symbols) :
    text? symbols = some (symbols.flatMap (Symbol.code Placed.code)) := by
  cases symbols with
  | nil => cases h
  | cons => rfl

theorem code?_eq_text? {written : Option Code}
    (h : placed.condition.code? placed.qualifier = .ok written) :
    written = text? placed.symbols := by
  simp only [Condition.code?, bind_eq_ok, pure_eq_ok] at h
  obtain ⟨formula, hformula, rfl⟩ := h
  rw [Formula.code?, layout_formula hformula, symbols]
  cases harranged : placed.arrangement with
  | none => rfl
  | some part => exact (text?_of_forms (formed harranged)).symm

end Placed

namespace Clauses

/-- The joins whose conditions restrict the rows. -/
def restrictingJoins (clauses : Clauses Written) : List (Join Written) :=
  match clauses.verb with
  | .delete => clauses.joins
  | _ => []

/-- The joined conditions in what restricts the rows. -/
def joinedArrangements (clauses : Clauses Written) : List (Arrangement Placed) :=
  clauses.restrictingJoins.filterMap fun join ↦ join.placed.arrangement

/-- The symbols of what restricts the rows. -/
def restrictionSymbols (clauses : Clauses Written) : List (Symbol Placed) :=
  Arrangement.restriction (!clauses.restrictingJoins.isEmpty)
    (clauses.placedFilter.arrangement.toList ++ clauses.joinedArrangements)

/-- What restricts the rows is written symbol by symbol. -/
theorem restriction_eq_text? {formula : Formula} {own : Option (Arrangement Placed)}
    {others : List (Arrangement Placed)} (joins : Bool)
    (layout : formula.layout = own.map (Arrangement.layout Placed.code))
    (formed : ∀ part ∈ own.toList ++ others, part.Formed) (alone : joins = false → others = []) :
    Code.restriction (restricting joins formula ++
        (others.map (Arrangement.layout Placed.code)).map (Layout.within .and)) =
      Code.restriction
        (Placed.text? (Arrangement.restriction joins (own.toList ++ others))).toList := by
  cases joins with
  | false =>
    rw [alone rfl] at formed ⊢
    rw [restricting, if_neg Bool.false_ne_true, Formula.code?, layout]
    cases own with
    | none => rfl
    | some part =>
      have htext := Placed.text?_of_forms (formed part (by simp))
      rw [Arrangement.restriction, if_neg Bool.false_ne_true, List.append_nil,
        Arrangement.joined_toList, Option.elim_some, htext]
      rfl
  | true =>
    have hcodes : restricting true formula =
        (own.toList.map (Arrangement.layout Placed.code)).map (Layout.within .and) := by
      rw [restricting, if_pos rfl, Formula.conjunct?, layout]
      cases own <;> rfl
    rw [hcodes, ← List.map_append, ← List.map_append]
    by_cases hnone : own.toList ++ others = []
    · rw [hnone]
      rfl
    · have hforms := Arrangement.forms_restriction formed hnone true
      have hcode := Arrangement.separated_within Placed.code .and (own.toList ++ others)
      rw [Placed.text?_of_forms hforms, Option.toList_some, Code.restriction_single,
        Code.restriction, if_neg (by simpa using hnone)]
      exact congrArg _ hcode

variable {clauses : Clauses Written} {table : Table} {code : Code}

theorem formed_joinedArrangements (clauses : Clauses Written) :
    ∀ part ∈ clauses.joinedArrangements, part.Formed :=
  List.forall_mem_filterMap.2 fun _ _ _ hpart ↦ Placed.formed hpart

/-- The conditions of joins are written as they are arranged. -/
theorem conjuncts_eq_map {joins : List (Join Written)} {conditions : List (Option Code)}
    (h : joins.mapM (fun join ↦ join.condition.conjunct? join.qualifier) = .ok conditions) :
    conditions.filterMap id = ((joins.filterMap fun join ↦ join.placed.arrangement).map
      (Arrangement.layout Placed.code)).map (Layout.within .and) := by
  induction joins generalizing conditions with
  | nil =>
    rw [List.mapM_nil, pure_eq_ok] at h
    rw [← h]
    rfl
  | cons join rest ih =>
    obtain ⟨first, others, hfirst, hothers, rfl⟩ := mapM_eq_ok_cons.1 h
    simp only [Condition.conjunct?, bind_eq_ok, pure_eq_ok] at hfirst
    obtain ⟨formula, hformula, rfl⟩ := hfirst
    have hlayout : formula.layout =
        join.placed.arrangement.map (Arrangement.layout Placed.code) :=
      Placed.layout_formula hformula
    rw [Formula.conjunct?, hlayout]
    cases harranged : join.placed.arrangement with
    | none => simpa [harranged] using ih hothers
    | some part => simpa [harranged, Layout.conjunct] using ih hothers

/-- A filter that no joins are added to is written symbol by symbol. -/
theorem filterCode_eq_ok_iff (alone : clauses.restrictingJoins = []) :
    clauses.filterCode = .ok code ↔
      (∃ formula, clauses.filter.formula clauses.qualifier = .ok formula) ∧
        code = Code.restriction (Placed.text? clauses.restrictionSymbols).toList := by
  have htext {formula : Formula} (h : clauses.filter.formula clauses.qualifier = .ok formula) :
      Code.restriction (restricting false formula) =
        Code.restriction (Placed.text? clauses.restrictionSymbols).toList := by
    have hlayout : formula.layout = clauses.placedFilter.arrangement.map
        (Arrangement.layout Placed.code) := Placed.layout_formula h
    have hcode := restriction_eq_text? false hlayout
      (fun part (hpart : part ∈ _ ++ ([] : List (Arrangement Placed))) ↦
        Placed.formed (Option.mem_toList.1 (by simpa using hpart))) fun _ ↦ rfl
    rw [restrictionSymbols, joinedArrangements, alone]
    exact (congrArg Code.restriction (List.append_nil _)).symm.trans hcode
  constructor
  · intro h
    obtain ⟨formula, hformula, rfl⟩ := filterCode_eq_ok h
    exact ⟨⟨formula, hformula⟩, htext hformula⟩
  · rintro ⟨⟨formula, hformula⟩, rfl⟩
    rw [← htext hformula]
    simp only [filterCode, Filter.code?, Condition.code?, bind_assoc, pure_bind]
    refine bind_eq_ok.2 ⟨formula, hformula, ?_⟩
    rw [restricting, if_neg Bool.false_ne_true]
    cases formula.code? with
    | none => rfl
    | some condition => exact congrArg Except.ok (Code.restriction_single condition).symm

/-- What a deletion does to rows is written symbol by symbol. -/
theorem deleteCode_eq_ok_iff (deletes : clauses.verb = .delete) :
    clauses.deleteCode table = .ok code ↔ clauses.isGuarded ∧
      (∃ formula, clauses.filter.formula clauses.qualifier = .ok formula) ∧
        ∃ targets conditions,
          clauses.joins.mapM (fun join ↦ join.target.code) = .ok targets ∧
          clauses.joins.mapM (fun join ↦ join.condition.conjunct? join.qualifier) =
            .ok conditions ∧
          code = (.word "DELETE FROM " :: clauses.targetCode table ++ usingCode targets) ++
            Code.restriction (Placed.text? clauses.restrictionSymbols).toList := by
  have hjoins : clauses.restrictingJoins = clauses.joins := by rw [restrictingJoins, deletes]
  have htext {formula : Formula} (h : clauses.filter.formula clauses.qualifier = .ok formula)
      {conditions : List (Option Code)} (hconditions : clauses.joins.mapM
        (fun join ↦ join.condition.conjunct? join.qualifier) = .ok conditions) :
      Code.restriction (restricting (!clauses.joins.isEmpty) formula ++ conditions.filterMap id) =
        Code.restriction (Placed.text? clauses.restrictionSymbols).toList := by
    have hlayout : formula.layout = clauses.placedFilter.arrangement.map
        (Arrangement.layout Placed.code) := Placed.layout_formula h
    have hformed : ∀ part ∈ clauses.placedFilter.arrangement.toList ++ clauses.joinedArrangements,
        part.Formed := List.forall_mem_append.2
      ⟨fun part hpart ↦ Placed.formed (Option.mem_toList.1 hpart),
        clauses.formed_joinedArrangements⟩
    have harranged : clauses.joins.filterMap (fun join ↦ join.placed.arrangement) =
        clauses.joinedArrangements := by rw [joinedArrangements, hjoins]
    rw [conjuncts_eq_map hconditions, harranged, restrictionSymbols, hjoins]
    refine restriction_eq_text? _ hlayout hformed fun hnone ↦ ?_
    have hempty : clauses.joins = [] := List.isEmpty_iff.1 (by simpa using hnone)
    rw [joinedArrangements, hjoins, hempty, List.filterMap_nil]
  constructor
  · intro h
    obtain ⟨guarded, targets, formula, conditions, htargets, hformula, hconditions, rfl⟩ :=
      deleteCode_eq_ok h
    exact ⟨guarded, ⟨formula, hformula⟩, targets, conditions, htargets, hconditions,
      congrArg _ (htext hformula hconditions)⟩
  · rintro ⟨guarded, ⟨formula, hformula⟩, targets, conditions, htargets, hconditions, rfl⟩
    rw [← htext hformula hconditions]
    have hguarded : clauses.checkGuarded "delete" = .ok () := checkGuarded_eq_ok.2 guarded
    have hown : clauses.filter.code? clauses.qualifier = .ok formula.code? :=
      bind_eq_ok.2 ⟨formula, hformula, rfl⟩
    have hjoined : clauses.filter.conjunct? clauses.qualifier = .ok formula.conjunct? :=
      bind_eq_ok.2 ⟨formula, hformula, rfl⟩
    simp only [deleteCode, hguarded, htargets, hown, hjoined, hconditions]
    cases clauses.joins.isEmpty <;> rfl

variable {other : Clauses Written}

/-- Clauses that differ in the filter only. -/
def SameButFilter (clauses other : Clauses Written) : Prop :=
  other = { clauses with filter := other.filter }

/-- What is computed without the filter does not depend on it. -/
theorem SameButFilter.eq (same : clauses.SameButFilter other) {α : Type}
    (f : Clauses Written → α) (blind : ∀ filter, f { clauses with filter } = f clauses) :
    f other = f clauses := by
  rw [same]
  exact blind _

/-- A selection is written around what restricts its rows. -/
theorem exists_around_filter_select (verb : clauses.verb = .select)
    (h : clauses.selectCode = .ok code) :
    (∃ formula, clauses.filter.formula clauses.qualifier = .ok formula) ∧ ∃ front rest,
      code = front ++ Code.restriction (Placed.text? clauses.restrictionSymbols).toList ++ rest ∧
      ∀ {other : Clauses Written} {formula : Formula}, clauses.SameButFilter other →
        other.filter.formula other.qualifier = .ok formula →
        other.selectCode = .ok (front ++
          Code.restriction (Placed.text? other.restrictionSymbols).toList ++ rest) := by
  have halone : clauses.restrictingJoins = [] := by rw [restrictingJoins, verb]
  simp only [selectCode, bind_eq_ok, pure_eq_ok] at h
  obtain ⟨projection, hprojection, source, hsource, joins, hjoins, filter, hfilter, groups, hgroups,
    having, hhaving, windows, hwindows, combinations, hcombinations, order, horder, lock, hlock,
    rfl⟩ := h
  obtain ⟨hformula, rfl⟩ := (filterCode_eq_ok_iff halone).1 hfilter
  -- All that stands around the filter is computed from clauses that are the same.
  refine ⟨hformula, .word "SELECT " :: clauses.distinctCode ++ projection ++ source ++ spaced joins,
    groups ++ having ++ windows ++ spaced combinations ++ order ++
      numberCode " LIMIT " clauses.writtenLimit ++ numberCode " OFFSET " clauses.offset ++ lock,
    by simp only [List.append_assoc], fun same hother ↦ ?_⟩
  have hnext := (filterCode_eq_ok_iff ((same.eq restrictingJoins fun _ ↦ rfl).trans halone)).2
    ⟨⟨_, hother⟩, rfl⟩
  simp only [selectCode, bind_eq_ok, pure_eq_ok]
  refine ⟨projection, (same.eq projectionCode fun _ ↦ rfl).trans hprojection,
    source, (same.eq sourceCode fun _ ↦ rfl).trans hsource,
    joins, (same.eq (fun clauses ↦ clauses.joins.mapM Join.code) fun _ ↦ rfl).trans hjoins,
    _, hnext, groups, (same.eq groupsCode fun _ ↦ rfl).trans hgroups,
    having, (same.eq havingCode fun _ ↦ rfl).trans hhaving,
    windows, (same.eq windowsCode fun _ ↦ rfl).trans hwindows,
    combinations, (same.eq (fun clauses ↦ clauses.combinations.mapM Combination.code)
      fun _ ↦ rfl).trans hcombinations,
    order, (same.eq orderCode fun _ ↦ rfl).trans horder,
    lock, (same.eq lockCode fun _ ↦ rfl).trans hlock, ?_⟩
  rw [same.eq distinctCode fun _ ↦ rfl, same.eq writtenLimit fun _ ↦ rfl,
    same.eq offset fun _ ↦ rfl]
  simp only [List.append_assoc]

/-- A change of rows is written around what restricts them. -/
theorem exists_around_filter_change (changes : clauses.verb.isChange)
    (h : clauses.verbCode = .ok code) :
    (∃ formula, clauses.filter.formula clauses.qualifier = .ok formula) ∧ ∃ front rest,
      code = front ++ Code.restriction (Placed.text? clauses.restrictionSymbols).toList ++ rest ∧
      ∀ {other : Clauses Written} {formula : Formula}, clauses.SameButFilter other →
        other.filter.formula other.qualifier = .ok formula → other.filter.isSet →
        other.verbCode = .ok (front ++
          Code.restriction (Placed.text? other.restrictionSymbols).toList ++ rest) := by
  match hverb : clauses.verb with
  | .update assignments =>
    have halone : clauses.restrictingJoins = [] := by rw [restrictingJoins, hverb]
    obtain ⟨table, change, returning, htable, hchange, hreturning, rfl⟩ := update_eq_ok hverb h
    simp only [updateCode, bind_eq_ok, refusing_eq_ok, pure_eq_ok] at hchange
    obtain ⟨_, hguarded, hjoins, values, hvalues, filter, hfilter, rfl⟩ := hchange
    obtain ⟨hformula, rfl⟩ := (filterCode_eq_ok_iff halone).1 hfilter
    refine ⟨hformula, .word "UPDATE " :: clauses.targetCode table ++ .word " SET " :: values,
      returning, rfl, fun {other formula} same hother set ↦ ?_⟩
    have hnext := (filterCode_eq_ok_iff ((same.eq restrictingJoins fun _ ↦ rfl).trans halone)).2
      ⟨⟨_, hother⟩, rfl⟩
    -- The other filter is set, so nothing else has to allow the change of all rows.
    have hset : other.isGuarded := by rw [isGuarded, set, Bool.or_true]
    simp only [verbCode, (same.eq verb fun _ ↦ rfl).trans hverb, updateCode, bind_eq_ok,
      refusing_eq_ok, pure_eq_ok]
    refine ⟨table, requireTable_eq_ok.2 ((same.eq Clauses.table fun _ ↦ rfl).trans htable), _,
      ⟨(), checkGuarded_eq_ok.2 hset, ?_, values, hvalues, _, hnext, rfl⟩,
      returning, (same.eq returningCode fun _ ↦ rfl).trans hreturning, ?_⟩
    · rwa [same.eq Clauses.joins fun _ ↦ rfl]
    · rw [same.eq (fun clauses ↦ clauses.targetCode table) fun _ ↦ rfl]
  | .delete =>
    obtain ⟨table, change, returning, htable, hchange, hreturning, rfl⟩ := delete_eq_ok hverb h
    obtain ⟨_, hformula, targets, conditions, htargets, hconditions, rfl⟩ :=
      (deleteCode_eq_ok_iff hverb).1 hchange
    refine ⟨hformula, .word "DELETE FROM " :: clauses.targetCode table ++ usingCode targets,
      returning, rfl, fun {other formula} same hother set ↦ ?_⟩
    have hdeletes : other.verb = .delete := (same.eq verb fun _ ↦ rfl).trans hverb
    have hset : other.isGuarded := by rw [isGuarded, set, Bool.or_true]
    have hnext := (@deleteCode_eq_ok_iff _ table _ hdeletes).2 ⟨hset, ⟨formula, hother⟩,
      targets, conditions, (same.eq (fun clauses ↦ clauses.joins.mapM fun join ↦ join.target.code)
        fun _ ↦ rfl).trans htargets,
      (same.eq (fun clauses ↦ clauses.joins.mapM fun join ↦ join.condition.conjunct? join.qualifier)
        fun _ ↦ rfl).trans hconditions, rfl⟩
    simp only [verbCode, hdeletes, bind_eq_ok, pure_eq_ok]
    refine ⟨table, requireTable_eq_ok.2 ((same.eq Clauses.table fun _ ↦ rfl).trans htable), _,
      hnext, returning, (same.eq returningCode fun _ ↦ rfl).trans hreturning, ?_⟩
    rw [same.eq (fun clauses ↦ clauses.targetCode table) fun _ ↦ rfl]
  | .select | .insert _ | .truncate _ | .copy _ | .describe _ =>
    simp [hverb, Verb.isChange] at changes

/-- A selection, an update or a deletion is written around what restricts its rows, and what
another filter restricts may stand in its place. -/
theorem exists_around_filter (changes : clauses.verb.mayChange) (h : clauses.code = .ok code) :
    (∃ formula, clauses.filter.formula clauses.qualifier = .ok formula) ∧ ∃ front rest,
      code = front ++ Code.restriction (Placed.text? clauses.restrictionSymbols).toList ++ rest ∧
      ∀ {other : Clauses Written} {formula : Formula}, clauses.SameButFilter other →
        other.filter.formula other.qualifier = .ok formula → other.filter.isSet →
        other.code = .ok (front ++
          Code.restriction (Placed.text? other.restrictionSymbols).toList ++ rest) := by
  obtain ⟨declarations, change, hdeclarations, hchange, rfl⟩ := code_eq_ok h
  have hinner : (∃ formula, clauses.filter.formula clauses.qualifier = .ok formula) ∧ ∃ front rest,
      change = front ++ Code.restriction (Placed.text? clauses.restrictionSymbols).toList ++ rest ∧
      ∀ {other : Clauses Written} {formula : Formula}, clauses.SameButFilter other →
        other.filter.formula other.qualifier = .ok formula → other.filter.isSet →
        other.verbCode = .ok (front ++
          Code.restriction (Placed.text? other.restrictionSymbols).toList ++ rest) := by
    match hverb : clauses.verb with
    | .select =>
      rw [verbCode, hverb] at hchange
      obtain ⟨hformula, front, rest, hcode, hothers⟩ := exists_around_filter_select hverb hchange
      refine ⟨hformula, front, rest, hcode, fun same hother _ ↦ ?_⟩
      rw [verbCode, (same.eq verb fun _ ↦ rfl).trans hverb]
      exact hothers same hother
    | .update _ | .delete => exact exists_around_filter_change (by rw [hverb]; rfl) hchange
    | .insert _ | .truncate _ | .copy _ | .describe _ => simp [hverb, Verb.mayChange] at changes
  obtain ⟨hformula, front, rest, rfl, hothers⟩ := hinner
  refine ⟨hformula, declarations ++ front, rest, by simp only [List.append_assoc],
    fun same hother set ↦ ?_⟩
  have hdeclared := (same.eq (fun clauses ↦ CommonTable.declarations clauses.commonTables)
    fun _ ↦ rfl).trans hdeclarations
  refine bind_eq_ok.2 ⟨declarations, hdeclared, bind_eq_ok.2 ⟨_, hothers same hother set, ?_⟩⟩
  rw [pure_eq_ok]
  simp only [List.append_assoc]

end Clauses

/-! ## Raw fragments -/

/-- Whether a fragment is spliced in outside parentheses. -/
def Comparand.splices : Comparand Written → Bool
  | .term (.raw _) => true
  | .range (.raw _) _ | .range _ (.raw _) => true
  | _ => false

/-- Whether the text of an atom may hold connectives: that of a fragment, or of a comparison with
one. -/
def Condition.splices : Condition Written → Bool
  | .raw _ => true
  | .compare _ _ operand | .aggregate _ _ operand => operand.splices
  | _ => false

/-- Texts in place of atoms: what a fragment is spliced into is an expression of its own, and any
other atom stays one. -/
def Placed.Readable (reading : Placed → List (Symbol A)) : Prop :=
  ∀ placed : Placed, if placed.condition.splices then (expression? (reading placed)).isSome
    else ∃ a, reading placed = [.atom a]

theorem Placed.Readable.forms {reading : Placed → List (Symbol A)} (readable : Readable reading)
    (placed : Placed) : Forms .or (reading placed) := by
  have hplaced := readable placed
  split at hplaced
  · exact Forms.isSome_expression?_iff.1 hplaced
  · obtain ⟨a, ha⟩ := hplaced
    rw [ha]
    exact Forms.atom a

/-! ## One more condition -/

/-- What a text comes to that restricts rows: every row passes where nothing is demanded. -/
def Symbol.passes? (assignment : A → Truth) (symbols : List (Symbol A)) : Option Truth :=
  if symbols.isEmpty then some .yes else (expression? symbols).map (Expr.value assignment)

theorem Symbol.passes?_eq (assignment : A → Truth) (symbols : List (Symbol A)) :
    passes? assignment symbols = Arrangement.passes? (symbols.map (Symbol.map assignment)) := by
  unfold passes? Arrangement.passes?
  rw [value_expression?, List.isEmpty_map]

/-- Refining commutes with a change of what the atoms stand for. -/
theorem Symbol.refined_map {B : Type} (reading : A → List (Symbol B)) (assignment : B → Truth)
    (symbols : List (Symbol A)) :
    refined (fun a ↦ (reading a).map (Symbol.map assignment)) symbols =
      (refined reading symbols).map (Symbol.map assignment) := by
  induction symbols with
  | nil => rfl
  | cons symbol rest ih =>
    rw [refined_cons, refined_cons, List.map_append, ih]
    cases symbol <;> rfl

namespace Arrangement

/-- Parts that are joined by AND first restrict like the parts on their own. -/
theorem restriction_joined {parts others : List (Arrangement A)} {joins : Bool}
    (alone : joins = false → others = []) :
    restriction joins ((joined .and parts).toList ++ others) =
      restriction joins (parts ++ others) := by
  cases joins with
  | true => exact chain_joined parts others
  | false =>
    rw [alone rfl, List.append_nil, List.append_nil, restriction, joined_toList]
    rfl

theorem restriction_ne_nil {parts : List (Arrangement A)} (formed : ∀ part ∈ parts, part.Formed)
    (nonempty : parts ≠ []) (joins : Bool) : restriction joins parts ≠ [] := by
  intro hnone
  have hforms := forms_restriction formed nonempty joins
  rw [hnone] at hforms
  cases hforms

end Arrangement

namespace Clauses

/-- A filter of a single group restricts condition by condition. -/
theorem restrictionSymbols_group {clauses : Clauses Written} {group : List (Condition Written)}
    (single : clauses.filter = ⟨[group]⟩) :
    clauses.restrictionSymbols = Arrangement.restriction (!clauses.restrictingJoins.isEmpty)
      (Placed.arrangements clauses.qualifier group ++ clauses.joinedArrangements) := by
  rw [restrictionSymbols, placedFilter, single, Placed.arrangement_group]
  refine Arrangement.restriction_joined fun hnone ↦ ?_
  have hempty : clauses.restrictingJoins = [] := List.isEmpty_iff.1 (by simpa using hnone)
  rw [joinedArrangements, hempty, List.filterMap_nil]

end Clauses

theorem Condition.exists_formulas_concat {conditions : List (Condition Written)}
    {condition : Condition Written} {qualifier : Qualifier} {written : List Formula}
    (h : formulas qualifier (conditions ++ [condition]) = .ok written) :
    ∃ first last, formulas qualifier conditions = .ok first ∧
      condition.formula qualifier = .ok last := by
  induction conditions generalizing written with
  | nil =>
    simp only [List.nil_append, formulas, bind_eq_ok, pure_eq_ok] at h
    obtain ⟨last, hlast, _⟩ := h
    exact ⟨[], last, rfl, hlast⟩
  | cons first rest ih =>
    simp only [List.cons_append, formulas, bind_eq_ok, pure_eq_ok] at h
    obtain ⟨formula, hformula, others, hothers, _⟩ := h
    obtain ⟨before, last, hbefore, hlast⟩ := ih hothers
    exact ⟨formula :: before, last,
      bind_eq_ok.2 ⟨formula, hformula, bind_eq_ok.2 ⟨before, hbefore, rfl⟩⟩, hlast⟩

namespace Clauses

variable {own next : Clauses Written} {group : List (Condition Written)}
  {condition : Condition Written}

/-- A filter with one more condition is written in the place of the filter without it. -/
theorem exists_around_condition (same : next.SameButFilter own) (single : own.filter = ⟨[group]⟩)
    (more : next.filter = ⟨[group ++ [condition]]⟩) (changes : next.verb.mayChange) {code : Code}
    (h : next.code = .ok code) :
    ∃ front rest,
      own.code = .ok (front ++
        Code.restriction (Placed.text? own.restrictionSymbols).toList ++ rest) ∧
      condition.code? own.qualifier =
        .ok (Placed.text? (Placed.symbols ⟨condition, own.qualifier⟩)) ∧
      code = front ++ Code.restriction (Placed.text? next.restrictionSymbols).toList ++ rest := by
  obtain ⟨⟨formula, hformula⟩, front, rest, hcode, hothers⟩ := exists_around_filter changes h
  rw [more, ← same.eq qualifier fun _ ↦ rfl] at hformula
  simp only [Filter.formula, Filter.condition, List.map_cons, List.map_nil, Condition.formula,
    Condition.formulas, bind_eq_ok, pure_eq_ok] at hformula
  obtain ⟨_, ⟨_, ⟨written, hwritten, _⟩, _⟩, _⟩ := hformula
  obtain ⟨first, last, hfirst, hlast⟩ := Condition.exists_formulas_concat hwritten
  have hown : own.filter.formula own.qualifier = .ok (.any [.every first]) := by
    rw [single]
    simp only [Filter.formula, Filter.condition, List.map_cons, List.map_nil, Condition.formula,
      Condition.formulas, hfirst]
    rfl
  have hset : own.filter.isSet := by rw [single]; rfl
  refine ⟨front, rest, hothers same hown hset, ?_, hcode⟩
  have halone : condition.code? own.qualifier = .ok last.code? := bind_eq_ok.2 ⟨last, hlast, rfl⟩
  rw [halone, @Placed.code?_eq_text? ⟨condition, own.qualifier⟩ _ halone]

/-- A filter with one more condition comes to a conjunction with the condition. -/
theorem narrows (same : next.SameButFilter own) (single : own.filter = ⟨[group]⟩)
    (more : next.filter = ⟨[group ++ [condition]]⟩) {reading : Placed → List (Symbol A)}
    (readable : Placed.Readable reading)
    (exposed : own.restrictionSymbols ≠ [] →
      Placed.symbols ⟨condition, own.qualifier⟩ ≠ [] →
        ∀ atom, .atom atom ∈ Symbol.outside 0 next.restrictionSymbols →
          .or ∉ Symbol.outside 0 (reading atom)) (assignment : A → Truth) :
    ∃ before demanded,
      Symbol.passes? assignment (Symbol.refined reading own.restrictionSymbols) = some before ∧
      Symbol.passes? assignment (Symbol.refined reading
        (Placed.symbols ⟨condition, own.qualifier⟩)) = some demanded ∧
      Symbol.passes? assignment (Symbol.refined reading next.restrictionSymbols) =
        some (before.and demanded) := by
  have hjoins : next.restrictingJoins = own.restrictingJoins :=
    (same.eq restrictingJoins fun _ ↦ rfl).symm
  have hqualifier : next.qualifier = own.qualifier := (same.eq qualifier fun _ ↦ rfl).symm
  have hown := restrictionSymbols_group single
  have hnext := restrictionSymbols_group more
  have hjoined : next.joinedArrangements = own.joinedArrangements := by
    rw [joinedArrangements, hjoins, joinedArrangements]
  rw [hjoins, hqualifier, hjoined, Placed.arrangements_concat] at hnext
  have hformed : ∀ part ∈ Placed.arrangements own.qualifier group ++
      (Placed.arrangement ⟨condition, own.qualifier⟩).toList ++ own.joinedArrangements,
      part.Formed := List.forall_mem_append.2 ⟨List.forall_mem_append.2
        ⟨Placed.formed_arrangements group, fun _ hpart ↦ Placed.formed (Option.mem_toList.1 hpart)⟩,
        own.formed_joinedArrangements⟩
  have hreadable (atom : Placed) :
      Forms .or ((reading atom).map (Symbol.map assignment)) :=
    (Forms.map_iff assignment).2 (readable.forms atom)
  rw [hown, hnext] at exposed ⊢
  simp only [Symbol.passes?_eq, ← Symbol.refined_map]
  refine Arrangement.narrows hreadable hformed _ fun hsome hadded atom hatom ↦ ?_
  refine (Forms.map_iff assignment).2 ((readable.forms atom).quiet (exposed ?_ ?_ atom hatom))
  · refine Arrangement.restriction_ne_nil (fun part hpart ↦ hformed part ?_) hsome _
    simp only [List.mem_append] at hpart ⊢
    tauto
  · refine Arrangement.restriction_ne_nil
      (fun _ hpart ↦ Placed.formed (Option.mem_toList.1 hpart)) ?_ _
    rwa [ne_eq, Option.toList_eq_nil_iff]

end Clauses

theorem Statement.mayChange_foldVerb {Result : Type} (step : Clauses Result → Result)
    (verb : Verb Statement) : (foldVerb step verb).mayChange = verb.mayChange := by
  cases verb <;> rfl

namespace Query

/-- A condition at the place of the filter. -/
def placed (query : Query) (condition : Condition Statement) : Placed :=
  ⟨Statement.foldCondition Clauses.code condition, query.clauses.qualifier⟩

/-- The symbols of what restricts the rows. -/
def restrictionSymbols (query : Query) : List (Symbol Placed) :=
  (Statement.foldClauses Clauses.code query.clauses).restrictionSymbols

variable {query : Query} {group : List (Condition Statement)}

/-- A filter of one group takes a further condition at the end of the group. -/
theorem filter_group (single : query.clauses.filter.groups = [group])
    (condition : Condition Statement) :
    Statement.foldFilter Clauses.code query.clauses.filter =
        ⟨[group.map (Statement.foldCondition Clauses.code)]⟩ ∧
      Statement.foldFilter Clauses.code (query.filter condition).clauses.filter =
        ⟨[group.map (Statement.foldCondition Clauses.code) ++
          [(query.placed condition).condition]]⟩ := by
  have hfilter : query.clauses.filter = ⟨[group]⟩ := by
    revert single
    cases query.clauses.filter with
    | mk groups => exact congrArg Filter.mk
  have hnext : (query.filter condition).clauses.filter = ⟨[group ++ [condition]]⟩ := by
    have hand : (query.filter condition).clauses.filter = query.clauses.filter.and condition := rfl
    rw [hand, hfilter]
    rfl
  rw [hfilter, hnext]
  simp [Statement.foldFilter, placed]

/-- Demanding a condition of rows narrows what restricts them. The restriction of a selection, an
update or a deletion is written in the place of the one without the condition, and the condition
alone is written as it stands there. Read as SQL does, with any texts in place of the raw fragments,
the restriction holds only if the one without the condition holds and so does the condition. Where
both demand something, the texts outside parentheses must have no OR outside parentheses. -/
theorem filter_narrows (condition : Condition Statement)
    (changes : query.clauses.verb.mayChange) (single : query.clauses.filter.groups = [group])
    {sql : CompiledSql} (compiled : (query.filter condition).compile = .ok sql) :
    (∃ front rest : Code,
      query.compile = .ok (front ++
        Code.restriction (Placed.text? query.restrictionSymbols).toList ++ rest : Code).compile ∧
      (query.placed condition).condition.code? query.clauses.qualifier =
        .ok (Placed.text? (query.placed condition).symbols) ∧
      sql = (front ++ Code.restriction
        (Placed.text? (query.filter condition).restrictionSymbols).toList ++ rest : Code).compile) ∧
    ∀ {A : Type} (reading : Placed → List (Symbol A)), Placed.Readable reading →
      (query.restrictionSymbols ≠ [] → (query.placed condition).symbols ≠ [] →
        ∀ atom, .atom atom ∈ Symbol.outside 0 (query.filter condition).restrictionSymbols →
          .or ∉ Symbol.outside 0 (reading atom)) →
      ∀ assignment : A → Truth, ∃ before demanded after,
        Symbol.passes? assignment (Symbol.refined reading query.restrictionSymbols) = some before ∧
        Symbol.passes? assignment
          (Symbol.refined reading (query.placed condition).symbols) = some demanded ∧
        Symbol.passes? assignment
          (Symbol.refined reading (query.filter condition).restrictionSymbols) = some after ∧
        after = before.and demanded ∧ (after = .yes → before = .yes ∧ demanded = .yes) := by
  obtain ⟨code, hcode, rfl⟩ := map_eq_ok.1 compiled
  obtain ⟨hown, hnext⟩ := filter_group single condition
  rw [← Statement.filter_fold] at hown hnext
  have hsame : (Statement.foldClauses Clauses.code (query.filter condition).clauses).SameButFilter
      (Statement.foldClauses Clauses.code query.clauses) := by
    rw [Clauses.SameButFilter, Statement.foldClauses_eq, Statement.foldClauses_eq]
    rfl
  have hqualifier : (Statement.foldClauses Clauses.code query.clauses).qualifier =
      query.clauses.qualifier := Statement.qualifier_fold Clauses.code query.clauses
  have hchanges : (Statement.foldClauses Clauses.code
      (query.filter condition).clauses).verb.mayChange := by
    rw [Statement.verb_fold, Statement.mayChange_foldVerb]
    exact changes
  obtain ⟨front, rest, hbefore, hadded, rfl⟩ :=
    Clauses.exists_around_condition hsame hown hnext hchanges hcode
  rw [hqualifier] at hadded
  refine ⟨⟨front, rest, map_eq_ok.2 ⟨_, hbefore, rfl⟩, hadded, rfl⟩,
    fun reading readable exposed assignment ↦ ?_⟩
  obtain ⟨before, demanded, hold, hdemanded, hafter⟩ := Clauses.narrows hsame hown hnext readable
    (by rwa [hqualifier]) assignment
  rw [hqualifier] at hdemanded
  refine ⟨before, demanded, _, hold, hdemanded, hafter, rfl, fun hholds ↦ ?_⟩
  revert hholds
  cases before <;> cases demanded <;> simp [Truth.and]

/-- A fragment as the texts between its connectives. -/
def spoken (fragment : Fragment) : List (Symbol String) :=
  if fragment.sql = "age > 17 AND active" then [.atom "age > 17", .and, .atom "active"]
  else if fragment.sql = "vip OR staff" then [.atom "vip", .or, .atom "staff"]
  else if fragment.sql = "name = 'Ada' OR age = 1" then
    [.atom "name = 'Ada'", .or, .atom "age = 1"]
  else [.atom fragment.sql]

/-- Fragments as they are spoken, and one text for any comparison. -/
def heard (placed : Placed) : List (Symbol String) :=
  match placed.condition with
  | .raw fragment => spoken fragment
  | _ => [.atom "compared"]

theorem readable_heard : Placed.Readable heard := by
  intro placed
  obtain ⟨condition, qualifier⟩ := placed
  cases condition with
  | raw fragment =>
    refine (if_pos rfl).mpr ?_
    simp only [heard, spoken]
    split_ifs <;> rfl
  | _ =>
    split
    · rfl
    · exact ⟨"compared", rfl⟩

def activeAdults : Query :=
  (ofTable (.named "user")).filter (.raw (.verbatim "age > 17 AND active"))

/-- Someone below an age or welcome for another reason. -/
def welcomed : Condition Statement :=
  .any [.compare ⟨none, "age"⟩ .lt (.term (.literal (.int 65))), .raw (.verbatim "vip OR staff")]

theorem filter_narrows_activeAdults :
    ∃ sql, (activeAdults.filter welcomed).compile = .ok sql ∧
      sql.text = "SELECT \"user\".* FROM \"user\" WHERE age > 17 AND active AND " ++
        "(\"user\".\"age\" < $1 OR vip OR staff)" ∧
      ∀ assignment : String → Truth, ∃ before demanded after,
        Symbol.passes? assignment (Symbol.refined heard activeAdults.restrictionSymbols) =
          some before ∧
        Symbol.passes? assignment
          (Symbol.refined heard (activeAdults.placed welcomed).symbols) = some demanded ∧
        Symbol.passes? assignment
          (Symbol.refined heard (activeAdults.filter welcomed).restrictionSymbols) = some after ∧
        after = before.and demanded ∧ (after = .yes → before = .yes ∧ demanded = .yes) := by
  have hcompiled : ∃ sql, (activeAdults.filter welcomed).compile = .ok sql ∧
      sql.text = "SELECT \"user\".* FROM \"user\" WHERE age > 17 AND active AND " ++
        "(\"user\".\"age\" < $1 OR vip OR staff)" := ⟨_, rfl, by decide +kernel⟩
  obtain ⟨sql, hsql, htext⟩ := hcompiled
  have hsymbols : Symbol.outside 0 (activeAdults.filter welcomed).restrictionSymbols =
      [.atom (activeAdults.placed (.raw (.verbatim "age > 17 AND active"))), .and] := rfl
  refine ⟨sql, hsql, htext, (filter_narrows welcomed rfl rfl hsql).2 heard readable_heard ?_⟩
  intro _ _ atom hatom
  rw [hsymbols] at hatom
  simp only [List.mem_cons, Symbol.atom.injEq, reduceCtorEq, List.not_mem_nil, or_false] at hatom
  rw [hatom]
  decide

def adaOrOne : Query :=
  (ofTable (.named "user")).filter (.raw (.verbatim "name = 'Ada' OR age = 1"))

def isFirst : Condition Statement := .compare ⟨none, "id"⟩ .equals (.term (.literal (.int 1)))

/-- A fragment with an OR of its own outside parentheses is written verbatim. What is demanded
besides binds to its second part only, and users called Ada pass who are not the first. -/
theorem filter_adaOrOne :
    adaOrOne.clauses.verb.mayChange ∧ (∃ group, adaOrOne.clauses.filter.groups = [group]) ∧
      (∃ sql, (adaOrOne.filter isFirst).compile = .ok sql ∧
        sql.text = "SELECT \"user\".* FROM \"user\" WHERE name = 'Ada' OR age = 1 AND " ++
          "\"user\".\"id\" = $1") ∧
      Placed.Readable heard ∧
      ∃ assignment : String → Truth,
        Symbol.passes? assignment
          (Symbol.refined heard (adaOrOne.filter isFirst).restrictionSymbols) = some .yes ∧
        Symbol.passes? assignment
          (Symbol.refined heard (adaOrOne.placed isFirst).symbols) = some .no := by
  refine ⟨rfl, ⟨_, rfl⟩, ⟨_, rfl, by decide +kernel⟩, readable_heard,
    fun text ↦ if text = "name = 'Ada'" then .yes else .no, ?_, ?_⟩
  · decide
  · decide

end Query

end SqlComposer
