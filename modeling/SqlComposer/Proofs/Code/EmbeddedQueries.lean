import SqlComposer.Proofs.Code.RenumberedPlaceholders
import SqlComposer.Proofs.Statement.FoldedClauses
import SqlComposer.Proofs.Statement.WrittenChanges

/-!
# Embedded queries

A statement embeds queries in many places: it reads from them, joins them, declares them in front,
combines them, compares with them, selects them or inserts their rows. Wherever a query is embedded,
its code stands within the code of the statement, and so its own text does, with the numbers of its
placeholders raised by the number of values bound before it, and its own values stand behind those.
What surrounds the query makes no difference to it.
-/

namespace SqlComposer

variable {Sub : Type}

/-! ## Places -/

/-- Whether comparing with an operand keeps what is compared. -/
def Comparand.keepsLeft : Comparand Sub → Bool
  | .list terms => !terms.isEmpty
  | _ => true

/-- A query stands in a condition, in a part that is written: an aggregate that is compared with an
empty list is not. -/
inductive Condition.Embeds (sub : Sub) : Condition Sub → Prop
  | compare {column : ColumnRef} {comparison : Comparison} :
      Embeds sub (.compare column comparison (.query sub))
  | every {conditions : List (Condition Sub)} {condition : Condition Sub}
      (member : condition ∈ conditions) (h : Embeds sub condition) : Embeds sub (.every conditions)
  | any {conditions : List (Condition Sub)} {condition : Condition Sub}
      (member : condition ∈ conditions) (h : Embeds sub condition) : Embeds sub (.any conditions)
  | not {condition : Condition Sub} (h : Embeds sub condition) : Embeds sub (.not condition)
  | hasRow : Embeds sub (.hasRow sub)
  | operand {call : AggregateCall Sub} {comparison : Comparison} :
      Embeds sub (.aggregate call comparison (.query sub))
  | counted {call : AggregateCall Sub} {comparison : Comparison} {operand : Comparand Sub}
      (kept : operand.keepsLeft) (h : Embeds sub call.filter.condition) :
      Embeds sub (.aggregate call comparison operand)

/-- Whether a statement is a selection or changes rows. -/
def Verb.handlesRows : Verb Sub → Bool
  | .select | .insert _ | .update _ | .delete => true
  | .truncate _ | .copy _ | .describe _ => false

/-- A query stands in clauses, in a place that the statement writes. -/
inductive Clauses.Embeds (sub : Sub) (clauses : Clauses Sub) : Prop
  /-- `WITH`. -/
  | declared {table : CommonTable Sub} (member : table ∈ clauses.commonTables)
      (body : table.body = .query sub) : Embeds sub clauses
  /-- The select list, or what a change hands back. -/
  | selected {item : SelectItem Sub} (verb : clauses.verb.handlesRows)
      (member : item ∈ clauses.selection) (expression : item.expression = .query sub) :
      Embeds sub clauses
  /-- `FROM`. -/
  | source (verb : clauses.verb = .select) (source : clauses.source = .body (.query sub)) :
      Embeds sub clauses
  /-- `JOIN`, or `USING` in a deletion. -/
  | joined {join : Join Sub} {label : String}
    (verb : clauses.verb = .select ∨ clauses.verb = .delete)
      (member : join ∈ clauses.joins) (target : join.target = .query sub label) : Embeds sub clauses
  /-- The condition of a join; that of a cross join is not written in a selection. -/
  | on {join : Join Sub}
      (verb : clauses.verb = .select ∧ join.kind ≠ .cross ∨ clauses.verb = .delete)
      (member : join ∈ clauses.joins) (condition : join.condition.Embeds sub) : Embeds sub clauses
  /-- `WHERE`. -/
  | filter (verb : clauses.verb.handlesRows) (condition : clauses.filter.condition.Embeds sub) :
      Embeds sub clauses
  | having (verb : clauses.verb = .select) (condition : clauses.having.condition.Embeds sub) :
      Embeds sub clauses
  /-- `UNION`, `INTERSECT` and `EXCEPT`. -/
  | combined {combination : Combination Sub} (verb : clauses.verb = .select)
      (member : combination ∈ clauses.combinations) (operand : combination.operand = .query sub) :
      Embeds sub clauses
  /-- `INSERT ... SELECT`. -/
  | rows {insertion : Insertion Sub} (verb : clauses.verb = .insert insertion)
      (source : insertion.source = .query sub) : Embeds sub clauses

/-! ## Folding -/

namespace Statement

variable {Result : Type} (step : Clauses Result → Result)

theorem condition_foldFilter (filter : Filter Statement) :
    (foldFilter step filter).condition = foldCondition step filter.condition := by
  obtain ⟨groups⟩ := filter
  simp only [foldFilter, Filter.condition, foldGroups_eq, foldCondition, foldConditions_eq,
    List.map_map]
  congr 2
  funext group
  simp [foldCondition]

theorem handlesRows_foldVerb (verb : Verb Statement) :
    (foldVerb step verb).handlesRows = verb.handlesRows := by
  cases verb <;> rfl

theorem embeds_foldCondition {sub : Statement} {condition : Condition Statement}
    (h : condition.Embeds sub) : (foldCondition step condition).Embeds (fold step sub) := by
  induction h with
  | compare => exact .compare
  | every member _ ih =>
    rw [foldCondition, foldConditions_eq]
    exact .every (List.mem_map_of_mem member) ih
  | any member _ ih =>
    rw [foldCondition, foldConditions_eq]
    exact .any (List.mem_map_of_mem member) ih
  | not _ ih => exact .not ih
  | hasRow => exact .hasRow
  | operand => exact .operand
  | @counted call comparison operand kept _ ih =>
    have hkept : (foldComparand step operand).keepsLeft := by
      cases operand <;> exact kept
    have hfilter : (foldCall step call).filter = foldFilter step call.filter := by
      cases call
      rfl
    rw [← condition_foldFilter, ← hfilter] at ih
    exact .counted hkept ih

theorem embeds_foldClauses {sub : Statement} {clauses : Clauses Statement}
    (h : clauses.Embeds sub) : (foldClauses step clauses).Embeds (fold step sub) := by
  have hselect (verb : clauses.verb = .select) : (foldClauses step clauses).verb = .select := by
    rw [verb_fold, verb, foldVerb]
  have hdelete (verb : clauses.verb = .delete) : (foldClauses step clauses).verb = .delete := by
    rw [verb_fold, verb, foldVerb]
  have hrows (verb : clauses.verb.handlesRows) : (foldClauses step clauses).verb.handlesRows := by
    rwa [verb_fold, handlesRows_foldVerb]
  cases h with
  | @declared table member body =>
    have hmember : foldCommonTable step table ∈ (foldClauses step clauses).commonTables := by
      rw [commonTables_fold]
      exact List.mem_map_of_mem member
    have hbody : (foldCommonTable step table).body = foldBody step table.body := by cases table; rfl
    exact .declared hmember (by rw [hbody, body, foldBody])
  | @selected item verb member expression =>
    have hmember : foldItem step item ∈ (foldClauses step clauses).selection := by
      rw [selection_fold]
      exact List.mem_map_of_mem member
    have hitem : (foldItem step item).expression = foldExpr step item.expression := by
      cases item; rfl
    exact .selected (hrows verb) hmember (by rw [hitem, expression, foldExpr])
  | source verb source =>
    exact .source (hselect verb) (by rw [source_fold, source, foldSource, foldBody])
  | @joined join label verb member target =>
    have hmember : foldJoin step join ∈ (foldClauses step clauses).joins := by
      rw [joins_fold]
      exact List.mem_map_of_mem member
    have htarget : (foldJoin step join).target = .query (fold step sub) label := by
      rw [target_foldJoin, target, foldTarget]
    exact .joined (verb.imp hselect hdelete) hmember htarget
  | @on join verb member condition =>
    have hmember : foldJoin step join ∈ (foldClauses step clauses).joins := by
      rw [joins_fold]
      exact List.mem_map_of_mem member
    have hkind : (foldJoin step join).kind = join.kind := by cases join; rfl
    have hcondition := embeds_foldCondition step condition
    rw [← condition_foldJoin] at hcondition
    exact .on (verb.imp (fun h ↦ ⟨hselect h.1, hkind ▸ h.2⟩) hdelete) hmember hcondition
  | filter verb condition =>
    have hcondition := embeds_foldCondition step condition
    rw [← condition_foldFilter, ← filter_fold] at hcondition
    exact .filter (hrows verb) hcondition
  | having verb condition =>
    have hcondition := embeds_foldCondition step condition
    rw [← condition_foldFilter, ← having_fold] at hcondition
    exact .having (hselect verb) hcondition
  | @combined combination verb member operand =>
    have hmember : foldCombination step combination ∈ (foldClauses step clauses).combinations := by
      rw [combinations_fold]
      exact List.mem_map_of_mem member
    have hoperand : (foldCombination step combination).operand =
        foldBody step combination.operand := by cases combination; rfl
    exact .combined (hselect verb) hmember (by rw [hoperand, operand, foldBody])
  | @rows insertion verb source =>
    have hverb : (foldClauses step clauses).verb = .insert (foldInsertion step insertion) := by
      rw [verb_fold, verb, foldVerb]
    have hsource : (foldInsertion step insertion).source =
        foldInsertSource step insertion.source := by cases insertion; rfl
    exact .rows hverb (by rw [hsource, source, foldInsertSource])

end Statement

/-! ## Code -/

open Code (Within)

/-- A comparison with a query is written with the query. -/
theorem within_comparison {left : Code} {comparison : Comparison} {sub : Written}
    {qualifier : Qualifier} {code : Code}
    (h : comparisonCode left comparison (.query sub) qualifier = .ok code) :
    ∃ inner, sub = .ok inner ∧ Within inner code := by
  simp only [comparisonCode, bind_eq_ok, pure_eq_ok] at h
  obtain ⟨inner, hinner, rfl⟩ := h
  exact ⟨inner, hinner, Within.refl.parenthesized.append_left _⟩

/-- What is compared stands in front of the comparison, unless it is dropped. -/
theorem prefix_comparison {left : Code} {comparison : Comparison} {operand : Comparand Written}
    {qualifier : Qualifier} {code : Code} (kept : operand.keepsLeft)
    (h : comparisonCode left comparison operand qualifier = .ok code) : left <+: code := by
  unfold comparisonCode at h
  split at h
  · split at h
    · rw [← Except.ok.inj h]
      exact List.prefix_append left _
    · split at h
      · rw [← Except.ok.inj h]
        exact List.prefix_append left _
      · obtain ⟨right, _, h⟩ := bind_eq_ok.1 h
        split at h <;> rw [← pure_eq_ok.1 h]
        · simp only [List.append_assoc]
          exact List.prefix_append left _
        · simp only [List.append_assoc]
          exact List.prefix_append left _
  · rename_i terms
    have hterms : ¬terms.isEmpty := by simpa [Comparand.keepsLeft] using kept
    split at h
    · obtain ⟨right, _, h⟩ := bind_eq_ok.1 h
      rw [← pure_eq_ok.1 h]
      simp only [List.append_assoc]
      exact List.prefix_append left _
    · simp at h
  · split at h
    · obtain ⟨_, _, h⟩ := bind_eq_ok.1 h
      obtain ⟨_, _, h⟩ := bind_eq_ok.1 h
      rw [← pure_eq_ok.1 h]
      simp only [List.append_assoc]
      exact List.prefix_append left _
    · simp at h
  · obtain ⟨_, _, h⟩ := bind_eq_ok.1 h
    rw [← pure_eq_ok.1 h]
    simp only [List.append_assoc]
    exact List.prefix_append left _

namespace Condition

variable {sub : Written} {qualifier : Qualifier}

/-- Each condition of a written list is written to one of the formulas. -/
theorem exists_formula {conditions : List (Condition Written)} {written : List Formula}
    (h : formulas qualifier conditions = .ok written) {condition : Condition Written}
    (member : condition ∈ conditions) :
    ∃ formula ∈ written, condition.formula qualifier = .ok formula := by
  induction conditions generalizing written with
  | nil => simp at member
  | cons first rest ih =>
    simp only [formulas, bind_eq_ok, pure_eq_ok] at h
    obtain ⟨formula, hformula, others, hothers, rfl⟩ := h
    rcases List.mem_cons.1 member with rfl | member
    · exact ⟨formula, List.mem_cons_self, hformula⟩
    · obtain ⟨found, hfound, hcondition⟩ := ih hothers member
      exact ⟨found, List.mem_cons_of_mem formula hfound, hcondition⟩

/-- The call of an aggregate is written with its filter. -/
theorem within_call {call : AggregateCall Written} {code : Code}
    (h : callCode qualifier call = .ok code) :
    ∃ formula, call.filter.condition.formula qualifier = .ok formula ∧
      ∀ layout, formula.layout = some layout → layout.code <:+: code := by
  obtain ⟨function, argument, distinct, order, withinGroup, ⟨groups⟩⟩ := call
  have hformula {written : List Formula} (hwritten : groupFormulas qualifier groups = .ok written) :
      (Filter.mk groups).condition.formula qualifier = .ok (.any written) := by
    simp only [Filter.condition, formula, formulas_groups, hwritten]
    rfl
  have hfiltered {front : Code} {layout : Layout}
      (hcode : front ++ .word " FILTER " :: Code.parenthesized (.word "WHERE " :: layout.code) =
        code) : layout.code <:+: code := by
    have hfilter : layout.code <:+: Code.parenthesized (.word "WHERE " :: layout.code) :=
      (List.suffix_cons _ _).isInfix.trans (Code.infix_parenthesized _)
    rw [← hcode]
    exact (hfilter.trans (List.suffix_cons _ _).isInfix).trans (List.suffix_append _ _).isInfix
  unfold callCode at h
  dsimp only at h
  split at h
  · rw [pure_bind] at h
    obtain ⟨written, hwritten, hcode⟩ := bind_eq_ok.1 h
    refine ⟨.any written, hformula hwritten, fun layout hlayout ↦ ?_⟩
    rw [Formula.code?, hlayout] at hcode
    exact hfiltered (pure_eq_ok.1 hcode)
  · simp only [pure_bind] at h
    obtain ⟨_, _, h⟩ := bind_eq_ok.1 h
    obtain ⟨written, hwritten, hcode⟩ := bind_eq_ok.1 h
    refine ⟨.any written, hformula hwritten, fun layout hlayout ↦ ?_⟩
    rw [Formula.code?, hlayout] at hcode
    exact hfiltered (pure_eq_ok.1 hcode)

/-- A condition is written with all queries in it that stand in written parts. -/
theorem Embeds.within_formula {condition : Condition Written} (h : condition.Embeds sub)
    {formula : Formula} (written : condition.formula qualifier = .ok formula) :
    ∃ inner, sub = .ok inner ∧
      ∃ layout, formula.layout = some layout ∧ Within inner layout.code := by
  -- A part that is written within the whole takes the query along.
  have hpart {whole part : Formula} (covers : whole.Covers part)
      (h : ∃ inner, sub = .ok inner ∧
        ∃ layout, part.layout = some layout ∧ Within inner layout.code) :
      ∃ inner, sub = .ok inner ∧
        ∃ layout, whole.layout = some layout ∧ Within inner layout.code := by
    obtain ⟨inner, hinner, layout, hlayout, hwithin⟩ := h
    obtain ⟨outer, houter, hcode⟩ := covers layout hlayout
    exact ⟨inner, hinner, outer, houter, hwithin.mono hcode⟩
  induction h generalizing formula with
  | compare =>
    simp only [Condition.formula, bind_eq_ok, pure_eq_ok] at written
    obtain ⟨code, hcode, rfl⟩ := written
    obtain ⟨inner, hinner, hwithin⟩ := within_comparison hcode
    exact ⟨inner, hinner, _, rfl, hwithin⟩
  | every member _ ih =>
    simp only [Condition.formula, bind_eq_ok, pure_eq_ok] at written
    obtain ⟨members, hmembers, rfl⟩ := written
    obtain ⟨part, hmem, hwritten⟩ := exists_formula hmembers member
    exact hpart (Formula.covers_every hmem) (ih hwritten)
  | any member _ ih =>
    simp only [Condition.formula, bind_eq_ok, pure_eq_ok] at written
    obtain ⟨members, hmembers, rfl⟩ := written
    obtain ⟨part, hmem, hwritten⟩ := exists_formula hmembers member
    exact hpart (Formula.covers_any hmem) (ih hwritten)
  | not _ ih =>
    simp only [Condition.formula, bind_eq_ok, pure_eq_ok] at written
    obtain ⟨part, hwritten, rfl⟩ := written
    exact hpart (Formula.covers_not part) (ih hwritten)
  | hasRow =>
    simp only [Condition.formula, bind_eq_ok, pure_eq_ok] at written
    obtain ⟨inner, hinner, rfl⟩ := written
    exact ⟨inner, hinner, _, rfl, Within.refl.parenthesized.cons _⟩
  | operand =>
    simp only [Condition.formula, bind_eq_ok, pure_eq_ok] at written
    obtain ⟨_, _, code, hcode, rfl⟩ := written
    obtain ⟨inner, hinner, hwithin⟩ := within_comparison hcode
    exact ⟨inner, hinner, _, rfl, hwithin⟩
  | counted kept _ ih =>
    simp only [Condition.formula, bind_eq_ok, pure_eq_ok] at written
    obtain ⟨left, hleft, code, hcode, rfl⟩ := written
    obtain ⟨filter, hfilter, hcovered⟩ := within_call hleft
    obtain ⟨inner, hinner, layout, hlayout, hwithin⟩ := ih hfilter
    refine ⟨inner, hinner, _, rfl, ?_⟩
    exact (hwithin.mono (hcovered layout hlayout)).mono
      (prefix_comparison kept hcode).isInfix

/-- The code of a condition, where there has to be one. -/
theorem Embeds.within_code? {condition : Condition Written} (h : condition.Embeds sub)
    {written : Option Code} (hcode : condition.code? qualifier = .ok written) :
    ∃ inner, sub = .ok inner ∧ ∃ code, written = some code ∧ Within inner code := by
  simp only [code?, bind_eq_ok, pure_eq_ok] at hcode
  obtain ⟨formula, hformula, rfl⟩ := hcode
  obtain ⟨inner, hinner, layout, hlayout, hwithin⟩ := h.within_formula hformula
  exact ⟨inner, hinner, layout.code, by rw [Formula.code?, hlayout]; rfl, hwithin⟩

/-- The query a condition embeds is written within the code of the condition. -/
theorem Embeds.within_conjunct? {condition : Condition Written} (h : condition.Embeds sub)
    {written : Option Code} (hcode : condition.conjunct? qualifier = .ok written) :
    ∃ inner, sub = .ok inner ∧ ∃ code, written = some code ∧ Within inner code := by
  simp only [conjunct?, bind_eq_ok, pure_eq_ok] at hcode
  obtain ⟨formula, hformula, rfl⟩ := hcode
  obtain ⟨inner, hinner, layout, hlayout, hwithin⟩ := h.within_formula hformula
  refine ⟨inner, hinner, layout.conjunct, by rw [Formula.conjunct?, hlayout]; rfl, ?_⟩
  exact hwithin.mono (layout.infix_within .and)

end Condition

namespace Clauses

variable {clauses : Clauses Written} {sub : Written} {code : Code}

/-- The query of a declared table is written within the declarations. -/
theorem within_declarations {declared : List (CommonTable Written)} {table : CommonTable Written}
    (member : table ∈ declared) (body : table.body = .query sub)
    (h : CommonTable.declarations declared = .ok code) :
    ∃ inner, sub = .ok inner ∧ Within inner code := by
  have hsome : ¬declared.isEmpty := by
    rw [List.isEmpty_iff]
    rintro rfl
    simp at member
  simp only [CommonTable.declarations, if_neg hsome, bind_eq_ok, pure_eq_ok] at h
  obtain ⟨items, hitems, rfl⟩ := h
  obtain ⟨item, hitem, hcode⟩ := exists_result_of_mem hitems member
  simp only [CommonTable.code, body, Body.code, bind_eq_ok, pure_eq_ok] at hcode
  obtain ⟨inner, hinner, rfl⟩ := hcode
  refine ⟨inner, hinner, ?_⟩
  have hitem := (Within.refl.parenthesized.append_left _).separated ", " hitem
  exact (hitem.append_left _).append_right _

/-- A selected query is written within one of the items. -/
theorem within_item {items : List Code} {item : SelectItem Written}
    (member : item ∈ clauses.selection) (expression : item.expression = .query sub)
    (h : SelectItem.codes clauses.qualifier clauses.selection = .ok items) :
    ∃ inner, sub = .ok inner ∧ ∃ item ∈ items, inner <:+: item := by
  obtain ⟨written, hwritten, hcode⟩ := exists_result_of_mem h member
  simp only [SelectItem.code, expression, SelectItem.expressionCode, bind_assoc, pure_bind,
    bind_eq_ok, pure_eq_ok] at hcode
  obtain ⟨inner, hinner, rfl⟩ := hcode
  exact ⟨inner, hinner, _, hwritten,
    (Code.infix_parenthesized inner).trans (List.prefix_append _ _).isInfix⟩

/-- A selected query is written within the selected list. -/
theorem within_projection {item : SelectItem Written} (member : item ∈ clauses.selection)
    (expression : item.expression = .query sub) (h : clauses.projectionCode = .ok code) :
    ∃ inner, sub = .ok inner ∧ Within inner code := by
  have hsome : ¬clauses.selection.isEmpty := by
    rw [List.isEmpty_iff]
    exact List.ne_nil_of_mem member
  simp only [projectionCode, if_neg hsome, bind_eq_ok, pure_eq_ok] at h
  obtain ⟨items, hitems, rfl⟩ := h
  obtain ⟨inner, hinner, written, hwritten, hcode⟩ := within_item member expression hitems
  exact ⟨inner, hinner, Within.separated (.inl hcode) ", " hwritten⟩

/-- A query that a change hands back is written within its RETURNING list. -/
theorem within_returning {item : SelectItem Written} (member : item ∈ clauses.selection)
    (expression : item.expression = .query sub) (h : clauses.returningCode = .ok code) :
    ∃ inner, sub = .ok inner ∧ Within inner code := by
  have hsome : clauses.selection.isEmpty = false := by
    rw [List.isEmpty_eq_false_iff]
    exact List.ne_nil_of_mem member
  have hitems : ¬clauses.returnsAll := by simp [returnsAll, hsome]
  simp only [returningCode, if_neg hitems, bind_eq_ok] at h
  obtain ⟨items, hitems, h⟩ := h
  obtain ⟨inner, hinner, written, hwritten, hcode⟩ := within_item member expression hitems
  have hwritten' : ¬(items.isEmpty && (clauses.readBack.map fun column ↦
      (ColumnRef.unqualified column).code clauses.qualifier).isEmpty) := by
    have := List.isEmpty_eq_false_iff.2 (List.ne_nil_of_mem hwritten)
    simp [this]
  rw [if_neg hwritten', pure_eq_ok] at h
  rw [← h]
  exact ⟨inner, hinner, .inr ⟨items, _, written, List.mem_cons_of_mem _ List.mem_cons_self,
    hwritten, hcode⟩⟩

theorem within_source (source : clauses.source = .body (.query sub))
    (h : clauses.sourceCode = .ok code) : ∃ inner, sub = .ok inner ∧ Within inner code := by
  simp only [sourceCode, source] at h
  split at h
  · simp only [bind_eq_ok, pure_eq_ok] at h
    obtain ⟨inner, hinner, rfl⟩ := h
    exact ⟨inner, hinner, (Within.refl.parenthesized.cons _).append_right _⟩
  · simp at h

theorem within_target {target : JoinTarget Written} {label : String}
    (target_eq : target = .query sub label) (h : target.code = .ok code) :
    ∃ inner, sub = .ok inner ∧ Within inner code := by
  simp only [target_eq, JoinTarget.code, bind_eq_ok, pure_eq_ok] at h
  obtain ⟨inner, hinner, rfl⟩ := h
  exact ⟨inner, hinner, Within.refl.parenthesized.append_right _⟩

theorem within_filter (condition : clauses.filter.condition.Embeds sub)
    (h : clauses.filterCode = .ok code) : ∃ inner, sub = .ok inner ∧ Within inner code := by
  obtain ⟨written, hwritten, h⟩ := bind_eq_ok.1 h
  obtain ⟨inner, hinner, text, rfl, hwithin⟩ := condition.within_code? hwritten
  rw [← pure_eq_ok.1 h]
  exact ⟨inner, hinner, hwithin.cons _⟩

theorem within_having (condition : clauses.having.condition.Embeds sub)
    (h : clauses.havingCode = .ok code) : ∃ inner, sub = .ok inner ∧ Within inner code := by
  obtain ⟨written, hwritten, h⟩ := bind_eq_ok.1 h
  obtain ⟨inner, hinner, text, rfl, hwithin⟩ := condition.within_code? hwritten
  rw [← pure_eq_ok.1 h]
  exact ⟨inner, hinner, hwithin.cons _⟩

/-- The joined query, and those of the ON condition, are written within the join. -/
theorem within_join {join : Join Written} (h : join.code = .ok code) :
    (∀ label, join.target = .query sub label → ∃ inner, sub = .ok inner ∧ Within inner code) ∧
      (join.kind ≠ .cross → join.condition.Embeds sub →
        ∃ inner, sub = .ok inner ∧ Within inner code) := by
  simp only [Join.code, bind_eq_ok] at h
  obtain ⟨target, htarget, h⟩ := h
  constructor
  · intro label hquery
    obtain ⟨inner, hinner, hwithin⟩ := within_target hquery htarget
    have hcondition (condition : Code) :
        Within inner (.word join.kind.toSql :: .word " " :: target ++ condition) :=
      ((hwithin.append_right condition).cons _).cons _
    split at h
    · rw [pure_bind, pure_eq_ok] at h
      exact ⟨inner, hinner, h ▸ hcondition _⟩
    · simp only [pure_bind, bind_eq_ok, pure_eq_ok] at h
      obtain ⟨_, _, rfl⟩ := h
      exact ⟨inner, hinner, hcondition _⟩
  · intro hkind hcondition
    simp only [if_neg hkind, pure_bind, bind_eq_ok, pure_eq_ok] at h
    obtain ⟨written, hwritten, rfl⟩ := h
    obtain ⟨inner, hinner, text, rfl, hwithin⟩ := hcondition.within_code? hwritten
    exact ⟨inner, hinner, (((hwithin.cons _).append_left target).cons _).cons _⟩

theorem within_combination {combination : Combination Written}
    (operand : combination.operand = .query sub) (h : combination.code = .ok code) :
    ∃ inner, sub = .ok inner ∧ Within inner code := by
  simp only [Combination.code, operand, Body.code, bind_eq_ok, pure_eq_ok] at h
  obtain ⟨inner, hinner, rfl⟩ := h
  refine ⟨inner, hinner, (Within.cons ?_ _).cons _⟩
  split
  · exact Within.refl.parenthesized
  · exact .refl

/-- A filter with a query in it is set. -/
theorem isSet_of_embeds {filter : Filter Written} (h : filter.condition.Embeds sub) :
    filter.isSet := by
  cases h with
  | any member =>
    obtain ⟨group, hgroup, _⟩ := List.mem_map.1 member
    simp [Filter.isSet, List.ne_nil_of_mem hgroup]

/-- The query in the filter of a merge is written within the reaction to conflicts. -/
theorem within_reaction {conflict : Conflict} {inserted : List String} {filter : Filter Written}
    {qualifier : Qualifier} (condition : filter.condition.Embeds sub)
    (h : conflict.code inserted filter qualifier = .ok code) :
    ∃ inner, sub = .ok inner ∧ Within inner code := by
  obtain ⟨target, action⟩ := conflict
  cases action with
  | ignore =>
    simp only [Conflict.code, bind_eq_ok, refusing_eq_ok] at h
    obtain ⟨_, _, hunset, _⟩ := h
    exact absurd (isSet_of_embeds condition) hunset
  | merge spec =>
    simp only [Conflict.code, bind_eq_ok, pure_eq_ok] at h
    obtain ⟨_, _, _, _, written, hwritten, rfl⟩ := h
    obtain ⟨inner, hinner, text, rfl, hwithin⟩ := condition.within_code? hwritten
    exact ⟨inner, hinner, (hwithin.cons _).append_left _⟩

/-- The source of an insertion and the queries of its filter are written within its code. -/
theorem within_insertion {insertion : Insertion Written} {target : Code} {filter : Filter Written}
    {qualifier : Qualifier} (h : insertion.code target filter qualifier = .ok code) :
    (insertion.source = .query sub → ∃ inner, sub = .ok inner ∧ Within inner code) ∧
      (filter.condition.Embeds sub → ∃ inner, sub = .ok inner ∧ Within inner code) := by
  obtain ⟨columns, source, conflict⟩ := insertion
  have hquery {given : Code} (behind : Code) (hsource : source = .query sub)
      (hgiven : (Insertion.mk columns source conflict).sourceCode = .ok given) :
      ∃ inner, sub = .ok inner ∧
        Within inner (.word "INSERT INTO " :: target ++ given ++ behind) := by
    simp only [Insertion.sourceCode, hsource, bind_eq_ok, pure_eq_ok] at hgiven
    obtain ⟨inner, hinner, rfl⟩ := hgiven
    exact ⟨inner, hinner, (((Within.refl.cons _).append_left _).append_left _).append_right _⟩
  cases conflict with
  | none =>
    simp only [Insertion.code, bind_eq_ok, refusing_eq_ok, pure_bind, pure_eq_ok] at h
    obtain ⟨given, hgiven, hunset, rfl⟩ := h
    exact ⟨fun hsource ↦ hquery [] hsource hgiven,
      fun condition ↦ absurd (isSet_of_embeds condition) hunset⟩
  | some conflict =>
    simp only [Insertion.code, bind_eq_ok, pure_eq_ok] at h
    obtain ⟨given, hgiven, reaction, hreaction, rfl⟩ := h
    refine ⟨fun hsource ↦ hquery reaction hsource hgiven, fun condition ↦ ?_⟩
    obtain ⟨inner, hinner, hwithin⟩ := within_reaction condition hreaction
    exact ⟨inner, hinner, hwithin.append_left _⟩

theorem within_spaced {codes : List Code} {inner : Code} (mem : code ∈ codes)
    (h : Within inner code) : Within inner (spaced codes) := by
  unfold spaced
  rw [List.flatMap_def]
  exact (h.cons _).flatten (List.mem_map_of_mem mem)

/-- A query embedded in the clauses of a selection, other than `WITH`, is written with them. -/
theorem within_select (verb : clauses.verb = .select) (h : clauses.selectCode = .ok code)
    (embeds : clauses.Embeds sub) :
    (∃ table ∈ clauses.commonTables, table.body = .query sub) ∨
      ∃ inner, sub = .ok inner ∧ Within inner code := by
  simp only [selectCode, bind_eq_ok, pure_eq_ok] at h
  obtain ⟨projection, hprojection, source, hsource, joins, hjoins, filter, hfilter, groups, _,
    having, hhaving, windows, _, combinations, hcombinations, order, _, lock, _, rfl⟩ := h
  have hpart {part : Code} (hwithin : ∃ inner, sub = .ok inner ∧ Within inner part)
      (hmem : part ∈ [.word "SELECT " :: clauses.distinctCode, projection, source, spaced joins,
        filter, groups, having, windows, spaced combinations, order,
        numberCode " LIMIT " clauses.writtenLimit, numberCode " OFFSET " clauses.offset, lock]) :
      ∃ inner, sub = .ok inner ∧ Within inner (.word "SELECT " :: clauses.distinctCode ++
        projection ++ source ++ spaced joins ++ filter ++ groups ++ having ++ windows ++
        spaced combinations ++ order ++ numberCode " LIMIT " clauses.writtenLimit ++
        numberCode " OFFSET " clauses.offset ++ lock) := by
    obtain ⟨inner, hinner, hwithin⟩ := hwithin
    have hall := hwithin.flatten hmem
    simp only [List.flatten_cons, List.flatten_nil, List.append_nil, ← List.append_assoc] at hall
    exact ⟨inner, hinner, hall⟩
  have hlisted {part : Code} {parts : List Code} (hmem : part ∈ parts)
      (hwithin : ∃ inner, sub = .ok inner ∧ Within inner part) :
      ∃ inner, sub = .ok inner ∧ Within inner (spaced parts) :=
    hwithin.imp fun _ h ↦ ⟨h.1, within_spaced hmem h.2⟩
  cases embeds with
  | declared member body => exact .inl ⟨_, member, body⟩
  | selected _ member expression =>
    exact .inr (hpart (within_projection member expression hprojection) (by simp))
  | source _ source => exact .inr (hpart (within_source source hsource) (by simp))
  | joined _ member target =>
    obtain ⟨part, hmem, hcode⟩ := exists_result_of_mem hjoins member
    exact .inr (hpart (hlisted hmem ((within_join hcode).1 _ target)) (by simp))
  | on kind member condition =>
    obtain ⟨part, hmem, hcode⟩ := exists_result_of_mem hjoins member
    have hkind := (kind.resolve_right (by simp [verb])).2
    exact .inr (hpart (hlisted hmem ((within_join hcode).2 hkind condition)) (by simp))
  | filter _ condition => exact .inr (hpart (within_filter condition hfilter) (by simp))
  | having _ condition => exact .inr (hpart (within_having condition hhaving) (by simp))
  | combined _ member operand =>
    obtain ⟨part, hmem, hcode⟩ := exists_result_of_mem hcombinations member
    exact .inr (hpart (hlisted hmem (within_combination operand hcode)) (by simp))
  | rows other _ => simp [verb] at other

/-- A query in the filter of a change is written with what restricts the rows. -/
theorem within_restriction {filter : Filter Written} {qualifier : Qualifier} {formula : Formula}
    (condition : filter.condition.Embeds sub) (joined : Bool)
    (h : filter.formula qualifier = .ok formula) (others : List Code) :
    ∃ inner, sub = .ok inner ∧
      Within inner (Code.restriction (restricting joined formula ++ others)) := by
  obtain ⟨inner, hinner, layout, hlayout, hwithin⟩ := condition.within_formula h
  obtain ⟨written, hwritten, hcode⟩ := exists_restricting joined hlayout
  have hall := Code.infix_restriction (List.mem_append_left others hwritten)
  exact ⟨inner, hinner, hwithin.mono (hcode.trans hall)⟩

/-- The queries in the filter of an update are written within its code. -/
theorem within_update {table : Table} {assignments : List Assignment}
    (h : clauses.updateCode table assignments = .ok code)
    (condition : clauses.filter.condition.Embeds sub) :
    ∃ inner, sub = .ok inner ∧ Within inner code := by
  obtain ⟨_, values, formula, _, hformula, rfl⟩ := updateCode_eq_ok h
  obtain ⟨inner, hinner, hwithin⟩ := within_restriction condition false hformula []
  rw [List.append_nil] at hwithin
  exact ⟨inner, hinner, hwithin.append_left _⟩

/-- The queries in the filter and in the joins of a delete are written within its code. -/
theorem within_delete {table : Table} (h : clauses.deleteCode table = .ok code) :
    (clauses.filter.condition.Embeds sub → ∃ inner, sub = .ok inner ∧ Within inner code) ∧
      ∀ join ∈ clauses.joins,
        (∀ label, join.target = .query sub label → ∃ inner, sub = .ok inner ∧ Within inner code) ∧
          (join.condition.Embeds sub → ∃ inner, sub = .ok inner ∧ Within inner code) := by
  obtain ⟨_, targets, formula, conditions, htargets, hformula, hconditions, rfl⟩ :=
    deleteCode_eq_ok h
  refine ⟨fun condition ↦ ?_, fun join member ↦ ⟨fun label target ↦ ?_, fun condition ↦ ?_⟩⟩
  · obtain ⟨inner, hinner, hwithin⟩ := within_restriction condition (!clauses.joins.isEmpty)
      hformula (conditions.filterMap id)
    exact ⟨inner, hinner, hwithin.append_left _⟩
  · obtain ⟨written, hwritten, hcode⟩ := exists_result_of_mem htargets member
    obtain ⟨inner, hinner, hwithin⟩ := within_target target hcode
    have hsome : ¬targets.isEmpty := by
      rw [List.isEmpty_iff]
      exact List.ne_nil_of_mem hwritten
    rw [usingCode, if_neg hsome]
    have hlisted := (hwithin.separated ", " hwritten).cons (.word " USING ")
    exact ⟨inner, hinner, (hlisted.append_left _).append_right _⟩
  · obtain ⟨written, hwritten, hcode⟩ := exists_result_of_mem hconditions member
    obtain ⟨inner, hinner, text, rfl, hwithin⟩ := condition.within_conjunct? hcode
    have hmem : text ∈ restricting (!clauses.joins.isEmpty) formula ++ conditions.filterMap id :=
      List.mem_append_right _ (List.mem_filterMap.2 ⟨some text, hwritten, rfl⟩)
    exact ⟨inner, hinner, (hwithin.mono (Code.infix_restriction hmem)).append_left _⟩

/-- A query embedded in a statement is one of its declared tables or is written behind them. -/
theorem Embeds.within_verbCode (embeds : clauses.Embeds sub) (h : clauses.verbCode = .ok code) :
    (∃ table ∈ clauses.commonTables, table.body = .query sub) ∨
      ∃ inner, sub = .ok inner ∧ Within inner code := by
  match hverb : clauses.verb with
  | .select =>
    simp only [verbCode, hverb] at h
    exact within_select hverb h embeds
  | .insert insertion =>
    obtain ⟨_, change, returning, _, hchange, hreturning, rfl⟩ := insert_eq_ok hverb h
    cases embeds with
    | declared member body => exact .inl ⟨_, member, body⟩
    | selected _ member expression =>
      obtain ⟨inner, hinner, hwithin⟩ := within_returning member expression hreturning
      exact .inr ⟨inner, hinner, hwithin.append_left change⟩
    | filter _ condition =>
      obtain ⟨inner, hinner, hwithin⟩ := (within_insertion hchange).2 condition
      exact .inr ⟨inner, hinner, hwithin.append_right returning⟩
    | @rows given verb source =>
      have hgiven : insertion = given := by simpa [hverb] using verb
      obtain ⟨inner, hinner, hwithin⟩ := (within_insertion hchange).1 (hgiven ▸ source)
      exact .inr ⟨inner, hinner, hwithin.append_right returning⟩
    | _ verb => simp [hverb] at verb
  | .update assignments =>
    obtain ⟨_, change, returning, _, hchange, hreturning, rfl⟩ := update_eq_ok hverb h
    cases embeds with
    | declared member body => exact .inl ⟨_, member, body⟩
    | selected _ member expression =>
      obtain ⟨inner, hinner, hwithin⟩ := within_returning member expression hreturning
      exact .inr ⟨inner, hinner, hwithin.append_left change⟩
    | filter _ condition =>
      obtain ⟨inner, hinner, hwithin⟩ := within_update hchange condition
      exact .inr ⟨inner, hinner, hwithin.append_right returning⟩
    | _ verb => simp [hverb] at verb
  | .delete =>
    obtain ⟨_, change, returning, _, hchange, hreturning, rfl⟩ := delete_eq_ok hverb h
    cases embeds with
    | declared member body => exact .inl ⟨_, member, body⟩
    | selected _ member expression =>
      obtain ⟨inner, hinner, hwithin⟩ := within_returning member expression hreturning
      exact .inr ⟨inner, hinner, hwithin.append_left change⟩
    | filter _ condition =>
      obtain ⟨inner, hinner, hwithin⟩ := (within_delete hchange).1 condition
      exact .inr ⟨inner, hinner, hwithin.append_right returning⟩
    | joined _ member target =>
      obtain ⟨inner, hinner, hwithin⟩ := ((within_delete hchange).2 _ member).1 _ target
      exact .inr ⟨inner, hinner, hwithin.append_right returning⟩
    | on _ member condition =>
      obtain ⟨inner, hinner, hwithin⟩ := ((within_delete hchange).2 _ member).2 condition
      exact .inr ⟨inner, hinner, hwithin.append_right returning⟩
    | _ verb => simp [hverb] at verb
  | .truncate _ | .copy _ | .describe _ =>
    cases embeds with
    | declared member body => exact .inl ⟨_, member, body⟩
    | _ verb => simp [hverb, Verb.handlesRows] at verb

/-- A query embedded in clauses is written with them. -/
theorem Embeds.within_code (embeds : clauses.Embeds sub) (h : clauses.code = .ok code) :
    ∃ inner, sub = .ok inner ∧ Within inner code := by
  obtain ⟨declarations, change, hdeclarations, hchange, rfl⟩ := code_eq_ok h
  rcases embeds.within_verbCode hchange with ⟨table, member, body⟩ | ⟨inner, hinner, hwithin⟩
  · obtain ⟨inner, hinner, hwithin⟩ := within_declarations member body hdeclarations
    exact ⟨inner, hinner, hwithin.append_right change⟩
  · exact ⟨inner, hinner, hwithin.append_left declarations⟩

end Clauses

namespace Statement

/-- The code of an embedded query stands within the code of the statement. -/
theorem within_code {outer sub : Statement} (embeds : outer.clauses.Embeds sub) {code : Code}
    (h : outer.code = .ok code) : ∃ inner, sub.code = .ok inner ∧ Within inner code := by
  obtain ⟨clauses⟩ := outer
  rw [Statement.code, fold] at h
  exact (embeds_foldClauses Clauses.code embeds).within_code h

end Statement

/-! ## Queries -/

namespace Query

/-- Writes a query behind a text and behind the values bound in it. -/
def writeTo (query : Query) (text : String) (parameters : Parameters) :
    Except Error (String × Parameters) := do
  let (written, bound) := parameters.print (← query.statement.code)
  return (text ++ written, bound)

/-- Behind a text and its values a query is written exactly if it can be written alone, and then
what is written is what it is alone, with the number of every placeholder raised by the number of
values bound before, and with its values behind them. In particular this is how it stands in every
statement that embeds it, whatever else the statement says. -/
theorem writeTo_eq_renumbered {supplied : Fragment → Prop} {query : Query}
    (reached : query.Reachable supplied)
    (plain : ∀ mention ∈ query.statement.mentions, mention.Plain) :
    (∀ text parameters, query.writeTo text parameters = query.compile.map fun sql ↦
      (text ++ renumbered parameters.values.length sql.text,
        ⟨parameters.values ++ sql.values⟩)) ∧
    ∀ (outer : Query) (sql : CompiledSql), outer.statement.clauses.Embeds query.statement →
      outer.compile = .ok sql → ∃ own before after earlier later, query.compile = .ok own ∧
        sql.text = before ++ renumbered earlier.length own.text ++ after ∧
        sql.values = earlier ++ own.values ++ later := by
  have hprint {code : Code} (hcode : query.statement.code = .ok code) (offset : Nat) :
      renumbered offset (Code.print 0 code) = Code.print offset code := by
    have hshifted := ((reached.checked.spelled code hcode).shifts plain).print_eq offset 0
    rw [renumbered, hshifted, String.ofList_toList, Nat.add_zero]
  constructor
  · intro text parameters
    unfold writeTo compile Statement.compile
    cases hcode : query.statement.code with
    | error failure => rfl
    | ok code =>
      have hown := hprint hcode parameters.values.length
      simp only [Except.map, Code.compile, hown]
      rfl
  · intro outer sql embeds compiled
    obtain ⟨code, hcode, rfl⟩ := map_eq_ok.1 compiled
    obtain ⟨inner, hinner, hwithin⟩ := Statement.within_code embeds hcode
    obtain ⟨before, after, earlier, later, htext, hvalues⟩ := hwithin.exists_print 0
    refine ⟨inner.compile, before, after, earlier, later, map_eq_ok.2 ⟨inner, hinner, rfl⟩, ?_,
      hvalues⟩
    rw [Nat.zero_add] at htext
    rw [Code.compile, Code.compile, hprint hinner]
    exact htext

def adults : Query :=
  (Query.ofTable (.named "user")).filter
    (.compare ⟨none, "age"⟩ .gt (.term (.literal (.int 18))))

def ordersOfAdults : Query :=
  ((Query.ofTable (.named "order")).filter
      (.compare ⟨none, "state"⟩ .equals (.term (.literal (.text "open"))))).filter
    (.compare ⟨none, "user_id"⟩ .in (.query adults.statement))

theorem reachable_adults : adults.Reachable fun _ ↦ True := by
  have hstart : (Query.ofTable (.named "user")).Reachable fun _ ↦ True := .ofTable _ none none
  exact @Reachable.call _ _ _ (.filter (.compare ⟨none, "age"⟩ .gt (.term (.literal (.int 18)))))
    (fun _ ↦ False) hstart trivial (by simp) rfl

theorem plain_adults : ∀ mention ∈ adults.statement.mentions, mention.Plain := by
  have hmentions : adults.statement.mentions =
      [.name "user", .name "user", .name "user", .name "age", .value (.int 18)] := rfl
  rw [hmentions]
  simp only [List.forall_mem_cons, Mention.Plain]
  exact ⟨by decide, by decide, by decide, by decide, trivial, by simp⟩

/-- Behind one value, that of an outer query for instance, the age is compared with the second. -/
theorem writeTo_adults :
    adults.writeTo "EXISTS " ⟨[.text "open"]⟩ =
        .ok ("EXISTS SELECT \"user\".* FROM \"user\" WHERE \"user\".\"age\" > $2",
          ⟨[.text "open", .int 18]⟩) ∧
      ∃ sql before after, ordersOfAdults.compile = .ok sql ∧ sql.text = before ++
        "SELECT \"user\".* FROM \"user\" WHERE \"user\".\"age\" > $2" ++ after := by
  have hprint : Code.print 0 [.word "SELECT ", .name "user", .word ".*", .word " FROM ",
      .name "user", .word " WHERE ", .name "user", .word ".", .name "age", .word " ", .word ">",
      .word " ", .bind (.int 18)] =
        "SELECT \"user\".* FROM \"user\" WHERE \"user\".\"age\" > $1" := by decide +kernel
  have hown : adults.compile = .ok
      ⟨"SELECT \"user\".* FROM \"user\" WHERE \"user\".\"age\" > $1", [.int 18]⟩ := by
    rw [← hprint]
    rfl
  have hrenumbered : renumbered 1
      "SELECT \"user\".* FROM \"user\" WHERE \"user\".\"age\" > $1" =
        "SELECT \"user\".* FROM \"user\" WHERE \"user\".\"age\" > $2" := by decide +kernel
  obtain ⟨hwritten, hembedded⟩ := writeTo_eq_renumbered reachable_adults plain_adults
  constructor
  · rw [hwritten, hown]
    have hjoined : "EXISTS " ++ "SELECT \"user\".* FROM \"user\" WHERE \"user\".\"age\" > $2" =
        "EXISTS SELECT \"user\".* FROM \"user\" WHERE \"user\".\"age\" > $2" := by decide +kernel
    rw [Except.map, List.length_singleton, hrenumbered, hjoined]
    rfl
  · have hplace : ordersOfAdults.statement.clauses.Embeds adults.statement :=
      .filter rfl (.any List.mem_cons_self
        (.every (List.mem_cons_of_mem _ List.mem_cons_self) .compare))
    obtain ⟨code, hcode, hvalues⟩ : ∃ code, ordersOfAdults.statement.code = .ok code ∧
        Code.values code = [.text "open", .int 18] := ⟨_, rfl, rfl⟩
    have houter : ordersOfAdults.compile = .ok code.compile :=
      congrArg (Except.map Code.compile) hcode
    obtain ⟨own, before, after, earlier, later, hcompiled, htext, hbound⟩ :=
      hembedded ordersOfAdults _ hplace houter
    have hsame := Except.ok.inj (hown.symm.trans hcompiled)
    rw [← hsame] at htext hbound
    have hfirst : earlier.length = 1 := by
      have hlist : [.text "open", .int 18] = earlier ++ [.int 18] ++ later :=
        hvalues.symm.trans hbound
      cases earlier with
      | nil => simp at hlist
      | cons first rest =>
        cases rest with
        | nil => rfl
        | cons second others => simp at hlist
    rw [hfirst, hrenumbered] at htext
    exact ⟨_, before, after, houter, htext⟩

end Query

end SqlComposer
