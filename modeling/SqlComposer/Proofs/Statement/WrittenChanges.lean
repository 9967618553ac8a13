import SqlComposer.Proofs.Code.CodeWithin
import SqlComposer.Statement

/-!
# Parts of written changes

What an update or a deletion went through when it came to code: it was guarded, and its code is what
it does to the rows, followed by what restricts the rows.
-/

namespace SqlComposer

/-- ` WHERE` and conditions that all have to hold; nothing for none. -/
def Code.restriction (conditions : List Code) : Code :=
  if conditions.isEmpty then [] else .word " WHERE " :: separated " AND " conditions

/-- Every condition stands in the restriction. -/
theorem Code.infix_restriction {conditions : List Code} {condition : Code}
    (h : condition ∈ conditions) : condition <:+: restriction conditions := by
  have hsome : ¬conditions.isEmpty := by
    rw [List.isEmpty_iff]
    exact List.ne_nil_of_mem h
  rw [restriction, if_neg hsome]
  exact (Code.infix_separated " AND " h).trans (List.suffix_cons _ _).isInfix

theorem Code.restriction_single (condition : Code) :
    restriction [condition] = .word " WHERE " :: condition := by
  simp [restriction, separated, List.intercalate]

/-- A conjunct is written exactly if the formula is not empty. -/
theorem Formula.conjunct?_eq_some {formula : Formula} {layout : Layout}
    (h : formula.layout = some layout) : formula.conjunct? = some layout.conjunct := by
  rw [conjunct?, h]
  rfl

namespace Clauses

variable {clauses : Clauses Written} {table : Table} {code : Code}

theorem checkGuarded_eq_ok {action : String} {done : Unit} :
    clauses.checkGuarded action = .ok done ↔ clauses.isGuarded := by
  unfold checkGuarded
  split <;> simp_all

theorem requireTable_eq_ok {Sub : Type} {clauses : Clauses Sub} {purpose : String} :
    clauses.requireTable purpose = .ok table ↔ clauses.table = some table := by
  unfold requireTable
  split <;> simp_all

/-- The tables that a deletion reads from besides its own. -/
def usingCode (targets : List Code) : Code :=
  if targets.isEmpty then [] else .word " USING " :: Code.separated ", " targets

/-- The condition of a filter, alone or joined to others. -/
def restricting (joined : Bool) (formula : Formula) : List Code :=
  (if joined then formula.conjunct? else formula.code?).toList

theorem filterCode_eq_ok (h : clauses.filterCode = .ok code) :
    ∃ formula, clauses.filter.formula clauses.qualifier = .ok formula ∧
      code = Code.restriction (restricting false formula) := by
  simp only [filterCode, Filter.code?, Condition.code?, bind_assoc, pure_bind, bind_eq_ok] at h
  obtain ⟨formula, hformula, h⟩ := h
  refine ⟨formula, hformula, ?_⟩
  cases hcode : formula.code? with
  | none =>
    rw [hcode] at h
    rw [← pure_eq_ok.1 h]
    simp [restricting, hcode, Code.restriction]
  | some condition =>
    rw [hcode] at h
    rw [← pure_eq_ok.1 h]
    simp [restricting, hcode, Code.restriction_single]

/-- An update is written only with a condition or the consent to do without. -/
theorem updateCode_eq_ok {assignments : List Assignment}
    (h : clauses.updateCode table assignments = .ok code) :
    clauses.isGuarded ∧ ∃ values formula,
      Assignment.listCode assignments table.updatedAt = .ok values ∧
        clauses.filter.formula clauses.qualifier = .ok formula ∧
        code = (.word "UPDATE " :: clauses.targetCode table ++ .word " SET " :: values) ++
          Code.restriction (restricting false formula) := by
  simp only [updateCode, bind_eq_ok, refusing_eq_ok, pure_eq_ok] at h
  obtain ⟨_, hguarded, _, values, hvalues, filter, hfilter, rfl⟩ := h
  obtain ⟨formula, hformula, rfl⟩ := filterCode_eq_ok hfilter
  exact ⟨checkGuarded_eq_ok.1 hguarded, values, formula, hvalues, hformula, rfl⟩

/-- A delete is written only with a condition or the consent to do without. -/
theorem deleteCode_eq_ok (h : clauses.deleteCode table = .ok code) :
    clauses.isGuarded ∧ ∃ targets formula conditions,
      clauses.joins.mapM (fun join ↦ join.target.code) = .ok targets ∧
        clauses.filter.formula clauses.qualifier = .ok formula ∧
        clauses.joins.mapM (fun join ↦ join.condition.conjunct? join.qualifier) =
          .ok conditions ∧
        code = (.word "DELETE FROM " :: clauses.targetCode table ++ usingCode targets) ++
          Code.restriction (restricting (!clauses.joins.isEmpty) formula ++
            conditions.filterMap id) := by
  simp only [deleteCode, bind_eq_ok] at h
  obtain ⟨_, hguarded, targets, htargets, h⟩ := h
  refine ⟨checkGuarded_eq_ok.1 hguarded, targets, ?_⟩
  split at h
  · rename_i halone
    simp only [Filter.code?, Condition.code?, bind_assoc, pure_bind, bind_eq_ok, pure_eq_ok] at h
    obtain ⟨formula, hformula, conditions, hconditions, rfl⟩ := h
    refine ⟨formula, conditions, htargets, hformula, hconditions, ?_⟩
    simp only [halone, restricting]
    rfl
  · rename_i hjoined
    simp only [Filter.conjunct?, Condition.conjunct?, bind_assoc, pure_bind, bind_eq_ok,
      pure_eq_ok] at h
    obtain ⟨formula, hformula, conditions, hconditions, rfl⟩ := h
    refine ⟨formula, conditions, htargets, hformula, hconditions, ?_⟩
    simp only [hjoined, restricting]
    rfl

/-- What restricts the rows of a change covers the whole filter. -/
theorem exists_restricting (joined : Bool) {formula : Formula} {layout : Layout}
    (h : formula.layout = some layout) :
    ∃ condition ∈ restricting joined formula, layout.code <:+: condition := by
  cases joined with
  | false => exact ⟨layout.code, by simp [restricting, Formula.code?, h], List.infix_rfl⟩
  | true =>
    refine ⟨layout.conjunct, ?_, layout.infix_within .and⟩
    simp [restricting, Formula.conjunct?_eq_some h]

/-- The code of a statement is that of what it does behind the declared tables. -/
theorem code_eq_ok (h : clauses.code = .ok code) :
    ∃ declarations change, CommonTable.declarations clauses.commonTables = .ok declarations ∧
      clauses.verbCode = .ok change ∧ code = declarations ++ change := by
  simp only [Clauses.code, bind_eq_ok, pure_eq_ok] at h
  obtain ⟨declarations, hdeclarations, change, hchange, rfl⟩ := h
  exact ⟨declarations, change, hdeclarations, hchange, rfl⟩

/-- An insertion writes its rows and what it hands back. -/
theorem insert_eq_ok {insertion : Insertion Written} (verb : clauses.verb = .insert insertion)
    (h : clauses.verbCode = .ok code) :
    ∃ table change returning, clauses.table = some table ∧
      insertion.code (clauses.targetCode table) clauses.filter clauses.qualifier = .ok change ∧
      clauses.returningCode = .ok returning ∧ code = change ++ returning := by
  simp only [verbCode, verb, bind_eq_ok, pure_eq_ok] at h
  obtain ⟨table, htable, change, hchange, returning, hreturning, rfl⟩ := h
  exact ⟨table, change, returning, requireTable_eq_ok.1 htable, hchange, hreturning, rfl⟩

/-- An update writes its assignments and what it hands back. -/
theorem update_eq_ok {assignments : List Assignment} (verb : clauses.verb = .update assignments)
    (h : clauses.verbCode = .ok code) :
    ∃ table change returning, clauses.table = some table ∧
      clauses.updateCode table assignments = .ok change ∧
      clauses.returningCode = .ok returning ∧ code = change ++ returning := by
  simp only [verbCode, verb, bind_eq_ok, pure_eq_ok] at h
  obtain ⟨table, htable, change, hchange, returning, hreturning, rfl⟩ := h
  exact ⟨table, change, returning, requireTable_eq_ok.1 htable, hchange, hreturning, rfl⟩

/-- A delete writes its sources and what it hands back. -/
theorem delete_eq_ok (verb : clauses.verb = .delete) (h : clauses.verbCode = .ok code) :
    ∃ table change returning, clauses.table = some table ∧
      clauses.deleteCode table = .ok change ∧
      clauses.returningCode = .ok returning ∧ code = change ++ returning := by
  simp only [verbCode, verb, bind_eq_ok, pure_eq_ok] at h
  obtain ⟨table, htable, change, hchange, returning, hreturning, rfl⟩ := h
  exact ⟨table, change, returning, requireTable_eq_ok.1 htable, hchange, hreturning, rfl⟩

end Clauses

end SqlComposer
