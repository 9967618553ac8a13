import SqlComposer.Proofs.Call.CallChains
import SqlComposer.Proofs.Code.EmbeddedQueries
import SqlComposer.Proofs.Condition.WrittenMeaning
import SqlComposer.Proofs.Statement.WrittenChanges

/-!
# Guarded changes

An update or a deletion that is written names its rows: every condition demanded in its chain that
is not empty stands in what restricts the rows. Without a restriction it was said that every row is
meant, or rows were selected by conditions that are all empty.
-/

namespace SqlComposer

/-! ## Written conditions -/

namespace Statement

variable {Result : Type} (step : Clauses Result → Result)

mutual

/-- Folding neither fills nor empties a condition. -/
theorem isEmpty_foldCondition (condition : Condition Statement) :
    (foldCondition step condition).isEmpty = condition.isEmpty := by
  cases condition with
  | every conditions | any conditions =>
    rw [foldCondition, Condition.isEmpty, Condition.isEmpty]
    exact allEmpty_foldConditions conditions
  | not condition =>
    rw [foldCondition, Condition.isEmpty, Condition.isEmpty]
    exact isEmpty_foldCondition condition
  | _ => rfl

theorem allEmpty_foldConditions (conditions : List (Condition Statement)) :
    Condition.allEmpty (foldConditions step conditions) = Condition.allEmpty conditions := by
  match conditions with
  | [] => rfl
  | condition :: rest =>
    rw [foldConditions, Condition.allEmpty, Condition.allEmpty, isEmpty_foldCondition condition,
      allEmpty_foldConditions rest]

end

@[simp]
theorem everyRow_fold (clauses : Clauses Statement) :
    (foldClauses step clauses).everyRow = clauses.everyRow := by
  rw [foldClauses_eq]

theorem isSet_foldFilter (filter : Filter Statement) :
    (foldFilter step filter).isSet = filter.isSet := by
  obtain ⟨groups⟩ := filter
  simp [foldFilter, Filter.isSet]

theorem members_foldFilter (filter : Filter Statement) :
    (foldFilter step filter).members = filter.members.map (foldCondition step) := by
  obtain ⟨groups⟩ := filter
  simp only [foldFilter, foldGroups_eq, Filter.members, List.map_flatten]

end Statement

/-- A formula is laid out exactly if its condition is not empty. -/
theorem Condition.layout_eq_none_iff {condition : Condition Written} {qualifier : Qualifier}
    {formula : Formula} (h : condition.formula qualifier = .ok formula) :
    formula.layout = none ↔ condition.isEmpty := by
  rw [Condition.layout_formula condition h, Option.map_eq_none_iff, ← Condition.prune_eq_none_iff]
  have hagrees := Condition.agrees_arrangement (fun _ ↦ .unknown) condition
  revert hagrees
  cases condition.arrangement <;> cases condition.prune <;> intro hagrees <;> cases hagrees <;> simp

/-- A written filter covers every condition added to it. -/
theorem Filter.covers {filter : Filter Written} {qualifier : Qualifier} {formula : Formula}
    (h : filter.formula qualifier = .ok formula) {condition : Condition Written}
    (member : condition ∈ filter.members) :
    ∃ part, condition.formula qualifier = .ok part ∧ formula.Covers part := by
  obtain ⟨group, hgroup, hcondition⟩ := List.mem_flatten.1 member
  simp only [Filter.formula, Filter.condition, Condition.formula, bind_eq_ok, pure_eq_ok] at h
  obtain ⟨groups, hgroups, rfl⟩ := h
  obtain ⟨written, hwritten, hevery⟩ :=
    Condition.exists_formula hgroups (List.mem_map_of_mem hgroup)
  simp only [Condition.formula, bind_eq_ok, pure_eq_ok] at hevery
  obtain ⟨parts, hparts, rfl⟩ := hevery
  obtain ⟨part, hpart, hformula⟩ := Condition.exists_formula hparts hcondition
  exact ⟨part, hformula, (Formula.covers_any hwritten).trans (Formula.covers_every hpart)⟩

/-- The code of a condition stands within one of several conditions. -/
def Condition.StandsAmong (condition : Condition Statement) (qualifier : Qualifier)
    (conditions : List Code) : Prop :=
  ∃ text, (Statement.foldCondition Clauses.code condition).code? qualifier = .ok (some text) ∧
    ∃ written ∈ conditions, text <:+: written

theorem Condition.standsAmong {condition : Condition Statement} {qualifier : Qualifier}
    {formula : Formula} {conditions : List Code}
    (written : (Statement.foldCondition Clauses.code condition).formula qualifier = .ok formula)
    (filled : condition.isEmpty = false)
    (covered : ∀ layout, formula.layout = some layout →
      ∃ written ∈ conditions, layout.code <:+: written) :
    condition.StandsAmong qualifier conditions := by
  cases hlayout : formula.layout with
  | none =>
    rw [layout_eq_none_iff written, Statement.isEmpty_foldCondition, filled] at hlayout
    exact absurd hlayout Bool.false_ne_true
  | some layout =>
    refine ⟨layout.code, ?_, covered layout hlayout⟩
    exact bind_eq_ok.2 ⟨formula, written, by rw [pure_eq_ok, Formula.code?, hlayout]; rfl⟩

/-! ## Updates and deletions -/

/-- Whether a statement changes existing rows. -/
def Verb.isChange {Sub : Type} : Verb Sub → Bool
  | .update _ | .delete => true
  | _ => false

namespace Clauses

/-- What an update or a deletion does, without what restricts the rows. -/
inductive Heads (clauses : Clauses Written) : Code → Prop
  | update {table : Table} {assignments : List Assignment} {values : Code}
      (verb : clauses.verb = .update assignments) (target : clauses.table = some table)
      (written : Assignment.listCode assignments table.updatedAt = .ok values) :
      Heads clauses (.word "UPDATE " :: clauses.targetCode table ++ .word " SET " :: values)
  | delete {table : Table} {targets : List Code} (verb : clauses.verb = .delete)
      (target : clauses.table = some table)
      (written : clauses.joins.mapM (fun join ↦ join.target.code) = .ok targets) :
      Heads clauses (.word "DELETE FROM " :: clauses.targetCode table ++ usingCode targets)

/-- The conditions under which rows are changed: the filter and, in a deletion, what is joined. -/
def restrictions (clauses : Clauses Statement) : List (Condition Statement × Qualifier) :=
  clauses.filter.members.map (·, clauses.qualifier) ++
    match clauses.verb with
    | .delete => clauses.joins.map fun join ↦ (join.condition, join.qualifier)
    | _ => []

/-- Every condition of a filter that is not empty is written. -/
theorem standsAmong_restricting {filter : Filter Statement} {qualifier : Qualifier}
    {formula : Formula}
    (h : (Statement.foldFilter Clauses.code filter).formula qualifier = .ok formula)
    {condition : Condition Statement} (member : condition ∈ filter.members)
    (filled : condition.isEmpty = false) (joined : Bool) (others : List Code) :
    condition.StandsAmong qualifier (restricting joined formula ++ others) := by
  have hmember : Statement.foldCondition Clauses.code condition ∈
      (Statement.foldFilter Clauses.code filter).members := by
    rw [Statement.members_foldFilter]
    exact List.mem_map_of_mem member
  obtain ⟨part, hpart, hcovers⟩ := Filter.covers h hmember
  refine Condition.standsAmong hpart filled fun layout hlayout ↦ ?_
  obtain ⟨outer, houter, hcode⟩ := hcovers layout hlayout
  obtain ⟨written, hwritten, hcondition⟩ := exists_restricting joined houter
  exact ⟨written, List.mem_append_left others hwritten, hcode.trans hcondition⟩

/-- Every condition of a joined table that is not empty is written. -/
theorem standsAmong_conjuncts {joins : List (Join Statement)} {conditions : List (Option Code)}
    (h : (joins.map (Statement.foldJoin Clauses.code)).mapM
      (fun join ↦ join.condition.conjunct? join.qualifier) = .ok conditions)
    {join : Join Statement} (member : join ∈ joins) (filled : join.condition.isEmpty = false)
    (others : List Code) :
    join.condition.StandsAmong join.qualifier (others ++ conditions.filterMap id) := by
  obtain ⟨written, hwritten, hconjunct⟩ := exists_result_of_mem h (List.mem_map_of_mem member)
  have hqualifier : (Statement.foldJoin Clauses.code join).qualifier = join.qualifier := by
    rw [Join.qualifier, Statement.target_foldJoin, Statement.aliasName_foldTarget, Join.qualifier]
  rw [Statement.condition_foldJoin, hqualifier] at hconjunct
  simp only [Condition.conjunct?, bind_eq_ok, pure_eq_ok] at hconjunct
  obtain ⟨formula, hformula, rfl⟩ := hconjunct
  refine Condition.standsAmong hformula filled fun layout hlayout ↦ ?_
  have hmember : layout.conjunct ∈ others ++ conditions.filterMap id :=
    List.mem_append_right _
      (List.mem_filterMap.2 ⟨_, hwritten, Formula.conjunct?_eq_some hlayout⟩)
  exact ⟨layout.conjunct, hmember, layout.infix_within .and⟩

/-- A written change is guarded, and every condition on its rows that is not empty stands in what
restricts the rows. -/
theorem exists_restriction {clauses : Clauses Statement} (change : clauses.verb.isChange)
    {code : Code}
    (h : (Statement.foldClauses Clauses.code clauses).code = .ok code) :
    clauses.isGuarded ∧ ∃ declarations head conditions returning,
      (Statement.foldClauses Clauses.code clauses).Heads head ∧
        code = declarations ++ head ++ Code.restriction conditions ++ returning ∧
        ∀ restriction ∈ clauses.restrictions, restriction.1.isEmpty = false →
          restriction.1.StandsAmong restriction.2 conditions := by
  obtain ⟨declarations, written, _, hwritten, rfl⟩ := code_eq_ok h
  have hguarded (h : (Statement.foldClauses Clauses.code clauses).isGuarded) :
      clauses.isGuarded := by
    rwa [isGuarded, Statement.everyRow_fold, Statement.filter_fold, Statement.isSet_foldFilter] at h
  have hqualifier : (Statement.foldClauses Clauses.code clauses).qualifier = clauses.qualifier :=
    Statement.qualifier_fold Clauses.code clauses
  match hverb : clauses.verb with
  | .update assignments =>
    have hfolded : (Statement.foldClauses Clauses.code clauses).verb = .update assignments := by
      rw [Statement.verb_fold, hverb, Statement.foldVerb]
    obtain ⟨table, change, returning, htable, hchange, _, rfl⟩ := update_eq_ok hfolded hwritten
    obtain ⟨guarded, values, formula, hvalues, hformula, rfl⟩ := updateCode_eq_ok hchange
    refine ⟨hguarded guarded, declarations, _, restricting false formula, returning,
      .update hfolded htable hvalues, by simp only [List.append_assoc], ?_⟩
    intro restriction member filled
    simp only [restrictions, hverb, List.append_nil, List.mem_map] at member
    obtain ⟨condition, hmember, rfl⟩ := member
    rw [Statement.filter_fold, hqualifier] at hformula
    simpa using standsAmong_restricting hformula hmember filled false []
  | .delete =>
    have hfolded : (Statement.foldClauses Clauses.code clauses).verb = .delete := by
      rw [Statement.verb_fold, hverb, Statement.foldVerb]
    obtain ⟨table, change, returning, htable, hchange, _, rfl⟩ := delete_eq_ok hfolded hwritten
    obtain ⟨guarded, targets, formula, conditions, htargets, hformula, hconditions, rfl⟩ :=
      deleteCode_eq_ok hchange
    refine ⟨hguarded guarded, declarations, _,
      restricting (!(Statement.foldClauses Clauses.code clauses).joins.isEmpty) formula ++
        conditions.filterMap id,
      returning, .delete hfolded htable htargets, by simp only [List.append_assoc], ?_⟩
    intro restriction member filled
    simp only [restrictions, hverb, List.mem_append, List.mem_map] at member
    rw [Statement.filter_fold, hqualifier] at hformula
    rw [Statement.joins_fold] at hconditions
    rcases member with ⟨condition, hmember, rfl⟩ | ⟨join, hmember, rfl⟩
    · exact standsAmong_restricting hformula hmember filled _ _
    · exact standsAmong_conjuncts hconditions hmember filled _
  | .select | .insert _ | .truncate _ | .copy _ | .describe _ =>
    simp [hverb, Verb.isChange] at change

end Clauses

namespace Query

/-- An update or a deletion that compiles is written with every condition demanded in its chain, and
in a deletion with those of the joined tables, as far as they are not empty. If nothing restricts
the rows then the chain said that every row is meant or selected rows, and all these conditions are
empty. -/
theorem Chain.restricts {calls : List Call} {demanded : List (Condition Statement)} {query : Query}
    (chain : Chain calls demanded query) (change : query.clauses.verb.isChange) {sql : CompiledSql}
    (compiled : query.compile = .ok sql) :
    ∃ declarations head conditions returning,
      (Statement.foldClauses Clauses.code query.clauses).Heads head ∧
        sql = (declarations ++ head ++ Code.restriction conditions ++ returning : Code).compile ∧
        (∀ condition ∈ demanded, condition.isEmpty = false →
          condition.StandsAmong query.clauses.qualifier conditions) ∧
        (query.clauses.verb = .delete → ∀ join ∈ query.clauses.joins,
          join.condition.isEmpty = false →
            join.condition.StandsAmong join.qualifier conditions) ∧
        (conditions = [] →
          (.all ∈ calls ∨ ∃ call ∈ calls, call.selectsRows) ∧
            (∀ condition ∈ demanded, condition.isEmpty) ∧
            (query.clauses.verb = .delete → ∀ join ∈ query.clauses.joins,
              join.condition.isEmpty)) := by
  obtain ⟨code, hcode, rfl⟩ := map_eq_ok.1 compiled
  obtain ⟨guarded, declarations, head, conditions, returning, hhead, rfl, hrestricted⟩ :=
    Clauses.exists_restriction change hcode
  have hmay : query.clauses.verb.mayChange := by
    revert change
    cases query.clauses.verb <;> simp [Verb.isChange, Verb.mayChange]
  obtain ⟨hmembers, hevery, hselected⟩ := chain.knows hmay
  have hdemanded (condition) (hmember : condition ∈ demanded) (filled : condition.isEmpty = false) :
      condition.StandsAmong query.clauses.qualifier conditions := by
    refine hrestricted (condition, query.clauses.qualifier) ?_ filled
    rw [← hmembers] at hmember
    exact List.mem_append_left _ (List.mem_map_of_mem hmember)
  have hjoined (verb : query.clauses.verb = .delete) (join) (hmember : join ∈ query.clauses.joins)
      (filled : join.condition.isEmpty = false) :
      join.condition.StandsAmong join.qualifier conditions := by
    refine hrestricted (join.condition, join.qualifier) (List.mem_append_right _ ?_) filled
    rw [verb]
    exact List.mem_map_of_mem hmember
  refine ⟨declarations, head, conditions, returning, hhead, rfl, hdemanded, hjoined,
    fun absent ↦ ?_⟩
  have hnothing {condition : Condition Statement} {qualifier : Qualifier}
      (h : condition.isEmpty = false → condition.StandsAmong qualifier conditions) :
      condition.isEmpty := by
    by_contra hfilled
    obtain ⟨_, _, written, hwritten, _⟩ := h (Bool.eq_false_iff.2 hfilled)
    simp [absent] at hwritten
  refine ⟨?_, fun condition hmember ↦ hnothing (hdemanded condition hmember),
    fun verb join hmember ↦ hnothing (hjoined verb join hmember)⟩
  rw [Clauses.isGuarded, Bool.or_eq_true] at guarded
  exact guarded.imp hevery hselected

def underAge : Condition Statement :=
  .compare ⟨none, "age"⟩ .lt (.term (.literal (.int 18)))

def deleteUnderAge : Query :=
  ⟨{ Clauses.ofTable (.named "user") with filter := ⟨[[underAge]]⟩, verb := .delete }, none, none⟩

theorem chain_deleteUnderAge : Chain [.filter underAge, .delete] [underAge] deleteUnderAge := by
  have hstart : Chain [] [] (ofTable (.named "user")) := .ofTable _ none none
  have hfiltered :
      Chain [.filter underAge] [underAge] ((ofTable (.named "user")).filter underAge) :=
    @Chain.call _ _ _ _ (.filter underAge) hstart rfl rfl
  exact @Chain.call _ _ _ _ .delete hfiltered rfl rfl

/-- The age is compared in what restricts the deletion. -/
theorem Chain.restricts_deleteUnderAge :
    ∃ sql declarations head conditions returning, deleteUnderAge.compile = .ok sql ∧
      sql = (declarations ++ head ++ Code.restriction conditions ++ returning : Code).compile ∧
      underAge.StandsAmong (some (.name "user")) conditions := by
  have hcode : deleteUnderAge.statement.code = .ok [.word "DELETE FROM ", .name "user",
      .word " WHERE ", .name "user", .word ".", .name "age", .word " ", .word "<", .word " ",
      .bind (.int 18)] := rfl
  have hcompiled := congrArg (Except.map Code.compile) hcode
  obtain ⟨declarations, head, conditions, returning, _, hsql, hdemanded, _⟩ :=
    chain_deleteUnderAge.restricts rfl hcompiled
  exact ⟨_, declarations, head, conditions, returning, hcompiled, hsql,
    hdemanded underAge List.mem_cons_self rfl⟩

end Query

end SqlComposer
