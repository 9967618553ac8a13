import SqlComposer.Proofs.Code.EmbeddedQueries
import SqlComposer.Proofs.Statement.CheckedStatements

/-!
# What folding keeps

Folding a statement keeps all clauses in which no statement stands, and the places of those that do.
So the folded clauses are checked as the clauses were, and what stands in them is what became of a
statement in the same place.
-/

namespace SqlComposer

namespace Statement

variable {Result : Type} (step : Clauses Result → Result) {raw : Fragment → Prop}
  {inner : Statement → Prop} {other : Result → Prop}

theorem body_foldCommonTable (declared : CommonTable Statement) :
    (foldCommonTable step declared).body = foldBody step declared.body := by
  cases declared
  rfl

theorem operand_foldCombination (combination : Combination Statement) :
    (foldCombination step combination).operand = foldBody step combination.operand := by
  cases combination
  rfl

/-! ## Checked clauses -/

/-- Folding the embedded statements keeps an operand checked. -/
theorem checked_foldComparand (h : ∀ sub, inner sub → other (fold step sub))
    {operand : Comparand Statement} (checked : operand.Checked raw inner) :
    (foldComparand step operand).Checked raw other := by
  cases operand with
  | query sub => exact h sub checked
  | term | list | range => exact checked

mutual

/-- Folding the embedded statements keeps a condition checked. -/
theorem checked_foldCondition (h : ∀ sub, inner sub → other (fold step sub))
    (condition : Condition Statement) (checked : condition.Checked raw inner) :
    (foldCondition step condition).Checked raw other :=
  match condition, checked with
  | .compare _ _ _, checked => checked_foldComparand step h checked
  | .every conditions, checked | .any conditions, checked =>
    checked_foldConditions h conditions checked
  | .not condition, checked => checked_foldCondition h condition checked
  | .hasRow sub, checked => h sub checked
  | .raw _, checked => checked
  | .aggregate call _ _, checked =>
    ⟨checked_foldCall h call checked.1, checked_foldComparand step h checked.2⟩

theorem checked_foldConditions (h : ∀ sub, inner sub → other (fold step sub))
    (conditions : List (Condition Statement))
    (checked : Condition.CheckedAll raw inner conditions) :
    Condition.CheckedAll raw other (foldConditions step conditions) :=
  match conditions, checked with
  | [], _ => trivial
  | condition :: rest, checked =>
    ⟨checked_foldCondition h condition checked.1, checked_foldConditions h rest checked.2⟩

theorem checked_foldGroups (h : ∀ sub, inner sub → other (fold step sub))
    (groups : List (List (Condition Statement))) (checked : Condition.CheckedIn raw inner groups) :
    Condition.CheckedIn raw other (foldGroups step groups) :=
  match groups, checked with
  | [], _ => trivial
  | group :: rest, checked =>
    ⟨checked_foldConditions h group checked.1, checked_foldGroups h rest checked.2⟩

theorem checked_foldCall (h : ∀ sub, inner sub → other (fold step sub))
    (call : AggregateCall Statement) (checked : call.Checked raw inner) :
    (foldCall step call).Checked raw other :=
  match call, checked with
  | ⟨_, _, _, _, _, ⟨groups⟩⟩, checked =>
    ⟨checked.1, checked.2.1, checked_foldGroups h groups checked.2.2⟩

end

theorem checked_foldFilter (h : ∀ sub, inner sub → other (fold step sub))
    {filter : Filter Statement} (checked : filter.Checked raw inner) :
    (foldFilter step filter).Checked raw other := by
  obtain ⟨groups⟩ := filter
  exact checked_foldGroups step h groups checked

theorem checked_foldBody (h : ∀ sub, inner sub → other (fold step sub)) {body : Body Statement}
    (checked : body.Checked raw inner) : (foldBody step body).Checked raw other := by
  cases body with
  | query sub => exact h sub checked
  | raw fragment => exact checked

theorem checked_foldVerb (h : ∀ sub, inner sub → other (fold step sub)) {verb : Verb Statement}
    (checked : verb.Checked raw inner) : (foldVerb step verb).Checked raw other := by
  match verb with
  | .insert ⟨_, .query sub, _⟩ => exact ⟨h sub checked.1, checked.2⟩
  | .insert ⟨_, .rows _, _⟩ | .insert ⟨_, .raw _, _⟩ => exact checked
  | .select | .update _ | .delete | .truncate _ | .copy _ | .describe _ => exact checked

/-- Clauses stay checked if what replaces their statements has the property asked for. -/
theorem checked_foldClauses (h : ∀ sub, inner sub → other (fold step sub))
    {clauses : Clauses Statement} (checked : clauses.Checked raw inner) :
    (foldClauses step clauses).Checked raw other where
  source := by
    rw [source_fold]
    have hsource := checked.source
    cases hown : clauses.source with
    | table => trivial
    | body body =>
      rw [hown] at hsource
      exact checked_foldBody step h hsource
  verb := by
    rw [verb_fold]
    exact checked_foldVerb step h checked.verb
  selection := by
    rw [selection_fold, List.forall_mem_map]
    intro item hitem
    have hexpression := checked.selection item hitem
    obtain ⟨expression, label⟩ := item
    cases expression with
    | query sub => exact h sub hexpression
    | column | raw | json | term | count | window => exact hexpression
  joins := by
    rw [joins_fold, List.forall_mem_map]
    intro join hjoin
    obtain ⟨htarget, hcondition⟩ := checked.joins join hjoin
    obtain ⟨kind, target, condition⟩ := join
    refine ⟨?_, checked_foldCondition step h condition hcondition⟩
    cases target with
    | query sub label => exact h sub htarget
    | table name schema label => trivial
  filter := by
    rw [filter_fold]
    exact checked_foldFilter step h checked.filter
  groups := by
    rw [groups_fold]
    exact checked.groups
  having := by
    rw [having_fold]
    exact checked_foldFilter step h checked.having
  windows := by
    rw [windows_fold]
    exact checked.windows
  commonTables := by
    rw [commonTables_fold, List.forall_mem_map]
    intro declared hdeclared
    rw [body_foldCommonTable]
    exact checked_foldBody step h (checked.commonTables declared hdeclared)
  combinations := by
    rw [combinations_fold, List.forall_mem_map]
    intro combination hmember
    rw [operand_foldCombination]
    exact checked_foldBody step h (checked.combinations combination hmember)
  order := by
    rw [order_fold]
    exact checked.order
  lock := by
    rw [lock_fold]
    exact checked.lock
  defaults := by
    rw [foldClauses_eq]
    exact checked.defaults

/-! ## Places of statements -/

variable {result : Result}

/-- In a folded condition stands what became of the statements in the condition. -/
theorem exists_embeds_condition {condition : Condition Statement}
    (h : (foldCondition step condition).Embeds result) :
    ∃ sub, condition.Embeds sub ∧ fold step sub = result := by
  have hoperand {operand : Comparand Statement}
      (hfold : foldComparand step operand = .query result) :
      ∃ sub, operand = .query sub ∧ fold step sub = result := by
    cases operand with
    | query sub => exact ⟨sub, rfl, Comparand.query.inj hfold⟩
    | term | list | range => cases hfold
  generalize hfolded : foldCondition step condition = folded at h
  induction h generalizing condition with
  | compare =>
    cases condition with
    | compare column comparison operand =>
      obtain ⟨sub, rfl, hsub⟩ := hoperand (Condition.compare.inj hfolded).2.2
      exact ⟨sub, .compare, hsub⟩
    | _ => cases hfolded
  | every member _ ih =>
    cases condition with
    | every conditions =>
      rw [foldCondition, foldConditions_eq] at hfolded
      cases hfolded
      obtain ⟨inner, hinner, rfl⟩ := List.mem_map.1 member
      obtain ⟨sub, hembeds, hsub⟩ := ih rfl
      exact ⟨sub, .every hinner hembeds, hsub⟩
    | _ => cases hfolded
  | any member _ ih =>
    cases condition with
    | any conditions =>
      rw [foldCondition, foldConditions_eq] at hfolded
      cases hfolded
      obtain ⟨inner, hinner, rfl⟩ := List.mem_map.1 member
      obtain ⟨sub, hembeds, hsub⟩ := ih rfl
      exact ⟨sub, .any hinner hembeds, hsub⟩
    | _ => cases hfolded
  | not _ ih =>
    cases condition with
    | not inner =>
      cases hfolded
      obtain ⟨sub, hembeds, hsub⟩ := ih rfl
      exact ⟨sub, .not hembeds, hsub⟩
    | _ => cases hfolded
  | hasRow =>
    cases condition with
    | hasRow sub =>
      cases hfolded
      exact ⟨sub, .hasRow, rfl⟩
    | _ => cases hfolded
  | operand =>
    cases condition with
    | aggregate call comparison operand =>
      obtain ⟨sub, rfl, hsub⟩ := hoperand (Condition.aggregate.inj hfolded).2.2
      exact ⟨sub, .operand, hsub⟩
    | _ => cases hfolded
  | counted kept _ ih =>
    cases condition with
    | aggregate call comparison operand =>
      cases hfolded
      have hfilter : (foldCall step call).filter = foldFilter step call.filter := by
        cases call
        rfl
      obtain ⟨sub, hembeds, hsub⟩ := ih (by rw [hfilter, condition_foldFilter])
      refine ⟨sub, .counted ?_ hembeds, hsub⟩
      cases operand <;> exact kept
    | _ => cases hfolded

theorem exists_embeds_body {body : Body Statement} (h : foldBody step body = .query result) :
    ∃ sub, body = .query sub ∧ fold step sub = result := by
  cases body with
  | query sub => exact ⟨sub, rfl, Body.query.inj h⟩
  | raw fragment => cases h

/-- In folded clauses stands what became of the statements in the clauses. -/
theorem exists_embeds {clauses : Clauses Statement}
    (h : (foldClauses step clauses).Embeds result) :
    ∃ sub, clauses.Embeds sub ∧ fold step sub = result := by
  have hselects (verb : (foldClauses step clauses).verb = .select) : clauses.verb = .select := by
    rw [verb_fold] at verb
    cases hverb : clauses.verb with
    | select => rfl
    | _ => simp [hverb, foldVerb] at verb
  have hdeletes (verb : (foldClauses step clauses).verb = .delete) : clauses.verb = .delete := by
    rw [verb_fold] at verb
    cases hverb : clauses.verb with
    | delete => rfl
    | _ => simp [hverb, foldVerb] at verb
  have hhandles (verb : (foldClauses step clauses).verb.handlesRows) :
      clauses.verb.handlesRows := by rwa [verb_fold, handlesRows_foldVerb] at verb
  cases h with
  | declared member body =>
    rw [commonTables_fold] at member
    obtain ⟨declared, hmember, rfl⟩ := List.mem_map.1 member
    rw [body_foldCommonTable] at body
    obtain ⟨sub, hbody, hsub⟩ := exists_embeds_body step body
    exact ⟨sub, .declared hmember hbody, hsub⟩
  | selected verb member expression =>
    rw [selection_fold] at member
    obtain ⟨⟨own, label⟩, hmember, rfl⟩ := List.mem_map.1 member
    cases own with
    | query sub =>
      exact ⟨sub, .selected (hhandles verb) hmember rfl, SelectExpr.query.inj expression⟩
    | _ => cases expression
  | source verb source =>
    rw [source_fold] at source
    cases hsource : clauses.source with
    | table =>
      rw [hsource] at source
      cases source
    | body body =>
      rw [hsource] at source
      obtain ⟨sub, rfl, hsub⟩ := exists_embeds_body step (Source.body.inj source)
      exact ⟨sub, .source (hselects verb) hsource, hsub⟩
  | joined verb member target =>
    rw [joins_fold] at member
    obtain ⟨⟨kind, own, condition⟩, hmember, rfl⟩ := List.mem_map.1 member
    cases own with
    | query sub label =>
      exact ⟨sub, .joined (verb.imp hselects hdeletes) hmember rfl,
        (JoinTarget.query.inj target).1⟩
    | table => cases target
  | on verb member condition =>
    rw [joins_fold] at member
    obtain ⟨join, hmember, rfl⟩ := List.mem_map.1 member
    rw [condition_foldJoin] at condition
    rw [kind_foldJoin] at verb
    obtain ⟨sub, hembeds, hsub⟩ := exists_embeds_condition step condition
    exact ⟨sub, .on (verb.imp (fun h ↦ ⟨hselects h.1, h.2⟩) hdeletes) hmember hembeds, hsub⟩
  | filter verb condition =>
    rw [filter_fold, condition_foldFilter] at condition
    obtain ⟨sub, hembeds, hsub⟩ := exists_embeds_condition step condition
    exact ⟨sub, .filter (hhandles verb) hembeds, hsub⟩
  | having verb condition =>
    rw [having_fold, condition_foldFilter] at condition
    obtain ⟨sub, hembeds, hsub⟩ := exists_embeds_condition step condition
    exact ⟨sub, .having (hselects verb) hembeds, hsub⟩
  | combined verb member operand =>
    rw [combinations_fold] at member
    obtain ⟨combination, hmember, rfl⟩ := List.mem_map.1 member
    rw [operand_foldCombination] at operand
    obtain ⟨sub, hoperand, hsub⟩ := exists_embeds_body step operand
    exact ⟨sub, .combined (hselects verb) hmember hoperand, hsub⟩
  | rows verb source =>
    rw [verb_fold] at verb
    cases hverb : clauses.verb with
    | insert insertion =>
      rw [hverb] at verb
      obtain ⟨columns, own, conflict⟩ := insertion
      cases verb
      cases own with
      | query sub => exact ⟨sub, .rows hverb rfl, InsertSource.query.inj source⟩
      | _ => cases source
    | _ => simp [hverb, foldVerb] at verb

end Statement

end SqlComposer
