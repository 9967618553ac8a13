import SqlComposer.Proofs.Execution.CommitLedgers
import SqlComposer.Proofs.Execution.HookOrder
import SqlComposer.Proofs.Nested.WriteTrees

/-!
# What is committed when hooks are called

The hooks after a query are called when all statements of the run have succeeded and its own scope
is closed. Outside a transaction everything is committed by then. A run that opens its own
transaction around the query commits only behind these hooks, so they see a write that is not
committed yet, and a failure of the commit comes too late for them.
-/

namespace SqlComposer

namespace Script

/-! ## Scripts that settle -/

/-- However a script is played, it controls no transaction and calls no hook behind a query, and it
ends with a value only if every statement succeeded. -/
def Settles {α : Type} (script : Script α) : Prop :=
  ∀ (σ : Type) (surroundings : Surroundings σ) (memory : σ),
    (∀ step ∈ script.steps surroundings memory, step.Inner) ∧
      ∀ value, (script.run surroundings memory).result = .ok value →
        ∀ step ∈ script.steps surroundings memory, ¬step.Failed

theorem composes_settles : Composes fun _ script ↦ script.Settles where
  done _ _ _ _ := by simp [steps]
  fail _ _ _ _ := by simp [steps]
  bind {_ _ script next} first rest σ surroundings memory := by
    obtain ⟨hinner, hsucceeded⟩ := first σ surroundings memory
    rw [run_bind, steps_bind]
    cases hresult : (script.run surroundings memory).result with
    | error error => simpa [Played.followed_error hresult] using hinner
    | ok value =>
      obtain ⟨hbehind, hlast⟩ := rest value σ surroundings (script.run surroundings memory).memory
      rw [Played.followed_ok hresult]
      refine ⟨List.forall_mem_append.2 ⟨hinner, hbehind⟩, fun last hends ↦ ?_⟩
      exact List.forall_mem_append.2 ⟨hsucceeded value hresult, hlast last hends⟩

theorem settles_callAll {hooks : List HookCall}
    (early : ∀ hook ∈ hooks, hook.moment.isAfter = false) : (callAll hooks).Settles := by
  have hcalls : (callAll hooks).Obeys fun steps ↦ ∀ step ∈ steps, step.Inner ∧ ¬step.Failed :=
    obeys_callAll (by simp) fun hook hmem verdict rest hrest ↦
      List.forall_mem_cons.2 ⟨⟨early hook hmem, id⟩, hrest⟩
  exact fun σ surroundings memory ↦ ⟨fun step h ↦ (hcalls σ surroundings memory step h).1,
    fun _ _ step h ↦ (hcalls σ surroundings memory step h).2⟩

end Script

namespace Query

open Script

variable {σ : Type} {surroundings : Surroundings σ} {query : Query} {outcome : Outcome} {memory : σ}

/-! ## The statements of a query -/

theorem early_hooksBefore : ∀ hook ∈ query.hooksBefore, hook.moment.isAfter = false := by
  unfold hooksBefore
  intro hook hmem
  split at hmem
  · obtain ⟨name, -, rfl⟩ := List.mem_map.1 hmem
    rfl
  · obtain ⟨name, -, rfl⟩ := List.mem_map.1 hmem
    rfl
  · cases hmem

/-- A hook behind a query is told this query and its output, by a moment that fits the query. -/
structure Told (query : Query) (output : Output) (hook : HookCall) : Prop where
  same : hook.query = query
  output : hook.output = some output
  updates : hook.moment = .afterUpdate → ∃ assignments, query.clauses.verb = .update assignments

theorem told_hooksAfter {output : Output} :
    ∀ hook ∈ query.hooksAfter output, query.Told output hook := by
  unfold hooksAfter
  intro hook hmem
  split at hmem
  · obtain ⟨name, -, rfl⟩ := List.mem_map.1 hmem
    exact ⟨rfl, rfl, nofun⟩
  · rename_i assignments hverb
    obtain ⟨name, -, rfl⟩ := List.mem_map.1 hmem
    exact ⟨rfl, rfl, fun _ ↦ ⟨assignments, hverb⟩⟩
  · cases hmem

/-- Sending content and going on with what settles settles. -/
theorem settles_send_bind {α : Type} {sql : String} {values : List Literal}
    {next : RowSet → Script α} (content : ¬ControlsTransaction sql)
    (rest : ∀ rows, (next rows).Settles) :
    ((query.send sql values).bind fun reply ↦ (ofExcept reply).bind next).Settles := by
  intro σ surroundings memory
  obtain ⟨logs, hlogs, hsteps⟩ := steps_send_bind surroundings query sql values
    (fun reply ↦ (ofExcept reply).bind next) memory
  have hlogged : ∀ step ∈ logs, step.Inner ∧ ¬step.Failed := fun step hmem ↦ by
    obtain ⟨event, rfl⟩ := hlogs step hmem
    exact ⟨trivial, id⟩
  rw [hsteps, result_send_bind]
  cases (surroundings.send memory sql values).1 with
  | error error =>
    exact ⟨List.forall_mem_cons.2 ⟨content, List.forall_mem_append.2
      ⟨fun step hmem ↦ (hlogged step hmem).1, fun _ hmem ↦ absurd hmem List.not_mem_nil⟩⟩, nofun⟩
  | ok rows =>
    obtain ⟨hinner, hsucceeded⟩ := rest rows σ surroundings (surroundings.send memory sql values).2
    refine ⟨List.forall_mem_cons.2 ⟨content, List.forall_mem_append.2
      ⟨fun step hmem ↦ (hlogged step hmem).1, hinner⟩⟩, fun value hends ↦ ?_⟩
    exact List.forall_mem_cons.2 ⟨id, List.forall_mem_append.2
      ⟨fun step hmem ↦ (hlogged step hmem).2, hsucceeded value hends⟩⟩

theorem settles_sendStatement (query : Query) : query.sendStatement.Settles := by
  rw [sendStatement_eq]
  cases hsql : query.compile with
  | error error => exact composes_settles.fail error
  | ok sql =>
    exact settles_send_bind (not_controlsTransaction_compile hsql) fun _ ↦
      composes_settles.ofExcept _

theorem settles_runStatements (query : Query) : query.runStatements.Settles := by
  have inherits : Inherits (fun _ script ↦ script.Settles) fun _ ↦ True :=
    { composes := composes_settles
      passes := ⟨fun _ _ _ _ ↦ trivial, fun _ _ ↦ trivial, fun _ _ ↦ trivial, fun _ _ ↦ trivial⟩
      own := fun query _ ↦ settles_sendStatement query
      hooks := fun _ _ _ _ ↦ settles_callAll early_hooksBefore }
  exact inherits.runStatements query trivial

/-! ## The write of a query -/

/-- The statement of a query, with the keys of related rows filled in, is among statements. -/
def WrittenIn (query : Query) (statements : List CompiledSql) : Prop :=
  ∃ filled sql, query.Filled filled ∧ filled.compile = .ok sql ∧ sql ∈ statements

/-- Among steps, the statement of a query was sent with the keys of related rows filled in, and was
answered by a result that could be read. -/
structure AnsweredIn (surroundings : Surroundings σ) (query filled : Query) (sql : CompiledSql)
    (reply result : RowSet) (steps : List Step) : Prop where
  before : ∃ memory ended,
    CompletesBefore surroundings query query query.clauses.related memory filled ended
  compiled : filled.compile = .ok sql
  sent : .sent sql.text sql.values (.ok reply) ∈ steps
  decoded : filled.decoded reply = .ok result

namespace AnsweredIn

variable {filled : Query} {sql : CompiledSql} {reply result : RowSet} {steps more : List Step}

theorem fills (h : query.AnsweredIn surroundings filled sql reply result steps) :
    query.Filled filled := by
  obtain ⟨memory, ended, hbefore⟩ := h.before
  exact filled_of_completesBefore hbefore .refl

theorem mono (h : query.AnsweredIn surroundings filled sql reply result steps)
    (subset : ∀ step ∈ steps, step ∈ more) :
    query.AnsweredIn surroundings filled sql reply result more :=
  ⟨h.before, h.compiled, subset _ h.sent, h.decoded⟩

theorem writtenIn (h : query.AnsweredIn surroundings filled sql reply result steps) :
    query.WrittenIn (steps.filterMap Step.content?) := by
  refine ⟨filled, sql, h.fills, h.compiled, List.mem_filterMap.2 ⟨_, h.sent, ?_⟩⟩
  exact if_neg (not_controlsTransaction_compile h.compiled)

end AnsweredIn

/-- A query that succeeds to run its statements has sent its own one. What it did behind that led to
the outcome. -/
theorem answered_own (h : (query.runStatements.run surroundings memory).result = .ok outcome) :
    ∃ earlier filled sql reply result answered,
      query.runStatements.steps surroundings memory =
        earlier ++ (query.proceed filled result).steps surroundings answered ∧
      ((query.proceed filled result).run surroundings answered).result = .ok outcome ∧
      query.AnsweredIn surroundings filled sql reply result earlier := by
  obtain ⟨ended, hyields⟩ := exists_yields_of_ok surroundings h
  rw [runStatements_eq, yields_bind] at hyields
  obtain ⟨filled, filledAt, hbefore, hyields⟩ := hyields
  obtain ⟨result, answered, hown, hproceed⟩ := (yields_bind surroundings).1 hyields
  obtain ⟨sql, reply, hsql, hsent, hdecoded⟩ := (yields_sendStatement surroundings).1 hown
  have hmem : .sent sql.text sql.values (.ok reply) ∈
      filled.sendStatement.steps surroundings filledAt := by
    obtain ⟨logs, -, hsteps⟩ := steps_send_bind surroundings filled sql.text sql.values
      (fun reply ↦ (ofExcept reply).bind fun result ↦ ofExcept (filled.decoded result)) filledAt
    rw [sendStatement_eq, hsql, Script.ofExcept, Script.bind, hsteps, hsent]
    exact List.mem_cons_self
  refine ⟨(runBefore query query query.clauses.related).steps surroundings memory ++
    filled.sendStatement.steps surroundings filledAt, filled, sql, reply, result, answered, ?_,
    hproceed.1, ?_⟩
  · rw [runStatements_eq, steps_bind_ok surroundings hbefore.1, hbefore.2,
      steps_bind_ok surroundings hown.1, hown.2, List.append_assoc]
  · exact ⟨⟨_, _, (yields_runBefore query query query.clauses.related).1 hbefore⟩, hsql,
      List.mem_append_right _ hmem, hdecoded⟩

/-- What succeeds for a query contains its own statement, or that of the row in its place. The
outcome is what this statement came to, if the row has no other row in its own place. -/
theorem answered_runStatements
    (h : (query.runStatements.run surroundings memory).result = .ok outcome) :
    ∃ filled sql reply result,
      (outcome.created.getD query).AnsweredIn surroundings filled sql reply result
        (query.runStatements.steps surroundings memory) ∧
      ((∀ fallback, query.clauses.fallback = some fallback → fallback.clauses.fallback = none) →
        outcome.output = filled.outputOf result) := by
  have hfinish {query filled : Query} {result : RowSet} {answered : σ} {outcome : Outcome}
      (h : ((query.finish filled result).run surroundings answered).result = .ok outcome) :
      outcome = ⟨filled.outputOf result, none⟩ := by
    obtain ⟨ended, hyields⟩ := exists_yields_of_ok surroundings h
    exact (yields_finish.1 hyields).2.2
  obtain ⟨earlier, filled, sql, reply, result, answered, hsteps, hproceed, hanswered⟩ :=
    answered_own h
  have hown (h : ((query.finish filled result).run surroundings answered).result = .ok outcome) :
      ∃ filled sql reply result,
        (outcome.created.getD query).AnsweredIn surroundings filled sql reply result
          (query.runStatements.steps surroundings memory) ∧
        ((∀ fallback, query.clauses.fallback = some fallback → fallback.clauses.fallback = none) →
          outcome.output = filled.outputOf result) := by
    obtain rfl := hfinish h
    refine ⟨filled, sql, reply, result, hanswered.mono fun step hmem ↦ ?_, fun _ ↦ rfl⟩
    exact hsteps ▸ List.mem_append_left _ hmem
  unfold proceed at hproceed hsteps
  split at hproceed
  · exact hown hproceed
  · rename_i fallback hfallback
    split at hproceed
    · cases hproceed
    · split at hproceed
      · rename_i hseveral hunmatched
        obtain ⟨ended, hyields⟩ := exists_yields_of_ok surroundings hproceed
        obtain ⟨agreedAt, created, hagreed, hcreation, rfl⟩ := yields_create.1 hyields
        simp only [hfallback, if_neg hseveral, if_pos hunmatched] at hsteps
        obtain ⟨inner, final, insertion, answer, rows, innerAt, hinner, hlast, hcreated⟩ :=
          answered_own hcreation.1
        obtain ⟨hhooks, hagreedAt⟩ :
            (callAll (query.withClauses fallback.clauses).hooksBefore).Yields surroundings answered
              () agreedAt := (yields_callAll surroundings).2 hagreed
        have hcreate : (query.create fallback).steps surroundings answered =
            (callAll (query.withClauses fallback.clauses).hooksBefore).steps surroundings
                answered ++
              ((query.withClauses fallback.clauses).runStatements.steps surroundings agreedAt ++
                []) := by
          rw [create, steps_bind_ok surroundings hhooks, hagreedAt,
            steps_bind_ok surroundings hcreation.1]
          rfl
        refine ⟨final, insertion, answer, rows, hcreated.mono fun step hmem ↦ ?_, fun alone ↦ ?_⟩
        · rw [hsteps, hcreate, hinner]
          simp only [List.mem_append]
          exact .inr (.inr (.inl (.inl hmem)))
        · have hnone : (query.withClauses fallback.clauses).clauses.fallback = none :=
            alone fallback hfallback
          unfold proceed at hlast
          rw [hnone] at hlast
          exact congrArg Outcome.output (hfinish hlast)
      · exact hown hproceed

/-- Statements that ran well sent the query, or the fallback that was created. -/
theorem written_runStatements
    (h : (query.runStatements.run surroundings memory).result = .ok outcome) :
    (outcome.created.getD query).WrittenIn
      ((query.runStatements.steps surroundings memory).filterMap Step.content?) := by
  obtain ⟨_, _, _, _, hanswered, -⟩ := answered_runStatements h
  exact hanswered.writtenIn

/-! ## Between the hooks -/

/-- Whatever happens between the hooks, none of those behind the query is called. -/
theorem early_runBetween (query : Query) (session : Session) :
    (query.runBetween session).Obeys fun steps ↦ ∀ step ∈ steps, step.Early := by
  have hsend (sql : String) : (query.send sql []).Obeys fun steps ↦ ∀ step ∈ steps, step.Early := by
    intro σ surroundings memory
    unfold send
    cases query.log <;> simp [steps, Step.Early]
  have hstatements : query.runStatements.Obeys fun steps ↦ ∀ step ∈ steps, step.Early :=
    fun σ surroundings memory step hmem ↦
      ((settles_runStatements query σ surroundings memory).1 step hmem).early
  exact @obeys_runBetween (fun steps ↦ ∀ step ∈ steps, step.Early) (by simp)
    (fun first rest ↦ List.forall_mem_append.2 ⟨first, rest⟩) query hsend hstatements session

/-- A scope that is left with an outcome was opened, all statements of the query succeeded in it,
and it was closed. -/
theorem steps_runWithin {scope : Scope}
    (h : ((query.runWithin scope).run surroundings memory).result = .ok outcome) :
    ∃ opened before rows behind rest,
      (∀ step ∈ before ++ behind, ∃ event, step = .logged event) ∧
      (query.runStatements.run surroundings opened).result = .ok outcome ∧
      (query.runWithin scope).steps surroundings memory =
        .sent scope.opening [] (.ok rows) :: (before ++
          (query.runStatements.steps surroundings opened ++
            Step.sent scope.closing [] (.ok rest) :: behind)) := by
  rcases hopening : surroundings.send memory scope.opening [] with ⟨reply, opened⟩
  cases reply with
  | error error => cases (runWithin_unopened hopening).2.symm.trans h
  | ok rows =>
    rw [(runWithin_opened hopening).2] at h
    obtain ⟨hbody, rest, hclosing⟩ := leave_eq_ok surroundings h
    obtain ⟨before, hbefore, hfirst⟩ := steps_send_bind surroundings query scope.opening []
      (fun reply ↦ (ofExcept reply).bind fun _ ↦
        query.runStatements.attempt.bind fun result ↦ query.leave scope result) memory
    obtain ⟨behind, hbehind, hlast⟩ := steps_send_bind surroundings query scope.closing []
      (fun reply ↦ (ofExcept reply).bind fun _ ↦ done outcome)
      (query.runStatements.run surroundings opened).memory
    have hinside : (query.runStatements.attempt.bind fun result ↦ query.leave scope result).steps
        surroundings opened = query.runStatements.steps surroundings opened ++
          .sent scope.closing [] (.ok rest) :: behind := by
      rw [steps_attempt_bind, hbody, leave, hlast, hclosing]
      exact congrArg (query.runStatements.steps surroundings opened ++ ·)
        (congrArg (Step.sent scope.closing [] (.ok rest) :: ·) (List.append_nil behind))
    refine ⟨opened, before, rows, behind, rest, List.forall_mem_append.2 ⟨hbefore, hbehind⟩, hbody,
      ?_⟩
    rw [runWithin, hfirst, hopening]
    exact congrArg (fun inside ↦ Step.sent scope.opening [] (.ok rows) :: (before ++ inside))
      hinside

/-- What succeeds in a scope of its own is entered in the scope around the query. -/
theorem play_runWithin {session : Session} {scope : Scope} {ledger : Ledger}
    (hscope : Scope.ofSession session = .ok scope)
    (inside : session.inTransaction = true ↔ ledger.scopes ≠ [])
    (h : ((query.runWithin scope).run surroundings memory).result = .ok outcome) :
    (∀ step ∈ (query.runWithin scope).steps surroundings memory, ¬step.Failed) ∧
      ledger.play ((query.runWithin scope).steps surroundings memory) = ledger.add
        (((query.runWithin scope).steps surroundings memory).filterMap Step.content?) ∧
      (outcome.created.getD query).WrittenIn
        (((query.runWithin scope).steps surroundings memory).filterMap Step.content?) := by
  obtain ⟨opened, before, rows, behind, rest, hlogs, hbody, hsteps⟩ := steps_runWithin h
  obtain ⟨hinner, hends⟩ := settles_runStatements query σ surroundings opened
  have hsucceeded := hends outcome hbody
  obtain ⟨hopening, hclosing, -⟩ := scope.controlsTransaction
  have hsilent : ∀ step ∈ before ++ behind, step.Silent :=
    fun step hmem ↦ Step.silent_of_logged (hlogs step hmem)
  rw [List.forall_mem_append] at hsilent
  have hcontent : ((query.runWithin scope).steps surroundings memory).filterMap Step.content? =
      (query.runStatements.steps surroundings opened).filterMap Step.content? := by
    simp [hsteps, Step.content?, hopening, hclosing, filterMap_content_silent hsilent.1,
      filterMap_content_silent hsilent.2]
  refine ⟨?_, ?_, hcontent ▸ written_runStatements hbody⟩
  · rw [hsteps, List.forall_mem_cons, List.forall_mem_append, List.forall_mem_append,
      List.forall_mem_cons]
    exact ⟨id, fun step hmem ↦ (hsilent.1 step hmem).not_failed, hsucceeded, id,
      fun step hmem ↦ (hsilent.2 step hmem).not_failed⟩
  · rw [hcontent, hsteps, ← ledger.add_scope hscope inside]
    simp only [Ledger.play_cons, Ledger.play_append, Ledger.play_silent _ hsilent.1,
      Ledger.play_silent _ hsilent.2, Ledger.after, Ledger.play_inner _ hinner hsucceeded]

/-- What succeeds between the hooks is entered at once or in the scope around the query, and the own
statement of the query is part of it. -/
theorem play_runBetween {session : Session} {ledger : Ledger}
    (inside : session.inTransaction = true ↔ ledger.scopes ≠ [])
    (h : ((query.runBetween session).run surroundings memory).result = .ok outcome) :
    (∀ step ∈ (query.runBetween session).steps surroundings memory, ¬step.Failed) ∧
      ledger.play ((query.runBetween session).steps surroundings memory) = ledger.add
        (((query.runBetween session).steps surroundings memory).filterMap Step.content?) ∧
      (outcome.created.getD query).WrittenIn
        (((query.runBetween session).steps surroundings memory).filterMap Step.content?) := by
  rcases query.runBetween_cases session with ⟨scope, -, hscope, hbetween⟩ | ⟨_, -, -, hbetween⟩ |
    ⟨-, hbetween⟩ <;> rw [hbetween] at h ⊢
  · exact play_runWithin hscope inside h
  · cases h
  · obtain ⟨hinner, hsucceeded⟩ := settles_runStatements query σ surroundings memory
    exact ⟨hsucceeded outcome h, ledger.play_inner hinner (hsucceeded outcome h),
      written_runStatements h⟩

/-! ## Behind the query -/

/-- All that precedes a point of a run has succeeded, and the write of a query is part of it. -/
structure Wrote (query : Query) (steps : List Step) : Prop where
  succeeded : ∀ step ∈ steps, ¬step.Failed
  written : query.WrittenIn (steps.filterMap Step.content?)

/-- A member of two lists in a row that is not in the first one stands in the second one. -/
theorem exists_split {α : Type} {first second earlier later : List α} {member : α}
    (h : first ++ second = earlier ++ member :: later) (elsewhere : member ∉ first) :
    ∃ rest, earlier = first ++ rest ∧ second = rest ++ member :: later := by
  rcases List.append_eq_append_iff.1 h with ⟨rest, hearlier, hsecond⟩ | ⟨rest, hfirst, hsecond⟩
  · exact ⟨rest, hearlier, hsecond⟩
  · cases rest with
    | nil => exact ⟨[], by simpa using hfirst.symm, by simpa using hsecond.symm⟩
    | cons other rest =>
      obtain ⟨rfl, -⟩ := List.cons.inj hsecond
      exact absurd (by simp [hfirst]) elsewhere

/-- A member of two lists in a row that is not in the second one stands in the first one. -/
theorem exists_split_first {α : Type} {first second earlier later : List α} {member : α}
    (h : first ++ second = earlier ++ member :: later) (elsewhere : member ∉ second) :
    ∃ rest, first = earlier ++ member :: rest ∧ later = rest ++ second := by
  rcases List.append_eq_append_iff.1 h with ⟨rest, -, hsecond⟩ | ⟨rest, hfirst, hsecond⟩
  · exact absurd (by simp [hsecond]) elsewhere
  · cases rest with
    | nil =>
      have hfirst : second = member :: later := by simpa using hsecond.symm
      exact absurd (by simp [hfirst]) elsewhere
    | cons other rest =>
      obtain ⟨rfl, hlater⟩ := List.cons.inj hsecond
      exact ⟨rest, hfirst, hlater⟩

/-- A hook behind a query is called when the statements of the query have led to an outcome, and
between them and the call, and behind it, stand only such calls. -/
theorem exists_steps_between {session : Session} {earlier later : List Step} {hook : HookCall}
    {verdict : Except Error Unit} (called : (query.exec session).steps surroundings memory =
      earlier ++ .called hook verdict :: later) (behind : hook.moment.isAfter) :
    ∃ ready outcome last, ((query.runBetween session).run surroundings ready).result = .ok outcome ∧
      (hook ∈ (outcome.created.getD query).hooksAfter outcome.output ∧
        ∀ output, ((query.exec session).run surroundings memory).result = .ok output →
          output = outcome.output) ∧
      earlier = (callAll query.hooksBefore).steps surroundings memory ++
        ((query.runBetween session).steps surroundings ready ++ last) ∧
      ∀ step ∈ last ++ later, step.IsCall := by
  have hready : .called hook verdict ∉ (callAll query.hooksBefore).steps surroundings memory :=
    fun hmem ↦ by
      obtain ⟨other, hother, _, ⟨⟩⟩ :=
        isCall_steps_callAll surroundings query.hooksBefore memory _ hmem
      simp [early_hooksBefore _ hother] at behind
  have hbetween (ready : σ) :
      .called hook verdict ∉ (query.runBetween session).steps surroundings ready := fun hmem ↦ by
    have hearly : hook.moment.isAfter = false :=
      early_runBetween query session σ surroundings ready _ hmem
    simp [hearly] at behind
  have hmember : .called hook verdict ∈ (query.exec session).steps surroundings memory := by
    simp [called]
  rw [exec_eq] at called hmember
  cases hagreed : ((callAll query.hooksBefore).run surroundings memory).result with
  | error error =>
    rw [steps_bind_error surroundings hagreed] at hmember
    exact absurd hmember hready
  | ok value =>
    rw [steps_bind_ok surroundings hagreed] at called hmember
    cases hresult : ((query.runBetween session).run surroundings
        ((callAll query.hooksBefore).run surroundings memory).memory).result with
    | error error =>
      rw [steps_bind_error surroundings hresult] at hmember
      rcases List.mem_append.1 hmember with hmem | hmem
      · exact absurd hmem hready
      · exact absurd hmem (hbetween _)
    | ok outcome =>
      rw [steps_bind_ok surroundings hresult] at called
      obtain ⟨inner, rfl, hinner⟩ := exists_split called hready
      obtain ⟨last, rfl, hlast⟩ := exists_split hinner (hbetween _)
      have hafter : ∀ step ∈ last ++ .called hook verdict :: later,
          ∃ other ∈ (outcome.created.getD query).hooksAfter outcome.output,
            ∃ verdict, step = .called other verdict := by
        rw [← hlast, steps_bind]
        split <;> simpa [steps] using isCall_steps_callAll surroundings _ _
      have hhook : hook ∈ (outcome.created.getD query).hooksAfter outcome.output := by
        obtain ⟨other, hother, _, ⟨⟩⟩ := hafter (.called hook verdict) (by simp)
        exact hother
      have hends (output : Output)
          (h : ((query.exec session).run surroundings memory).result = .ok output) :
          output = outcome.output := by
        rw [exec_eq, result_bind_ok surroundings hagreed, result_bind_ok surroundings hresult] at h
        obtain ⟨_, hyields⟩ := exists_yields_of_ok surroundings h
        obtain ⟨_, _, -, hdone⟩ := (yields_bind surroundings).1 hyields
        exact ((yields_done surroundings).1 hdone).1.symm
      have hcalls : ∀ step ∈ last ++ .called hook verdict :: later, step.IsCall := by
        intro step hmem
        obtain ⟨other, -, answer, hcall⟩ := hafter step hmem
        exact ⟨other, answer, hcall⟩
      rw [List.forall_mem_append, List.forall_mem_cons] at hcalls
      exact ⟨_, outcome, last, hresult, ⟨hhook, hends⟩, rfl,
        List.forall_mem_append.2 ⟨hcalls.1, hcalls.2.2⟩⟩

/-- Where a hook behind a query is called, everything sent before succeeded and is entered at once
or in the scope around the query. Nothing but such hooks follows. -/
theorem wrote_exec {session : Session} {ledger : Ledger}
    (inside : session.inTransaction = true ↔ ledger.scopes ≠ []) {earlier later : List Step}
    {hook : HookCall} {verdict : Except Error Unit}
    (called : (query.exec session).steps surroundings memory =
      earlier ++ .called hook verdict :: later) (behind : hook.moment.isAfter) :
    Wrote hook.query earlier ∧
      ledger.play earlier = ledger.add (earlier.filterMap Step.content?) ∧
      ∀ step ∈ later, step.IsCall := by
  obtain ⟨ready, outcome, last, hresult, ⟨hhook, -⟩, rfl, hcalls⟩ :=
    exists_steps_between called behind
  rw [List.forall_mem_append] at hcalls
  obtain ⟨hsucceeded, hplay, hwritten⟩ := play_runBetween inside hresult
  have hfirst : ∀ step ∈ (callAll query.hooksBefore).steps surroundings memory, step.Silent :=
    fun step hmem ↦ by
      obtain ⟨other, -, answer, rfl⟩ :=
        isCall_steps_callAll surroundings query.hooksBefore memory step hmem
      trivial
  have hlast : ∀ step ∈ last, step.Silent := fun step hmem ↦ (hcalls.1 step hmem).silent
  have hcontent : ((callAll query.hooksBefore).steps surroundings memory ++
      ((query.runBetween session).steps surroundings ready ++ last)).filterMap Step.content? =
      ((query.runBetween session).steps surroundings ready).filterMap Step.content? := by
    simp [filterMap_content_silent hfirst, filterMap_content_silent hlast]
  refine ⟨⟨?_, ?_⟩, ?_, hcalls.2⟩
  · rw [List.forall_mem_append, List.forall_mem_append]
    exact ⟨fun step hmem ↦ (hfirst step hmem).not_failed, hsucceeded,
      fun step hmem ↦ (hlast step hmem).not_failed⟩
  · rw [hcontent, (told_hooksAfter hook hhook).same]
    exact hwritten
  · rw [hcontent, Ledger.play_append, Ledger.play_append, Ledger.play_silent _ hfirst, hplay,
      Ledger.play_silent _ hlast]

/-! ## Transactions around queries -/

/-- Commits behind an output and rolls back behind a failure. -/
def settleTransaction : Except Error Output → Script Output
  | .error error => execInTransaction.undone error
  | .ok output => .control "COMMIT" fun reply => (ofExcept reply).bind fun () => .done output

/-- Running in a transaction opens one, attempts the query and settles the transaction. -/
theorem execInTransaction_eq (query : Query) [SavepointName] :
    query.execInTransaction = .control "START TRANSACTION" fun reply =>
      match reply with
      | .error error => execInTransaction.undone error
      | .ok () => (query.exec ⟨true, true⟩).attempt.bind settleTransaction := by
  refine congrArg (Script.control "START TRANSACTION") (funext fun reply ↦ ?_)
  cases reply with
  | error error => rfl
  | ok value =>
    refine congrArg (query.exec ⟨true, true⟩).attempt.bind (funext fun result ↦ ?_)
    cases result with
    | error error => rfl
    | ok output =>
      exact congrArg (Script.control "COMMIT") (funext fun reply ↦ by cases reply <;> rfl)

/-- Settling a transaction is one control statement. -/
theorem steps_settleTransaction (result : Except Error Output) (memory : σ) :
    ∃ sql ∈ ["COMMIT", "ROLLBACK"], ∃ reply,
      (settleTransaction result).steps surroundings memory = [.controlled sql reply] := by
  cases result with
  | error error => exact ⟨"ROLLBACK", by simp, _, rfl⟩
  | ok output =>
    refine ⟨"COMMIT", by simp, (surroundings.control memory "COMMIT").1, ?_⟩
    exact congrArg (Step.controlled "COMMIT" _ :: ·) (by
      cases (surroundings.control memory "COMMIT").1 <;> rfl)

/-- A settled transaction yields an output only if the attempt gave that output. -/
theorem output_of_settleTransaction {result : Except Error Output} {output : Output} {ended : σ}
    (h : (settleTransaction result).Yields surroundings memory output ended) :
    result = .ok output := by
  cases result with
  | error error => cases h.1
  | ok value =>
    have hcommit : ((ofExcept (surroundings.control memory "COMMIT").1).bind fun () ↦
        done value).Yields surroundings (surroundings.control memory "COMMIT").2 output ended := h
    obtain ⟨_, _, -, hdone⟩ := (yields_bind surroundings).1 hcommit
    rw [((yields_done surroundings).1 hdone).1]

/-- The hooks of a query that is run in a transaction around it are called while the query runs. -/
theorem exists_steps_transaction [SavepointName] {earlier later : List Step} {hook : HookCall}
    {verdict : Except Error Unit} (called : query.execInTransaction.steps surroundings memory =
      earlier ++ .called hook verdict :: later) :
    ∃ started inner last, earlier = .controlled "START TRANSACTION" (.ok ()) :: inner ∧
      (query.exec ⟨true, true⟩).steps surroundings started =
        inner ++ .called hook verdict :: last ∧
      (∀ step ∈ later, step ∈ last ∨
        ∃ sql ∈ ["COMMIT", "ROLLBACK"], ∃ reply, step = .controlled sql reply) ∧
      ∀ output, (query.execInTransaction.run surroundings memory).result = .ok output →
        ((query.exec ⟨true, true⟩).run surroundings started).result = .ok output := by
  have hforeign (result : Except Error Output) (memory : σ) :
      .called hook verdict ∉ (settleTransaction result).steps surroundings memory := fun hmem ↦ by
    obtain ⟨sql, -, reply, hsettled⟩ := @steps_settleTransaction _ surroundings result memory
    simp [hsettled] at hmem
  rcases hstart : surroundings.control memory "START TRANSACTION" with ⟨reply, started⟩
  rw [execInTransaction_eq] at called
  simp only [steps, hstart] at called
  cases earlier with
  | nil => cases called
  | cons first rest =>
    obtain ⟨rfl, hrest⟩ := List.cons.inj called
    cases reply with
    | error error =>
      have hundone : (settleTransaction (.error error)).steps surroundings started =
          rest ++ .called hook verdict :: later := hrest
      exact absurd (by simp [hundone]) (hforeign (.error error) started)
    | ok value =>
      simp only [steps_attempt_bind] at hrest
      obtain ⟨sql, hsql, reply, hsettled⟩ := @steps_settleTransaction _ surroundings
        ((query.exec ⟨true, true⟩).run surroundings started).result
        ((query.exec ⟨true, true⟩).run surroundings started).memory
      obtain ⟨last, hlast, rfl⟩ := exists_split_first hrest (hforeign _ _)
      refine ⟨started, rest, last, rfl, hlast, fun step hmem ↦ ?_, fun output hends ↦ ?_⟩
      · rw [hsettled] at hmem
        exact (List.mem_append.1 hmem).imp_right fun hstep ↦
          ⟨sql, hsql, reply, List.mem_singleton.1 hstep⟩
      · rw [execInTransaction_eq] at hends
        simp only [run, hstart, Played.after] at hends
        obtain ⟨ended, hyields⟩ := exists_yields_of_ok surroundings hends
        obtain ⟨result, between, ⟨hexec, -⟩, hsettles⟩ := (yields_bind surroundings).1 hyields
        rw [run_attempt] at hexec
        rw [Except.ok.inj hexec, output_of_settleTransaction hsettles]

/-- Where a hook behind a query is called in a transaction around it, everything sent before waits
for a commit that is still to come. -/
theorem wrote_execInTransaction [SavepointName] {earlier later : List Step} {hook : HookCall}
    {verdict : Except Error Unit} (called : query.execInTransaction.steps surroundings memory =
      earlier ++ .called hook verdict :: later) (behind : hook.moment.isAfter) :
    Wrote hook.query earlier ∧
      Ledger.empty.play earlier = ⟨[], [earlier.filterMap Step.content?]⟩ ∧
      ∀ step ∈ later, step.IsCall ∨
        ∃ sql ∈ ["COMMIT", "ROLLBACK"], ∃ reply, step = .controlled sql reply := by
  have hcontrols : ControlsTransaction "START TRANSACTION" := by decide +kernel
  have hopened : Ledger.empty.carryOut ⟨"START TRANSACTION", []⟩ = ⟨[], [[]]⟩ :=
    Ledger.carryOut_begin _ _ hcontrols (by decide +kernel)
  obtain ⟨started, inner, last, rfl, hinner, hlater, -⟩ := exists_steps_transaction called
  obtain ⟨⟨hsucceeded, hwritten⟩, hplay, hcalls⟩ :=
    @wrote_exec _ _ _ _ ⟨true, true⟩ ⟨[], [[]]⟩ (by simp) _ _ _ _ hinner behind
  have hcontent : (Step.controlled "START TRANSACTION" (.ok ())).content? = none := by
    simp [Step.content?, hcontrols]
  refine ⟨⟨List.forall_mem_cons.2 ⟨id, hsucceeded⟩, ?_⟩, ?_, fun step hmem ↦
    (hlater step hmem).imp_left (hcalls step)⟩
  · rwa [List.filterMap_cons_none hcontent]
  · rw [List.filterMap_cons_none hcontent, Ledger.play_cons, Ledger.after, hopened, hplay]
    simp [Ledger.add]

/-- A query that is run outside a transaction calls the hooks behind it only when everything that
was sent has succeeded and is committed, its own write included, so if any statement fails, none of
them is called. A query that is run in a transaction opened for it calls these hooks when everything
has succeeded and nothing is committed: the commit is sent behind them, and may fail. -/
theorem exec_committing [SavepointName] (query : Query) (surroundings : Surroundings σ)
    (memory : σ) :
    (∀ session : Session, session.inTransaction = false →
      (∀ earlier hook verdict later, hook.moment.isAfter → (query.exec session).steps surroundings
          memory = earlier ++ .called hook verdict :: later →
        Wrote hook.query earlier ∧
          Ledger.empty.play earlier = ⟨earlier.filterMap Step.content?, []⟩ ∧
          ∀ step ∈ later, step.IsCall) ∧
      ∀ failed ∈ (query.exec session).steps surroundings memory, failed.Failed →
        ∀ step ∈ (query.exec session).steps surroundings memory, step.Early) ∧
    ∀ earlier hook verdict later, hook.moment.isAfter → query.execInTransaction.steps surroundings
        memory = earlier ++ .called hook verdict :: later →
      Wrote hook.query earlier ∧
        Ledger.empty.play earlier = ⟨[], [earlier.filterMap Step.content?]⟩ ∧
        ∀ step ∈ later, step.IsCall ∨
          ∃ sql ∈ ["COMMIT", "ROLLBACK"], ∃ reply, step = .controlled sql reply := by
  refine ⟨fun session outside ↦ ?_, fun earlier hook verdict later behind called ↦
    wrote_execInTransaction called behind⟩
  have hinside : session.inTransaction = true ↔ Ledger.empty.scopes ≠ [] := by
    simp [outside, Ledger.empty]
  refine ⟨fun earlier hook verdict later behind called ↦ wrote_exec hinside called behind,
    fun failed hfailed hfails step hstep ↦ ?_⟩
  cases step with
  | sent | controlled | logged => trivial
  | called hook verdict =>
    by_contra hlate
    have hbehind : hook.moment.isAfter := by simpa [Step.Early] using hlate
    obtain ⟨earlier, later, hsplit⟩ := List.append_of_mem hstep
    obtain ⟨⟨hsucceeded, -⟩, -, hcalls⟩ := wrote_exec hinside hsplit hbehind
    rw [hsplit] at hfailed
    rcases List.mem_append.1 hfailed with hmem | hmem
    · exact hsucceeded failed hmem hfails
    · rcases List.mem_cons.1 hmem with rfl | hmem
      · exact hfails
      · exact (hcalls failed hmem).silent.not_failed hfails

end Query

namespace Blog

/-- The insertion of a user, with a hook behind it. -/
def welcomed : Query :=
  ((users.insert (text "name" "Ada")).toOption.getD users).afterInsert "notify"

/-- A server that gives its answers one after the other and refuses to commit. -/
def refusing : Script.Surroundings Rehearsal.Answers where
  send answers _ _ := Rehearsal.next answers
  control answers sql := (if sql = "COMMIT" then .error Wire.Exchange.refused else .ok (), answers)
  call answers _ := (.ok (), answers)

def inserted : RowSet := ⟨1, [⟨["id", "name"], [.int 1, .text "Ada"]⟩]⟩

theorem runStatements_welcomed : welcomed.runStatements = welcomed.sendStatement.bind fun result =>
    (Script.ofExcept (welcomed.checkRowCount (welcomed.matchedRows result))).bind fun _ =>
      .done ⟨welcomed.outputOf result, none⟩ := by
  have hrelated : welcomed.clauses.related = [] := rfl
  rw [Query.runStatements_eq, hrelated, Query.runBefore, Script.bind]
  refine congrArg welcomed.sendStatement.bind (funext fun result ↦ ?_)
  have hproceed : welcomed.proceed welcomed result = welcomed.finish welcomed result := rfl
  rw [hproceed, Query.finish, hrelated, Query.runAfter]
  rfl

end Blog

namespace Query

/-- Outside a transaction the insertion is committed when the hook is called, and in one that is
opened for it, it is not. -/
theorem exec_committing_welcomed : ∃ insertion, Blog.welcomed.compile = .ok insertion ∧
    Wrote Blog.welcomed [.sent insertion.text insertion.values (.ok Blog.inserted)] ∧
    Ledger.empty.play [.sent insertion.text insertion.values (.ok Blog.inserted)] =
      ⟨[insertion], []⟩ ∧
    Ledger.empty.play [.controlled "START TRANSACTION" (.ok ()),
      .sent insertion.text insertion.values (.ok Blog.inserted)] = ⟨[], [[insertion]]⟩ := by
  obtain ⟨insertion, hinsertion⟩ : ∃ sql, Blog.welcomed.compile = .ok sql := ⟨_, rfl⟩
  have hcontent := not_controlsTransaction_compile hinsertion
  have hstart : ControlsTransaction "START TRANSACTION" := by decide +kernel
  have hbetween (session : Session) :
      Blog.welcomed.runBetween session = Blog.welcomed.runStatements := rfl
  obtain ⟨houtside, hinside⟩ := exec_committing Blog.welcomed Blog.refusing [.ok Blog.inserted]
  obtain ⟨hwrote, hcommitted, -⟩ := (houtside ⟨false, true⟩ rfl).1
    [.sent insertion.text insertion.values (.ok Blog.inserted)]
    ⟨.afterInsert, "notify", Blog.welcomed,
      some (.one (some ⟨["id", "name"], [.int 1, .text "Ada"]⟩))⟩ (.ok ()) [] rfl (by
        rw [exec_eq, hbetween, Blog.runStatements_welcomed, sendStatement_eq, hinsertion]
        rfl)
  obtain ⟨-, hwaiting, -⟩ := hinside
    [.controlled "START TRANSACTION" (.ok ()),
      .sent insertion.text insertion.values (.ok Blog.inserted)]
    ⟨.afterInsert, "notify", Blog.welcomed,
      some (.one (some ⟨["id", "name"], [.int 1, .text "Ada"]⟩))⟩ (.ok ())
    [.controlled "COMMIT" (.error Wire.Exchange.refused)] rfl (by
      rw [execInTransaction_eq, exec_eq, hbetween, Blog.runStatements_welcomed, sendStatement_eq,
        hinsertion]
      rfl)
  simp only [List.filterMap_cons, List.filterMap_nil, Script.Step.content?, hcontent, hstart,
    if_true, if_false] at hcommitted hwaiting
  exact ⟨insertion, hinsertion, hwrote, hcommitted, hwaiting⟩

/-- The commit fails behind the hook that was to see a committed insertion. -/
theorem execInTransaction_welcomed : ∃ insertion, Blog.welcomed.compile = .ok insertion ∧
    (Blog.welcomed.execInTransaction.run Blog.refusing [.ok Blog.inserted]).events =
      [.controlled "START TRANSACTION", .sent insertion.text insertion.values,
        .called ⟨.afterInsert, "notify", Blog.welcomed,
          some (.one (some ⟨["id", "name"], [.int 1, .text "Ada"]⟩))⟩,
        .controlled "COMMIT"] ∧
    (Blog.welcomed.execInTransaction.run Blog.refusing [.ok Blog.inserted]).result =
      .error Wire.Exchange.refused := by
  obtain ⟨insertion, hinsertion⟩ : ∃ sql, Blog.welcomed.compile = .ok sql := ⟨_, rfl⟩
  have hbetween : Blog.welcomed.runBetween ⟨true, true⟩ = Blog.welcomed.runStatements := rfl
  refine ⟨insertion, hinsertion, ?_⟩
  rw [execInTransaction_eq, exec_eq, hbetween, Blog.runStatements_welcomed, sendStatement_eq,
    hinsertion]
  exact ⟨rfl, rfl⟩

end Query

end SqlComposer
