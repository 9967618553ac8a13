import SqlComposer.Proofs.Code.StatementCommands
import SqlComposer.Proofs.Execution.SpanningQueries
import SqlComposer.Rehearsal

/-!
# Transactions around queries

A query that spans several statements runs them in a scope of its own. The scope is opened by the
first statement sent and closed or undone by the last one, and no statement between them controls a
transaction, so a scope is never left open and never left twice. It is closed exactly if every step
succeeds, and the query succeeds only if closing it does. Where no scope can be opened, nothing is
sent. All other queries send their own statement at most.
-/

namespace SqlComposer.Query

variable {σ : Type} (surroundings : Script.Surroundings σ)

/-! ## Leaving a scope -/

/-- Closes a scope behind statements that succeeded and undoes it behind a failure. -/
def leave (query : Query) (scope : Scope) : Except Error Outcome → Script Outcome
  | .ok outcome =>
    (query.send scope.closing []).bind fun reply =>
    (Script.ofExcept reply).bind fun _ => .done outcome
  | .error error =>
    (query.send scope.undoing []).bind fun reply =>
    match reply with
    | .ok _ => .fail error
    | .error failure => .fail (.rollbackFailed error failure)

/-- Runs the statements of a query in a scope. -/
def runWithin (query : Query) (scope : Scope) : Script Outcome :=
  (query.send scope.opening []).bind fun reply =>
  (Script.ofExcept reply).bind fun _ =>
  query.runStatements.attempt.bind fun result => query.leave scope result

theorem runScoped_eq (query : Query) (session : Session) :
    query.runScoped session =
      (Script.ofExcept (Scope.ofSession session)).bind fun scope => query.runWithin scope := by
  have hdiscard {α : Type} (reply : Except Error RowSet) (next : Script α) :
      (discard (Script.ofExcept reply) >>= fun _ => next) =
        (Script.ofExcept reply).bind fun _ => next := by
    cases reply <;> rfl
  unfold runScoped runWithin
  simp only [hdiscard]
  refine congrArg (Script.ofExcept (Scope.ofSession session)).bind (funext fun scope ↦ ?_)
  refine congrArg (query.send scope.opening []).bind (funext fun opened ↦ ?_)
  refine congrArg (Script.ofExcept opened).bind (funext fun _ ↦ ?_)
  refine congrArg query.runStatements.attempt.bind (funext fun result ↦ ?_)
  cases result <;> rfl

/-- The statement that is sent is recorded in front of what follows. -/
theorem statements_send_bind {α : Type} (query : Query) (sql : String) (values : List Literal)
    (next : Except Error RowSet → Script α) (memory : σ) :
    (((query.send sql values).bind next).run surroundings memory).statements =
      sql :: ((next (surroundings.send memory sql values).1).run surroundings
        (surroundings.send memory sql values).2).statements := by
  obtain ⟨hreply, hmemory, hsent⟩ := run_send surroundings query sql values memory
  rw [Script.statements_bind_ok surroundings hreply, hsent, hmemory]
  rfl

/-- What follows a statement goes on with the reply to it. -/
theorem result_send_bind {α : Type} (query : Query) (sql : String) (values : List Literal)
    (next : Except Error RowSet → Script α) (memory : σ) :
    (((query.send sql values).bind next).run surroundings memory).result =
      ((next (surroundings.send memory sql values).1).run surroundings
        (surroundings.send memory sql values).2).result := by
  obtain ⟨hreply, hmemory, hsent⟩ := run_send surroundings query sql values memory
  rw [Script.result_bind_ok surroundings hreply, hmemory]

/-- Leaving a scope sends one statement. -/
theorem statements_leave (query : Query) (scope : Scope) (result : Except Error Outcome)
    (memory : σ) :
    ((query.leave scope result).run surroundings memory).statements =
      [if result.isOk then scope.closing else scope.undoing] := by
  cases result with
  | ok outcome =>
    unfold leave
    rw [statements_send_bind]
    cases (surroundings.send memory scope.closing []).1 <;> rfl
  | error error =>
    unfold leave
    rw [statements_send_bind]
    cases (surroundings.send memory scope.undoing []).1 <;> rfl

/-- Leaving a scope succeeds only by closing it. -/
theorem leave_eq_ok {query : Query} {scope : Scope} {result : Except Error Outcome}
    {memory : σ} {outcome : Outcome}
    (h : ((query.leave scope result).run surroundings memory).result = .ok outcome) :
    result = .ok outcome ∧ ∃ rows, (surroundings.send memory scope.closing []).1 = .ok rows := by
  cases result with
  | ok closed =>
    unfold leave at h
    rw [result_send_bind] at h
    cases hreply : (surroundings.send memory scope.closing []).1 with
    | ok rows =>
      rw [hreply] at h
      exact ⟨h, rows, rfl⟩
    | error failure =>
      rw [hreply] at h
      cases h
  | error error =>
    unfold leave at h
    rw [result_send_bind] at h
    cases hreply : (surroundings.send memory scope.undoing []).1 with
    | ok rows =>
      rw [hreply] at h
      cases h
    | error failure =>
      rw [hreply] at h
      cases h

/-! ## Running in a scope -/

variable {surroundings}

/-- Where the scope cannot be opened, nothing follows. -/
theorem runWithin_unopened {query : Query} {scope : Scope} {memory opened : σ} {error : Error}
    (h : surroundings.send memory scope.opening [] = (.error error, opened)) :
    ((query.runWithin scope).run surroundings memory).statements = [scope.opening] ∧
      ((query.runWithin scope).run surroundings memory).result = .error error := by
  unfold runWithin
  rw [statements_send_bind, result_send_bind, h]
  exact ⟨rfl, rfl⟩

/-- In an open scope the statements of the query run, and the scope is left behind them. -/
theorem runWithin_opened {query : Query} {scope : Scope} {memory opened : σ} {rows : RowSet}
    (h : surroundings.send memory scope.opening [] = (.ok rows, opened)) :
    ((query.runWithin scope).run surroundings memory).statements =
        scope.opening :: ((query.runStatements.run surroundings opened).statements ++
          [if (query.runStatements.run surroundings opened).result.isOk then scope.closing
            else scope.undoing]) ∧
      ((query.runWithin scope).run surroundings memory).result =
        ((query.leave scope (query.runStatements.run surroundings opened).result).run surroundings
          (query.runStatements.run surroundings opened).memory).result := by
  have hattempt := Script.run_attempt surroundings query.runStatements opened
  have hresult : (query.runStatements.attempt.run surroundings opened).result =
      .ok (query.runStatements.run surroundings opened).result := by rw [hattempt]
  have hbody : ((query.runStatements.attempt.bind fun result => query.leave scope result).run
      surroundings opened).statements = (query.runStatements.run surroundings opened).statements ++
        [if (query.runStatements.run surroundings opened).result.isOk then scope.closing
          else scope.undoing] := by
    rw [Script.statements_bind_ok surroundings hresult, statements_leave, hattempt]
    rfl
  unfold runWithin
  rw [statements_send_bind, result_send_bind, h]
  refine ⟨congrArg (scope.opening :: ·) hbody, ?_⟩
  have hend := Script.result_bind_ok surroundings hresult (query.leave scope)
  rw [hattempt] at hend
  exact hend

/-! ## Hooks around the statements -/

/-- What a query does between the hooks before it and those after it. -/
def runBetween (query : Query) (session : Session) : Script Outcome :=
  if query.clauses.inTransaction then query.runScoped session else query.runStatements

/-- The body runs between the hooks before and those after it. -/
theorem exec_eq (query : Query) (session : Session) :
    query.exec session =
      (Script.callAll query.hooksBefore).bind fun _ =>
      (query.runBetween session).bind fun outcome =>
      (Script.callAll ((outcome.created.getD query).hooksAfter outcome.output)).bind fun _ =>
      .done outcome.output := by
  unfold exec runBetween
  split <;> rfl

theorem runBetween_alone {query : Query} (unmarked : query.clauses.inTransaction = false)
    (session : Session) : query.runBetween session = query.runStatements := by
  simp [runBetween, unmarked]

/-- A transactional query runs within the scope of its session. -/
theorem runBetween_scoped {query : Query} {session : Session} {scope : Scope}
    (marked : query.clauses.inTransaction = true) (h : Scope.ofSession session = .ok scope) :
    query.runBetween session = query.runWithin scope := by
  rw [runBetween, if_pos marked, runScoped_eq, h]
  rfl

/-- A transactional query fails in a session that has no scope for it. -/
theorem runBetween_unscoped {query : Query} {session : Session} {refusal : Error}
    (marked : query.clauses.inTransaction = true) (h : Scope.ofSession session = .error refusal) :
    query.runBetween session = .fail refusal := by
  rw [runBetween, if_pos marked, runScoped_eq, h]
  rfl

/-- The statements of a query run in the scope that it needs, if it can be opened in the session, or
on their own. -/
theorem runBetween_cases (query : Query) (session : Session) :
    (∃ scope, query.clauses.inTransaction = true ∧ Scope.ofSession session = .ok scope ∧
      query.runBetween session = query.runWithin scope) ∨
    (∃ refusal, query.clauses.inTransaction = true ∧ Scope.ofSession session = .error refusal ∧
      query.runBetween session = .fail refusal) ∨
    (query.clauses.inTransaction = false ∧ query.runBetween session = query.runStatements) := by
  cases marked : query.clauses.inTransaction with
  | false => exact .inr (.inr ⟨rfl, runBetween_alone marked session⟩)
  | true =>
    cases h : Scope.ofSession session with
    | ok scope => exact .inl ⟨scope, rfl, rfl, runBetween_scoped marked h⟩
    | error refusal => exact .inr (.inl ⟨refusal, rfl, rfl, runBetween_unscoped marked h⟩)

/-- Where a hook before a query refuses, nothing is sent. -/
theorem exec_refused {query : Query} {session : Session} {memory : σ}
    (refused : ∀ ready, ¬Script.Agree surroundings query.hooksBefore memory ready) :
    ((query.exec session).run surroundings memory).statements = [] ∧
      ∀ output, ((query.exec session).run surroundings memory).result ≠ .ok output := by
  rw [exec_eq]
  cases hhooks : ((Script.callAll query.hooksBefore).run surroundings memory).result with
  | ok value =>
    obtain ⟨ready, hready⟩ := Script.exists_yields_of_ok surroundings hhooks
    exact absurd ((Script.yields_callAll surroundings).1 hready) (refused ready)
  | error error =>
    rw [Script.statements_bind_error surroundings hhooks, Script.statements_callAll,
      Script.result_bind_error surroundings hhooks]
    exact ⟨rfl, fun _ h ↦ by cases h⟩

/-- Hooks send nothing, so where those before a query agree, what is sent is what its statements and
its scope send, and the query succeeds only if they do. -/
theorem exec_agreed {query : Query} {session : Session} {memory ready : σ}
    (agreed : Script.Agree surroundings query.hooksBefore memory ready) :
    ((query.exec session).run surroundings memory).statements =
        ((query.runBetween session).run surroundings ready).statements ∧
      ∀ output, ((query.exec session).run surroundings memory).result = .ok output →
        ∃ outcome, ((query.runBetween session).run surroundings ready).result = .ok outcome := by
  obtain ⟨hvalue, hready⟩ :
      (Script.callAll query.hooksBefore).Yields surroundings memory () ready :=
    (Script.yields_callAll surroundings).2 agreed
  rw [exec_eq, Script.statements_bind_ok surroundings hvalue,
    Script.result_bind_ok surroundings hvalue, Script.statements_callAll, hready]
  cases hbetween : ((query.runBetween session).run surroundings ready).result with
  | error error =>
    rw [Script.statements_bind_error surroundings hbetween,
      Script.result_bind_error surroundings hbetween]
    exact ⟨rfl, fun _ h ↦ by cases h⟩
  | ok outcome =>
    refine ⟨?_, fun _ _ ↦ ⟨outcome, rfl⟩⟩
    have hafter : ((Script.callAll ((outcome.created.getD query).hooksAfter outcome.output)).bind
        fun _ => .done outcome.output).Sends fun _ ↦ False :=
      Script.sends_bind (Script.sends_callAll _) fun _ ↦ trivial
    have hsilent := Script.of_mem_statements surroundings hafter
      ((query.runBetween session).run surroundings ready).memory
    rw [Script.statements_bind_ok surroundings hbetween,
      List.eq_nil_iff_forall_not_mem.2 hsilent, List.append_nil]
    rfl

/-! ## What is seen of a query -/

/-- What may be seen of a query that runs in a scope. -/
inductive Bracketed (surroundings : Script.Surroundings σ) (query : Query) (scope : Scope)
    (memory : σ) (played : Script.Played σ Output) : Prop
  /-- A hook before the query refuses. -/
  | refused (refused : ∀ ready, ¬Script.Agree surroundings query.hooksBefore memory ready)
      (statements : played.statements = []) (fails : ∀ output, played.result ≠ .ok output)
  /-- The scope cannot be opened. -/
  | unopened {ready opened : σ} {error : Error}
      (agreed : Script.Agree surroundings query.hooksBefore memory ready)
      (opening : surroundings.send ready scope.opening [] = (.error error, opened))
      (statements : played.statements = [scope.opening])
      (fails : ∀ output, played.result ≠ .ok output)
  /-- The scope is opened and left again: closed if every step succeeds, and undone otherwise. -/
  | left {ready opened : σ} {rows : RowSet} {body : List String} {last : String}
      (agreed : Script.Agree surroundings query.hooksBefore memory ready)
      (opening : surroundings.send ready scope.opening [] = (.ok rows, opened))
      (statements : played.statements = scope.opening :: (body ++ [last]))
      (inner : ∀ sql ∈ body, ¬ControlsTransaction sql)
      (leaves : last = scope.closing ∨ last = scope.undoing)
      (closes : last = scope.closing ↔
        ∃ outcome ended, Completes surroundings query opened outcome ended)
      (succeeds : ∀ output, played.result = .ok output → ∃ outcome ended closed rows,
        Completes surroundings query opened outcome ended ∧
          surroundings.send ended scope.closing [] = (.ok rows, closed))

theorem closing_ne_undoing (scope : Scope) : scope.closing ≠ scope.undoing := by
  unfold Scope.closing Scope.undoing
  cases scope with
  | transaction => decide
  | savepoint name =>
    intro h
    have hlength := congrArg String.length h
    rw [String.length_append, String.length_append] at hlength
    have hwords : "RELEASE SAVEPOINT ".length ≠ "ROLLBACK TO SAVEPOINT ".length := by decide
    exact hwords (Nat.add_right_cancel hlength)

/-- The statements of a query succeed exactly if playing them ends with an outcome. -/
theorem isOk_runStatements_iff {query : Query} {memory : σ} :
    (query.runStatements.run surroundings memory).result.isOk ↔
      ∃ outcome ended, Completes surroundings query memory outcome ended := by
  constructor
  · intro h
    cases hresult : (query.runStatements.run surroundings memory).result with
    | ok outcome =>
      obtain ⟨ended, hended⟩ := Script.exists_yields_of_ok surroundings hresult
      exact ⟨outcome, ended, (yields_runStatements query).1 hended⟩
    | error error =>
      rw [hresult] at h
      cases h
  · rintro ⟨outcome, ended, h⟩
    rw [((yields_runStatements query).2 h).1]
    rfl

/-- A query that runs in a scope is bracketed by it. -/
theorem bracketed_exec {query : Query} {session : Session} {scope : Scope}
    (marked : query.clauses.inTransaction = true) (h : Scope.ofSession session = .ok scope)
    (memory : σ) :
    Bracketed surroundings query scope memory ((query.exec session).run surroundings memory) := by
  by_cases hready : ∃ ready, Script.Agree surroundings query.hooksBefore memory ready
  · obtain ⟨ready, hagreed⟩ := hready
    obtain ⟨hstatements, hsucceeds⟩ := @exec_agreed _ surroundings _ session _ _ hagreed
    rw [runBetween_scoped marked h] at hstatements hsucceeds
    rcases hopening : surroundings.send ready scope.opening [] with ⟨reply, opened⟩
    cases reply with
    | error error =>
      obtain ⟨hunopened, hfailed⟩ := runWithin_unopened hopening
      refine .unopened hagreed hopening (hstatements.trans hunopened) fun output houtput ↦ ?_
      obtain ⟨outcome, houtcome⟩ := hsucceeds output houtput
      cases hfailed.symm.trans houtcome
    | ok rows =>
      obtain ⟨hopened, hresult⟩ := runWithin_opened hopening
      have hinner := Script.of_mem_statements surroundings (sends_runStatements query) opened
      refine .left hagreed hopening (hstatements.trans hopened) hinner ?_ ?_ ?_
      · split
        · exact .inl rfl
        · exact .inr rfl
      · rw [← isOk_runStatements_iff]
        split
        · rename_i hok
          exact ⟨fun _ ↦ hok, fun _ ↦ rfl⟩
        · rename_i hfailed
          exact ⟨fun h ↦ absurd h.symm (closing_ne_undoing scope), fun h ↦ absurd h hfailed⟩
      · intro output houtput
        obtain ⟨outcome, houtcome⟩ := hsucceeds output houtput
        rw [hresult] at houtcome
        obtain ⟨hbody, rows, hclosing⟩ := leave_eq_ok surroundings houtcome
        obtain ⟨ended, hended⟩ := Script.exists_yields_of_ok surroundings hbody
        rw [hended.2] at hclosing
        exact ⟨outcome, ended, (surroundings.send ended scope.closing []).2, rows,
          (yields_runStatements query).1 hended, Prod.ext hclosing rfl⟩
  · rw [not_exists] at hready
    obtain ⟨hstatements, hfails⟩ := @exec_refused _ _ _ session _ hready
    exact .refused hready hstatements hfails

end SqlComposer.Query
