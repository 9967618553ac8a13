import SqlComposer.Proofs.Fallback.RowsInPlace

/-!
# Scopes around failures

Once the hooks before a query agree and its scope is open, what it sends is settled by its
statements: the scope is closed behind them if they succeed and undone if they fail. Their failure
comes out of the scope as it is, unless undoing the scope fails as well. What the statements come to
is settled by the answer to the own statement of the query and by the number of rows it stands for.
-/

namespace SqlComposer

/-- A failure as it comes out of a scope: as it is, or as the cause of a rollback that failed. -/
inductive Error.Surfaces (cause : Error) : Error → Prop
  | itself : Surfaces cause cause
  | unrolled (failure : Error) : Surfaces cause (.rollbackFailed cause failure)

namespace Script

variable {σ α β : Type} (surroundings : Surroundings σ)

/-- Nothing is sent behind a script that failed. -/
theorem transmissions_bind_error {script : Script α} {memory : σ} {error : Error}
    (h : (script.run surroundings memory).result = .error error) (next : α → Script β) :
    ((script.bind next).run surroundings memory).transmissions =
      (script.run surroundings memory).transmissions := by
  rw [run_bind, Played.followed_error h]
  rfl

theorem transmissions_of_silent {script : Script α} (silent : script.Sends fun _ ↦ False)
    (memory : σ) : (script.run surroundings memory).transmissions = [] :=
  List.eq_nil_iff_forall_not_mem.2 fun sql hsql ↦
    of_mem_statements surroundings silent memory sql.text (Played.text_mem_statements hsql)

/-- What sends nothing adds nothing to what is sent in front of it. -/
theorem transmissions_bind_silent (script : Script α) {next : α → Script β}
    (silent : ∀ value, (next value).Sends fun _ ↦ False) (memory : σ) :
    ((script.bind next).run surroundings memory).transmissions =
      (script.run surroundings memory).transmissions := by
  cases hresult : (script.run surroundings memory).result with
  | error error => exact transmissions_bind_error surroundings hresult next
  | ok value =>
    rw [transmissions_bind_ok surroundings ⟨hresult, rfl⟩,
      transmissions_of_silent surroundings (silent value), List.append_nil]

end Script

namespace Query

open Script

variable {σ : Type} (surroundings : Script.Surroundings σ)

/-! ## Leaving a scope -/

/-- Leaving a scope sends one statement. -/
theorem transmissions_leave (query : Query) (scope : Scope) (result : Except Error Outcome)
    (memory : σ) : ((query.leave scope result).run surroundings memory).transmissions =
      [⟨if result.isOk then scope.closing else scope.undoing, []⟩] := by
  have hsend (sql : String) : ((query.send sql []).run surroundings memory).transmissions =
      [⟨sql, []⟩] := ((plays_send surroundings).2 ⟨rfl, rfl⟩).2
  cases result with
  | ok outcome =>
    unfold leave
    rw [transmissions_bind_silent, hsend]
    · rfl
    · exact fun reply ↦ sends_bind (sends_ofExcept reply) fun _ ↦ trivial
  | error error =>
    unfold leave
    rw [transmissions_bind_silent, hsend]
    · rfl
    · intro reply
      cases reply <;> trivial

/-- Behind a failure a scope is left with that failure, if it can be undone. -/
theorem exists_surfaces_leave (query : Query) (scope : Scope) (cause : Error) (memory : σ) :
    ∃ error, ((query.leave scope (.error cause)).run surroundings memory).result = .error error ∧
      cause.Surfaces error ∧
      ∀ rows, (surroundings.send memory scope.undoing []).1 = .ok rows → error = cause := by
  unfold leave
  rw [result_send_bind]
  cases (surroundings.send memory scope.undoing []).1 with
  | ok rows => exact ⟨cause, rfl, .itself, fun _ _ ↦ rfl⟩
  | error failure => exact ⟨_, rfl, .unrolled failure, nofun⟩

/-! ## Between the hooks -/

/-- What a query sends between its hooks, from what its statements send and from whether they
succeed. -/
def bracketed (query : Query) (session : Session) (body : List CompiledSql) (succeeds : Bool) :
    List CompiledSql :=
  match query.clauses.inTransaction, Scope.ofSession session with
  | true, .ok scope =>
    ⟨scope.opening, []⟩ ::
      (body ++ [⟨if succeeds then scope.closing else scope.undoing, []⟩])
  | _, _ => body

/-- A transactional query opens the scope of its session, if the session has one. -/
theorem yields_opening {query : Query} {session : Session} {memory start : σ}
    (marked : query.clauses.inTransaction = true) :
    (query.opening session).Yields surroundings memory () start ↔
      ∃ scope rows, Scope.ofSession session = .ok scope ∧
        surroundings.send memory scope.opening [] = (.ok rows, start) := by
  unfold opening
  simp only [marked, if_true, yields_bind, yields_ofExcept, yields_send, yields_done]
  constructor
  · rintro ⟨scope, _, ⟨hscope, rfl⟩, _, _, hsend, rows, _, ⟨rfl, rfl⟩, -, rfl⟩
    exact ⟨scope, rows, hscope, hsend⟩
  · rintro ⟨scope, rows, hscope, hsend⟩
    exact ⟨scope, memory, ⟨hscope, rfl⟩, _, start, hsend, rows, start, ⟨rfl, rfl⟩, trivial, rfl⟩

/-- In an open scope, the statements of a query are sent and the scope is left. -/
theorem run_runWithin {query : Query} {scope : Scope} {memory start : σ} {rows : RowSet}
    (opening : surroundings.send memory scope.opening [] = (.ok rows, start)) :
    ((query.runWithin scope).run surroundings memory).transmissions =
        ⟨scope.opening, []⟩ :: ((query.runStatements.run surroundings start).transmissions ++
          ((query.leave scope (query.runStatements.run surroundings start).result).run surroundings
            (query.runStatements.run surroundings start).memory).transmissions) := by
  have hopen : (query.send scope.opening []).Plays surroundings memory [⟨scope.opening, []⟩]
      (.ok rows) start := (plays_send surroundings).2 ⟨opening, rfl⟩
  have hreply : (ofExcept (.ok rows : Except Error RowSet)).Plays surroundings start [] rows
      start := (plays_ofExcept surroundings).2 ⟨rfl, rfl, rfl⟩
  have hattempt : query.runStatements.attempt.Plays surroundings start
      (query.runStatements.run surroundings start).transmissions
      (query.runStatements.run surroundings start).result
      (query.runStatements.run surroundings start).memory :=
    (plays_attempt surroundings).2 ⟨rfl, rfl, rfl⟩
  unfold runWithin
  rw [transmissions_bind_ok surroundings hopen.1, hopen.2,
    transmissions_bind_ok surroundings hreply.1, hreply.2,
    transmissions_bind_ok surroundings hattempt.1, hattempt.2]
  rfl

section

variable {query : Query} {session : Session} {memory ready start : σ}

/-- Once its scope is open, a query sends its statements and leaves the scope as they end. -/
theorem transmissions_runBetween
    (opened : (query.opening session).Yields surroundings memory () start) :
    ((query.runBetween session).run surroundings memory).transmissions =
      query.bracketed session (query.runStatements.run surroundings start).transmissions
        (query.runStatements.run surroundings start).result.isOk := by
  unfold bracketed
  cases hmarked : query.clauses.inTransaction with
  | true =>
    obtain ⟨scope, rows, hscope, hopen⟩ := (yields_opening surroundings hmarked).1 opened
    rw [runBetween_scoped hmarked hscope, run_runWithin surroundings hopen, transmissions_leave,
      hscope]
  | false =>
    unfold opening at opened
    rw [hmarked] at opened
    obtain ⟨-, rfl⟩ := (yields_done surroundings).1 opened
    rw [runBetween_alone hmarked]

/-- Once the hooks before a query agree and its scope is open, what it sends is settled by its
statements. -/
theorem transmissions_exec_opened (agreed : Agree surroundings query.hooksBefore memory ready)
    (opened : (query.opening session).Yields surroundings ready () start) :
    ((query.exec session).run surroundings memory).transmissions =
      query.bracketed session (query.runStatements.run surroundings start).transmissions
        (query.runStatements.run surroundings start).result.isOk := by
  have hbefore : (callAll query.hooksBefore).Plays surroundings memory [] () ready :=
    (plays_callAll surroundings).2 ⟨agreed, rfl⟩
  rw [exec_eq, transmissions_bind_ok surroundings hbefore.1, hbefore.2, List.nil_append,
    transmissions_bind_silent, transmissions_runBetween surroundings opened]
  exact fun outcome ↦ sends_bind (sends_callAll _) fun _ ↦ trivial

/-- Where its statements fail in the open scope, a query fails for the same reason. -/
theorem exists_surfaces_exec (agreed : Agree surroundings query.hooksBefore memory ready)
    (opened : (query.opening session).Yields surroundings ready () start) {cause : Error}
    (fails : (query.runStatements.run surroundings start).result = .error cause) :
    ∃ error, ((query.exec session).run surroundings memory).result = .error error ∧
      cause.Surfaces error ∧ (Controls surroundings → error = cause) := by
  have hbetween : ∃ error, ((query.runBetween session).run surroundings ready).result =
      .error error ∧ cause.Surfaces error ∧ (Controls surroundings → error = cause) := by
    cases hmarked : query.clauses.inTransaction with
    | true =>
      obtain ⟨scope, rows, hscope, hopen⟩ := (yields_opening surroundings hmarked).1 opened
      obtain ⟨error, hresult, hsurfaces, hundone⟩ := exists_surfaces_leave surroundings query scope
        cause (query.runStatements.run surroundings start).memory
      rw [runBetween_scoped hmarked hscope, (runWithin_opened hopen).2, fails]
      refine ⟨error, hresult, hsurfaces, fun controls ↦ ?_⟩
      obtain ⟨-, -, hundoing⟩ := scope.controlsTransaction
      obtain ⟨rest, _, hsend⟩ := controls _ scope.undoing hundoing
      exact hundone rest (congrArg Prod.fst hsend)
    | false =>
      unfold opening at opened
      rw [hmarked] at opened
      obtain ⟨-, rfl⟩ := (yields_done surroundings).1 opened
      rw [runBetween_alone hmarked]
      exact ⟨cause, fails, .itself, fun _ ↦ rfl⟩
  obtain ⟨error, hresult, hsurfaces, hcontrols⟩ := hbetween
  refine ⟨error, ?_, hsurfaces, hcontrols⟩
  have hbefore : (callAll query.hooksBefore).Yields surroundings memory () ready :=
    (yields_callAll surroundings).2 agreed
  rw [exec_eq, result_bind_ok surroundings hbefore.1, hbefore.2,
    result_bind_error surroundings hresult]

/-- A query that is run to an output opened its scope and ran its statements to that output. -/
theorem exists_opened_of_exec {output : Output}
    (h : ((query.exec session).run surroundings memory).result = .ok output) :
    ∃ ready start outcome closed, Agree surroundings query.hooksBefore memory ready ∧
      (query.opening session).Yields surroundings ready () start ∧
      query.runStatements.Yields surroundings start outcome closed ∧ outcome.output = output := by
  obtain ⟨ended, hexec⟩ := exists_yields_of_ok surroundings h
  rw [exec_eq] at hexec
  simp only [yields_bind, yields_callAll, yields_done] at hexec
  obtain ⟨_, ready, hagreed, outcome, between, hbetween, _, _, -, houtput, -⟩ := hexec
  obtain ⟨calls, _, hcalls⟩ := exists_calls_of_ok surroundings hbetween.1
  obtain ⟨start, closed, hopening, hstatements⟩ := calls_runBetween surroundings hcalls
  exact ⟨ready, start, outcome, closed, hagreed, hopening, hstatements.1, houtput⟩

/-! ## Up to the answer to the own statement -/

/-- The own statement of a query is answered behind the rows in front of it, which were inserted. -/
def Arrives (query : Query) (start : σ) (earlier : List CompiledSql) (filled : Query)
    (sql : CompiledSql) (result : RowSet) (answered : σ) : Prop :=
  ∃ between, (runBefore query query query.clauses.related).Plays surroundings start earlier filled
    between ∧ filled.sendStatement.Plays surroundings between [sql] result answered

variable {filled : Query} {earlier : List CompiledSql} {sql : CompiledSql} {result : RowSet}
  {answered : σ}

/-- Behind its own statement, a query proceeds with the answer. -/
theorem Arrives.result_runStatements
    (h : query.Arrives surroundings start earlier filled sql result answered) :
    (query.runStatements.run surroundings start).result =
      ((query.proceed filled result).run surroundings answered).result := by
  obtain ⟨between, ⟨⟨hbefore, rfl⟩, -⟩, ⟨⟨hown, rfl⟩, -⟩⟩ := h
  rw [runStatements_eq, result_bind_ok surroundings hbefore, result_bind_ok surroundings hown]

/-- Behind its answered statement a query sends what it goes on with. -/
theorem Arrives.transmissions_runStatements
    (h : query.Arrives surroundings start earlier filled sql result answered) :
    (query.runStatements.run surroundings start).transmissions = earlier ++
      sql :: ((query.proceed filled result).run surroundings answered).transmissions := by
  obtain ⟨between, ⟨hbefore, hearlier⟩, ⟨hown, hsql⟩⟩ := h
  rw [runStatements_eq, transmissions_bind_ok surroundings hbefore, hearlier,
    transmissions_bind_ok surroundings hown, hsql]
  rfl

/-- Statements of a query that end with an outcome get behind its own statement. -/
theorem exists_arrives {outcome : Outcome} {closed : σ}
    (h : query.runStatements.Yields surroundings start outcome closed) :
    ∃ earlier filled sql result answered,
      query.Arrives surroundings start earlier filled sql result answered ∧
      (query.proceed filled result).Yields surroundings answered outcome closed := by
  rw [runStatements_eq] at h
  simp only [yields_bind] at h
  obtain ⟨filled, between, hbefore, result, answered, hown, hrest⟩ := h
  obtain ⟨sql, reply, hsql, hsent, hread, -⟩ := (plays_sendStatement surroundings).1 ⟨hown, rfl⟩
  exact ⟨_, filled, sql, result, answered, ⟨between, ⟨hbefore, rfl⟩,
    (plays_sendStatement surroundings).2 ⟨sql, reply, hsql, hsent, hread, rfl⟩⟩, hrest⟩

/-- The number of rows that a query matches is that of the answer to its own statement. -/
theorem result_matching_iff {number : Nat} :
    ((query.matching session).run surroundings memory).result = .ok number ↔
      ∃ ready start earlier filled sql result answered,
        Agree surroundings query.hooksBefore memory ready ∧
        (query.opening session).Yields surroundings ready () start ∧
        query.Arrives surroundings start earlier filled sql result answered ∧
        filled.matchedRows result = number := by
  constructor
  · intro h
    obtain ⟨ended, hmatching⟩ := exists_yields_of_ok surroundings h
    unfold matching at hmatching
    simp only [yields_bind, yields_callAll, yields_done] at hmatching
    obtain ⟨_, ready, hagreed, _, start, hopened, filled, between, hbefore, result, answered, hown,
      hnumber, -⟩ := hmatching
    obtain ⟨sql, reply, hsql, hsent, hread, -⟩ := (plays_sendStatement surroundings).1 ⟨hown, rfl⟩
    exact ⟨ready, start, _, filled, sql, result, answered, hagreed, hopened, ⟨between,
      ⟨hbefore, rfl⟩, (plays_sendStatement surroundings).2 ⟨sql, reply, hsql, hsent, hread, rfl⟩⟩,
      hnumber⟩
  · rintro ⟨ready, start, _, filled, _, result, answered, hagreed, hopened,
      ⟨between, hbefore, hown⟩, rfl⟩
    have hmatching : (query.matching session).Yields surroundings memory
        (filled.matchedRows result) answered := by
      unfold matching
      simp only [yields_bind, yields_callAll, yields_done]
      exact ⟨(), ready, hagreed, (), start, hopened, filled, between, hbefore.1, result, answered,
        hown.1, rfl, rfl⟩
    exact hmatching.1

/-- Cells that are filled change nothing but what is inserted. -/
theorem Arrives.clauses_eq
    (h : query.Arrives surroundings start earlier filled sql result answered) :
    filled.clauses = { query.clauses with verb := filled.clauses.verb } := by
  obtain ⟨between, ⟨hbefore, -⟩, -⟩ := h
  exact (filled_of_completesBefore ((yields_runBefore _ _ _).1 hbefore) .refl).clauses

end

/-! ## With a row in place of the query -/

section

variable {query filled : Query} {fallback : Statement} {result : RowSet}

/-- A query with a fallback fails at several matching rows. -/
theorem proceed_several (held : query.clauses.fallback = some fallback)
    (many : 1 < filled.matchedRows result) :
    query.proceed filled result = .fail (.moreThanOneRow (filled.matchedRows result)) := by
  unfold proceed
  simp [held, many]

/-- A query with a fallback finishes on its own with one matching row. -/
theorem proceed_own (held : query.clauses.fallback = some fallback)
    (one : filled.matchedRows result = 1) :
    query.proceed filled result = (runAfter query result query.clauses.related).bind fun _ ↦
      .done ⟨filled.outputOf result, none⟩ := by
  have hcheck : filled.checkRowCount 1 = .ok () := by simp [checkRowCount]
  unfold proceed finish
  simp only [held, one, hcheck]
  rfl

theorem proceed_unmatched (held : query.clauses.fallback = some fallback)
    (none : filled.matchedRows result = 0) :
    query.proceed filled result = query.create fallback := by
  unfold proceed
  simp [held, none]

end

end Query
end SqlComposer
