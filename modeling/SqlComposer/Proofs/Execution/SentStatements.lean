import SqlComposer.Proofs.Execution.TransactionBrackets

/-!
# Transcripts

What a script sends, each statement with its parameters. A script that ends with a value behind
another one sends its statements behind those of the other. A query that is run sends the statements
that its own running sends, between those that open and close its scope if it has one; these control
a transaction, and no other does.
-/

namespace SqlComposer

namespace Script

variable {σ α β : Type}

def Event.transmission? : Event → Option CompiledSql
  | sent sql values => some ⟨sql, values⟩
  | controlled _ | called _ | logged _ => none

/-- The statements that were sent with their parameters, in order. -/
def Played.transmissions (played : Played σ α) : List CompiledSql :=
  played.events.filterMap Event.transmission?

/-- The statements that were sent with their parameters, those left out that control
a transaction. -/
def Played.content (played : Played σ α) : List CompiledSql :=
  played.transmissions.filter fun sent ↦ ¬ControlsTransaction sent.text

/-- What was sent with parameters was sent. -/
theorem Played.text_mem_statements {played : Played σ α} {sent : CompiledSql}
    (h : sent ∈ played.transmissions) : sent.text ∈ played.statements := by
  obtain ⟨event, hevent, hsent⟩ := List.mem_filterMap.1 h
  refine List.mem_filterMap.2 ⟨event, hevent, ?_⟩
  cases event <;> cases hsent
  rfl

variable (surroundings : Surroundings σ)

/-- Played from a memory, a script sends statements, ends with a value and leaves another memory. -/
def Plays (script : Script α) (memory : σ) (sent : List CompiledSql) (value : α) (ended : σ) :
    Prop :=
  script.Yields surroundings memory value ended ∧
    (script.run surroundings memory).transmissions = sent

theorem plays_done {value other : α} {memory ended : σ} {sent : List CompiledSql} :
    (done value).Plays surroundings memory sent other ended ↔
      value = other ∧ memory = ended ∧ sent = [] := by
  unfold Plays
  rw [yields_done, and_assoc, eq_comm (a := sent)]
  rfl

theorem plays_ofExcept {result : Except Error α} {value : α} {memory ended : σ}
    {sent : List CompiledSql} :
    (ofExcept result).Plays surroundings memory sent value ended ↔
      result = .ok value ∧ memory = ended ∧ sent = [] := by
  cases result with
  | ok other => rw [ofExcept, plays_done, Except.ok.injEq]
  | error error => simp [Plays, ofExcept]

/-- A script behind another one sends its statements behind those of the other. -/
theorem transmissions_bind_ok {script : Script α} {next : α → Script β} {memory between : σ}
    {first : α} (h : script.Yields surroundings memory first between) :
    ((script.bind next).run surroundings memory).transmissions =
      (script.run surroundings memory).transmissions ++
        ((next first).run surroundings between).transmissions := by
  obtain ⟨hfirst, rfl⟩ := h
  rw [run_bind, Played.followed_ok hfirst]
  exact List.filterMap_append

/-- Behind another script a script sends its statements behind those of the other. -/
theorem plays_bind {script : Script α} {next : α → Script β} {memory ended : σ}
    {sent : List CompiledSql} {value : β} :
    (script.bind next).Plays surroundings memory sent value ended ↔
      ∃ first between earlier later, script.Plays surroundings memory earlier first between ∧
        (next first).Plays surroundings between later value ended ∧ sent = earlier ++ later := by
  constructor
  · rintro ⟨hyields, rfl⟩
    obtain ⟨first, between, hfirst, hnext⟩ := (yields_bind surroundings).1 hyields
    exact ⟨first, between, _, _, ⟨hfirst, rfl⟩, ⟨hnext, rfl⟩,
      transmissions_bind_ok surroundings hfirst⟩
  · rintro ⟨first, between, _, _, ⟨hfirst, rfl⟩, ⟨hnext, rfl⟩, rfl⟩
    exact ⟨(yields_bind surroundings).2 ⟨first, between, hfirst, hnext⟩,
      transmissions_bind_ok surroundings hfirst⟩

/-- An attempt sends the statements of its script, whatever comes of it. -/
theorem plays_attempt {script : Script α} {memory ended : σ} {sent : List CompiledSql}
    {result : Except Error α} :
    script.attempt.Plays surroundings memory sent result ended ↔
      (script.run surroundings memory).result = result ∧
        (script.run surroundings memory).memory = ended ∧
        (script.run surroundings memory).transmissions = sent := by
  unfold Plays Yields
  rw [run_attempt, Except.ok.injEq, and_assoc]
  rfl

/-- Calling hooks sends nothing. -/
theorem plays_callAll {hooks : List HookCall} {memory ended : σ} {sent : List CompiledSql}
    {value : Unit} :
    (callAll hooks).Plays surroundings memory sent value ended ↔
      Agree surroundings hooks memory ended ∧ sent = [] := by
  have hsilent : ((callAll hooks).run surroundings memory).transmissions = [] := by
    refine List.eq_nil_iff_forall_not_mem.2 fun sql hsql ↦ ?_
    have hsent := Played.text_mem_statements hsql
    rw [statements_callAll] at hsent
    cases hsent
  unfold Plays
  rw [yields_callAll, hsilent, eq_comm (a := sent)]

end Script

namespace Query

open Script

variable {σ : Type} (surroundings : Script.Surroundings σ)

/-- Sending transmits one statement with its values. -/
theorem plays_send {query : Query} {sql : String} {values : List Literal} {memory ended : σ}
    {sent : List CompiledSql} {reply : Except Error RowSet} :
    (query.send sql values).Plays surroundings memory sent reply ended ↔
      surroundings.send memory sql values = (reply, ended) ∧ sent = [⟨sql, values⟩] := by
  have hsent :
      ((query.send sql values).run surroundings memory).transmissions = [⟨sql, values⟩] := by
    unfold send
    cases query.log <;> rfl
  unfold Plays
  rw [yields_send, hsent, eq_comm (a := sent)]

/-- The statement of a query is compiled, answered and its answer read. -/
theorem plays_sendStatement {query : Query} {memory ended : σ} {sent : List CompiledSql}
    {result : RowSet} :
    query.sendStatement.Plays surroundings memory sent result ended ↔
      ∃ sql reply, query.compile = .ok sql ∧
        surroundings.send memory sql.text sql.values = (.ok reply, ended) ∧
        query.decoded reply = .ok result ∧ sent = [sql] := by
  rw [sendStatement_eq]
  simp only [plays_bind, plays_ofExcept, plays_send]
  constructor
  · rintro ⟨sql, _, _, _, ⟨hsql, rfl, rfl⟩, ⟨_, _, _, _, ⟨hsend, rfl⟩,
      ⟨reply, _, _, _, ⟨rfl, rfl, rfl⟩, ⟨hread, rfl, rfl⟩, rfl⟩, rfl⟩, rfl⟩
    exact ⟨sql, reply, hsql, hsend, hread, rfl⟩
  · rintro ⟨sql, reply, hsql, hsend, hread, rfl⟩
    exact ⟨sql, memory, [], _, ⟨hsql, rfl, rfl⟩, ⟨.ok reply, ended, _, [], ⟨hsend, rfl⟩,
      ⟨reply, ended, [], [], ⟨rfl, rfl, rfl⟩, ⟨hread, rfl, rfl⟩, rfl⟩, rfl⟩, rfl⟩

/-- A scope is left with an outcome only behind statements that succeeded, by closing it. -/
theorem plays_leave {query : Query} {scope : Scope} {result : Except Error Outcome}
    {memory ended : σ} {sent : List CompiledSql} {outcome : Outcome} :
    (query.leave scope result).Plays surroundings memory sent outcome ended ↔
      result = .ok outcome ∧
        ∃ rows, surroundings.send memory scope.closing [] = (.ok rows, ended) ∧
          sent = [⟨scope.closing, []⟩] := by
  cases result with
  | ok closed =>
    simp only [leave, plays_bind, plays_send, plays_ofExcept, plays_done, Except.ok.injEq]
    constructor
    · rintro ⟨_, _, _, _, ⟨hsend, rfl⟩, ⟨rows, _, _, _, ⟨rfl, rfl, rfl⟩, ⟨rfl, rfl, rfl⟩, rfl⟩, rfl⟩
      exact ⟨rfl, rows, hsend, rfl⟩
    · rintro ⟨rfl, rows, hsend, rfl⟩
      exact ⟨_, _, _, [], ⟨hsend, rfl⟩,
        ⟨rows, _, [], [], ⟨rfl, rfl, rfl⟩, ⟨rfl, rfl, rfl⟩, rfl⟩, rfl⟩
  | error error =>
    simp only [leave, plays_bind]
    constructor
    · rintro ⟨reply, _, _, _, -, hfail, -⟩
      cases reply <;> exact absurd hfail.1 (yields_fail surroundings)
    · rintro ⟨hresult, -⟩
      cases hresult

/-- In a scope the statements of a query are sent between those that open and close it. -/
theorem plays_runWithin {query : Query} {scope : Scope} {memory ended : σ}
    {sent : List CompiledSql} {outcome : Outcome} :
    (query.runWithin scope).Plays surroundings memory sent outcome ended ↔
      ∃ rows opened body closed rest,
        surroundings.send memory scope.opening [] = (.ok rows, opened) ∧
        query.runStatements.Plays surroundings opened body outcome closed ∧
        surroundings.send closed scope.closing [] = (.ok rest, ended) ∧
        sent = ⟨scope.opening, []⟩ :: (body ++ [⟨scope.closing, []⟩]) := by
  simp only [runWithin, plays_bind, plays_send, plays_ofExcept, plays_attempt, plays_leave]
  constructor
  · rintro ⟨_, opened, _, _, ⟨hopen, rfl⟩, ⟨rows, _, _, _, ⟨rfl, rfl, rfl⟩, ⟨result, closed, body,
      _, hbody, ⟨rfl, rest, hclose, rfl⟩, rfl⟩, rfl⟩, rfl⟩
    exact ⟨rows, opened, body, closed, rest, hopen, ⟨⟨hbody.1, hbody.2.1⟩, hbody.2.2⟩, hclose, rfl⟩
  · rintro ⟨rows, opened, body, closed, rest, hopen, ⟨⟨hresult, hmemory⟩, hbody⟩, hclose, rfl⟩
    exact ⟨_, opened, _, _, ⟨hopen, rfl⟩,
      ⟨rows, opened, [], _, ⟨rfl, rfl, rfl⟩, ⟨_, closed, body, _,
      ⟨hresult, hmemory, hbody⟩, ⟨rfl, rest, hclose, rfl⟩, rfl⟩, rfl⟩, rfl⟩

/-! ## Running a query in a session -/

/-- What is sent around the statements of a query in a session. -/
def surrounded (query : Query) (session : Session) (body : List CompiledSql) :
    List CompiledSql :=
  match query.clauses.inTransaction, Scope.ofSession session with
  | true, .ok scope => ⟨scope.opening, []⟩ :: (body ++ [⟨scope.closing, []⟩])
  | _, _ => body

/-- A query that needs a scope plays its statements between those that open and close it. -/
theorem plays_runBetween {query : Query} {session : Session} {scope : Scope} {rows rest : RowSet}
    {memory opened closed ended : σ} {body : List CompiledSql} {outcome : Outcome}
    (marked : query.clauses.inTransaction = true) (allowed : Scope.ofSession session = .ok scope)
    (opening : surroundings.send memory scope.opening [] = (.ok rows, opened))
    (statements : query.runStatements.Plays surroundings opened body outcome closed)
    (closing : surroundings.send closed scope.closing [] = (.ok rest, ended)) :
    (query.runBetween session).Plays surroundings memory
      (⟨scope.opening, []⟩ :: (body ++ [⟨scope.closing, []⟩])) outcome ended := by
  have hwithin := (plays_runWithin surroundings).2
    ⟨rows, opened, body, closed, rest, opening, statements, closing, rfl⟩
  rw [runBetween_scoped marked allowed]
  exact hwithin

/-- Between the hooks around it, a query sends what its statements send, in the scope that it needs.
-/
theorem exists_plays_of_between {query : Query} {session : Session} {memory ended : σ}
    {sent : List CompiledSql} {outcome : Outcome}
    (h : (query.runBetween session).Plays surroundings memory sent outcome ended) :
    ∃ start body closed, query.runStatements.Plays surroundings start body outcome closed ∧
      sent = query.surrounded session body := by
  unfold surrounded
  rcases query.runBetween_cases session with ⟨scope, hmarked, hscope, hbetween⟩ |
    ⟨_, -, -, hbetween⟩ | ⟨hunmarked, hbetween⟩ <;> rw [hbetween] at h
  · obtain ⟨rows, opened, body, closed, rest, hopen, hbody, hclose, rfl⟩ :=
      (plays_runWithin surroundings).1 h
    exact ⟨opened, body, closed, hbody, by simp [hmarked, hscope]⟩
  · cases h.1.1
  · exact ⟨memory, sent, ended, h, by simp [hunmarked]⟩

/-- Hooks send nothing: where those before a query agree and its statements end with an outcome, it
sends what is sent between its hooks, whatever the hooks after it do. -/
theorem transmissions_exec {query : Query} {session : Session} {memory ready ended : σ}
    {sent : List CompiledSql} {outcome : Outcome}
    (agreed : Agree surroundings query.hooksBefore memory ready)
    (h : (query.runBetween session).Plays surroundings ready sent outcome ended) :
    ((query.exec session).run surroundings memory).transmissions = sent := by
  have hsilent (hooks : List HookCall) (value : Output) (memory : σ) :
      (((callAll hooks).bind fun _ ↦ .done value).run surroundings memory).transmissions = [] := by
    have hnone : ((callAll hooks).bind fun _ ↦ .done value).Sends fun _ ↦ False :=
      sends_bind (sends_callAll hooks) fun _ ↦ trivial
    exact List.eq_nil_iff_forall_not_mem.2 fun sql hsql ↦
      of_mem_statements surroundings hnone memory sql.text (Played.text_mem_statements hsql)
  have hbefore : (callAll query.hooksBefore).Plays surroundings memory [] () ready :=
    (plays_callAll surroundings).2 ⟨agreed, rfl⟩
  have hlast := hsilent ((outcome.created.getD query).hooksAfter outcome.output) outcome.output
    ended
  rw [exec_eq, transmissions_bind_ok surroundings hbefore.1, hbefore.2,
    transmissions_bind_ok surroundings h.1, h.2, hlast, List.nil_append, List.append_nil]

/-- Surroundings in which the statements that control a transaction succeed. -/
def Controls (surroundings : Script.Surroundings σ) : Prop :=
  ∀ memory sql, ControlsTransaction sql →
    ∃ rows ended, surroundings.send memory sql [] = (.ok rows, ended)

theorem hooksBefore_eq_nil {query : Query} (unhooked : query.clauses.hooks = .none) :
    query.hooksBefore = [] := by
  unfold hooksBefore
  rw [unhooked]
  split <;> rfl

theorem hooksAfter_eq_nil {query : Query} (unhooked : query.clauses.hooks = .none)
    (output : Output) : query.hooksAfter output = [] := by
  unfold hooksAfter
  rw [unhooked]
  split <;> rfl

/-- A session in a transaction or without interruptions has a scope. -/
theorem exists_scope {session : Session} (opens : session.inTransaction ∨ session.exclusive) :
    ∃ scope, Scope.ofSession session = .ok scope := by
  obtain ⟨inside, alone⟩ := session
  rcases opens with h | h <;> cases h
  · exact ⟨_, rfl⟩
  · cases inside <;> exact ⟨_, rfl⟩

end Query

end SqlComposer
