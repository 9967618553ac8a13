import SqlComposer.Proofs.Execution.CalledHooks
import SqlComposer.Proofs.Execution.SentStatements
import SqlComposer.Proofs.Insertion.PendingCells

/-!
# The queries that a query runs

A query that is run sends its own statement, with the keys of the rows that its rows refer to filled
in, and the statements of insertions: those of the rows that its own rows ask for and that of the
row in its place, each with the rows that they ask for themselves. In no statement sent is a cell of
its own rows still pending. What is not asked for by one of these queries itself is not run.
-/

namespace SqlComposer

namespace Script

variable {σ α β : Type}

/-! ## What a script sends and ends with -/

/-- Every statement that a script can send is allowed, whatever it is answered, and every value that
it can end with has a property. -/
def Ensures (allowed : CompiledSql → Prop) (post : α → Prop) : Script α → Prop
  | done value => post value
  | fail _ => True
  | send sql values answer => allowed ⟨sql, values⟩ ∧ ∀ reply, (answer reply).Ensures allowed post
  | control _ answer => ∀ reply, (answer reply).Ensures allowed post
  | call _ answer => ∀ reply, (answer reply).Ensures allowed post
  | log _ rest => rest.Ensures allowed post

variable {allowed wider : CompiledSql → Prop} {post weaker : α → Prop} {last : β → Prop}

/-- A script keeps to what is allowed if its first part and all that may follow do. -/
theorem ensures_bind {script : Script α} {next : α → Script β}
    (first : script.Ensures allowed post) (rest : ∀ value, post value →
      (next value).Ensures allowed last) : (script.bind next).Ensures allowed last := by
  induction script with
  | done value => exact rest value first
  | fail error => trivial
  | send sql values answer ih => exact ⟨first.1, fun reply ↦ ih reply (first.2 reply)⟩
  | control sql answer ih | call hook answer ih => exact fun reply ↦ ih reply (first reply)
  | log event others ih => exact ih first

theorem Ensures.mono {script : Script α} (h : script.Ensures allowed post)
    (wide : ∀ sent, allowed sent → wider sent) (weak : ∀ value, post value → weaker value) :
    script.Ensures wider weaker := by
  induction script with
  | done value => exact weak value h
  | fail error => trivial
  | send sql values answer ih => exact ⟨wide _ h.1, fun reply ↦ ih reply (h.2 reply)⟩
  | control sql answer ih | call hook answer ih => exact fun reply ↦ ih reply (h reply)
  | log event others ih => exact ih h

theorem ensures_ofExcept {result : Except Error α} (h : ∀ value, result = .ok value → post value) :
    (ofExcept result).Ensures allowed post := by
  cases result with
  | ok value => exact h value rfl
  | error error => trivial

theorem ensures_callAll (hooks : List HookCall) :
    (callAll hooks).Ensures allowed fun _ ↦ True := by
  induction hooks with
  | nil => trivial
  | cons hook rest ih =>
    exact fun reply ↦ ensures_bind (ensures_ofExcept fun _ _ ↦ trivial) fun _ _ ↦ ih

theorem Ensures.attempt {script : Script α} (h : script.Ensures allowed post) :
    script.attempt.Ensures allowed fun _ ↦ True := by
  induction script with
  | done value | fail error => trivial
  | send sql values answer ih => exact ⟨h.1, fun reply ↦ ih reply (h.2 reply)⟩
  | control sql answer ih | call hook answer ih => exact fun reply ↦ ih reply (h reply)
  | log event others ih => exact ih h

/-- What a script that is played ends with has the property. -/
theorem Ensures.of_yields {surroundings : Surroundings σ} {script : Script α} {value : α}
    (h : script.Ensures allowed post) {memory ended : σ}
    (yields : script.Yields surroundings memory value ended) : post value := by
  induction script generalizing memory with
  | done first =>
    obtain ⟨rfl, -⟩ := (yields_done surroundings).1 yields
    exact h
  | fail error => exact absurd yields (yields_fail surroundings)
  | send sql values answer ih => exact ih _ (h.2 _) yields
  | control sql answer ih | call hook answer ih => exact ih _ (h _) yields
  | log event rest ih => exact ih h yields

/-- Playing a script sends only what is allowed. -/
theorem of_mem_transmissions (surroundings : Surroundings σ) {script : Script α}
    (h : script.Ensures allowed post) (memory : σ) :
    ∀ sent ∈ (script.run surroundings memory).transmissions, allowed sent := by
  unfold Played.transmissions
  induction script generalizing memory with
  | done value | fail error => simp [run]
  | send sql values answer ih =>
    simp only [run, Played.after, Event.transmission?, List.filterMap_cons, List.forall_mem_cons]
    exact ⟨h.1, ih _ (h.2 _) _⟩
  | control sql answer ih => exact ih _ (h _) _
  | call hook answer ih => exact ih _ (h _) _
  | log event rest ih => exact ih h memory

end Script

namespace Query

open Script

variable {query filled insertion part : Query} {allowed : CompiledSql → Prop}

theorem ensures_send {sql : String} {values : List Literal} (h : allowed ⟨sql, values⟩) :
    (query.send sql values).Ensures allowed fun _ ↦ True := by
  unfold send
  refine ⟨h, fun reply ↦ ?_⟩
  cases query.log <;> trivial

theorem ensures_sendStatement (h : ∀ sql, query.compile = .ok sql → allowed sql) :
    query.sendStatement.Ensures allowed fun _ ↦ True := by
  rw [sendStatement_eq]
  refine ensures_bind (ensures_ofExcept h) fun sql hsql ↦ ?_
  exact ensures_bind (ensures_send hsql) fun reply _ ↦
    ensures_bind (ensures_ofExcept fun _ _ ↦ trivial) fun result _ ↦
      ensures_ofExcept fun _ _ ↦ trivial

/-! ## Parts -/

/-- The queries whose statements a query may run. -/
inductive Runs : Query → Query → Prop
  /-- The query itself, with keys filled in so that no cell of its rows is pending. -/
  | own {query filled : Query} (filling : query.Filled filled)
      (settled : ∀ row column, ¬filled.clauses.PendingAt row column) : Runs query filled
  /-- A row that a row of the query refers to. -/
  | before {query insertion part : Query} {row column : Nat} {relation : Relation} {data : Payload}
      (asked : .before row column relation data ∈ query.clauses.related)
      (built : query.insertionBefore relation data = .ok insertion)
      (runs : Runs insertion part) : Runs query part
  /-- Rows that refer to a row of the query. -/
  | after {query insertion part : Query} {row : Nat} {relation : Relation} {rows : List Payload}
      {key : Literal} (asked : .after row relation rows ∈ query.clauses.related)
      (built : query.insertionAfter relation rows key = .ok insertion)
      (runs : Runs insertion part) : Runs query part
  /-- The row in place of the query. -/
  | replaced {query part : Query} {fallback : Statement}
      (held : query.clauses.fallback = some fallback)
      (runs : Runs (query.withClauses fallback.clauses) part) : Runs query part

/-- What is sent is the statement of a query that a query runs. -/
def Sent (query : Query) (sent : CompiledSql) : Prop :=
  ∃ part, query.Runs part ∧ part.compile = .ok sent

/-- All pending cells of a query are to be filled, and so are those of the row in its place. -/
structure Careful (query : Query) : Prop where
  own : query.clauses.Awaits
  replaced : ∀ fallback, query.clauses.fallback = some fallback →
    fallback.clauses.Awaits ∧ fallback.clauses.fallback = none

theorem Careful.withClauses {fallback : Statement} (h : query.Careful)
    (held : query.clauses.fallback = some fallback) :
    (query.withClauses fallback.clauses).Careful := by
  obtain ⟨hown, halone⟩ := h.replaced fallback held
  refine ⟨hown, fun other hother ↦ ?_⟩
  cases halone.symm.trans hother

theorem careful_insertionBefore {relation : Relation} {data : Payload}
    (h : query.insertionBefore relation data = .ok insertion) : insertion.Careful := by
  refine ⟨?_, fun other hother ↦ by cases (fallback_insertionBefore h).symm.trans hother⟩
  obtain ⟨table, plan, reference, -, -, -, rfl⟩ := insertionBefore_eq_ok.1 h
  exact (awaits_planned (query.on table) plan false).congr rfl rfl

theorem careful_insertionAfter {relation : Relation} {rows : List Payload} {key : Literal}
    (h : query.insertionAfter relation rows key = .ok insertion) : insertion.Careful := by
  refine ⟨?_, fun other hother ↦ by cases (fallback_insertionAfter h).symm.trans hother⟩
  obtain ⟨table, plan, -, -, -, -, rfl⟩ := insertionAfter_eq_ok.1 h
  rw [count, countOf_eq]
  exact (awaits_planned (query.on table) plan true).congr rfl rfl

mutual

/-- Running a query sends statements of the queries that it runs only. -/
theorem ensures_runStatements (query : Query) (careful : query.Careful) :
    query.runStatements.Ensures query.Sent fun _ ↦ True := by
  have hbefore := ensures_runBefore query query query.clauses.related fun _ ↦ id
  have hafter (result : RowSet) :=
    ensures_runAfter query result query.clauses.related fun _ ↦ id
  have hcreation {fallback : Statement} (h : query.clauses.fallback = some fallback) :
      (query.withClauses fallback.clauses).runStatements.Ensures query.Sent fun _ ↦ True :=
    have := pendingWrites_fallback_lt h
    (ensures_runStatements (query.withClauses fallback.clauses) (careful.withClauses h)).mono
      (fun sent ⟨part, hpart, hsent⟩ ↦ ⟨part, .replaced h hpart, hsent⟩) fun _ ↦ id
  rw [runStatements_eq]
  refine ensures_bind hbefore fun filled ⟨hfilling, hpending⟩ ↦ ?_
  have hsettled (row column : Nat) : ¬filled.clauses.PendingAt row column := fun h ↦ by
    obtain ⟨hown, hunasked⟩ := hpending row column h
    obtain ⟨relation, data, hasked⟩ := careful.own row column hown
    exact hunasked relation data hasked
  refine ensures_bind (ensures_sendStatement fun sql hsql ↦
    ⟨filled, .own hfilling hsettled, hsql⟩) fun result _ ↦ ?_
  have hfinish : (query.finish filled result).Ensures query.Sent fun _ ↦ True :=
    ensures_bind (ensures_ofExcept fun _ _ ↦ trivial) fun _ _ ↦
      ensures_bind (hafter result) fun _ _ ↦ trivial
  unfold proceed
  split
  · exact hfinish
  · rename_i fallback hfallback
    split
    · trivial
    · split
      · exact ensures_bind (ensures_callAll _) fun _ _ ↦
          ensures_bind (hcreation hfallback) fun _ _ ↦ trivial
      · exact hfinish
termination_by 2 * query.pendingWrites + 1
decreasing_by
  · have := totalWrites_related_le query
    omega
  · have := totalWrites_related_le query
    omega
  · omega

/-- Before a query, the keys of the rows that its rows refer to are filled in, and no cell that was
to be filled stays pending. -/
theorem ensures_runBefore (query filled : Query) (related : List RelatedInsert)
    (asked : ∀ request ∈ related, request ∈ query.clauses.related) :
    (runBefore query filled related).Ensures query.Sent fun final ↦
      filled.Filled final ∧ ∀ row column, final.clauses.PendingAt row column →
        filled.clauses.PendingAt row column ∧
          ∀ relation data, .before row column relation data ∉ related := by
  match related with
  | [] =>
    rw [runBefore]
    exact ⟨.refl, fun row column h ↦ ⟨h, fun _ _ ↦ List.not_mem_nil⟩⟩
  | .after row relation rows :: rest =>
    rw [List.forall_mem_cons] at asked
    rw [runBefore]
    refine (ensures_runBefore query filled rest asked.2).mono (fun _ ↦ id)
      fun final ⟨hfilling, hpending⟩ ↦ ⟨hfilling, fun other place h ↦ ?_⟩
    obtain ⟨hearlier, hunasked⟩ := hpending other place h
    exact ⟨hearlier, fun relation data hmem ↦ hunasked relation data (by simpa using hmem)⟩
  | .before row column relation data :: rest =>
    rw [List.forall_mem_cons] at asked
    rw [runBefore]
    split
    · trivial
    · rename_i insertion hbuilt
      have := pendingWrites_insertionBefore_le hbuilt
      have hinsertion : insertion.runStatements.Ensures query.Sent fun _ ↦ True :=
        (ensures_runStatements insertion (careful_insertionBefore hbuilt)).mono
          (fun sent ⟨part, hpart, hsent⟩ ↦ ⟨part, .before asked.1 hbuilt hpart, hsent⟩) fun _ ↦ id
      refine ensures_bind hinsertion fun outcome _ ↦
        ensures_bind (ensures_ofExcept fun _ _ ↦ trivial) fun key (_ : True) ↦ ?_
      refine (ensures_runBefore query (filled.fillCell row column key) rest asked.2).mono
        (fun _ ↦ id) fun final ⟨hfilling, hpending⟩ ↦ ⟨hfilling.of_fillCell, fun other place h ↦ ?_⟩
      obtain ⟨hfilled, hunasked⟩ := hpending other place h
      obtain ⟨hearlier, helsewhere⟩ := pendingAt_fillCell hfilled
      refine ⟨hearlier, fun relation data hmem ↦ ?_⟩
      rcases List.mem_cons.1 hmem with hfirst | hrest
      · cases hfirst
        exact helsewhere ⟨rfl, rfl⟩
      · exact hunasked relation data hrest
termination_by 2 * RelatedInsert.totalWrites related
decreasing_by
  all_goals
    simp only [RelatedInsert.totalWrites, RelatedInsert.writes]
    omega

/-- The related rows behind a query send only what the query may send. -/
theorem ensures_runAfter (query : Query) (result : RowSet) (related : List RelatedInsert)
    (asked : ∀ request ∈ related, request ∈ query.clauses.related) :
    (runAfter query result related).Ensures query.Sent fun _ ↦ True := by
  match related with
  | [] =>
    rw [runAfter]
    trivial
  | .before row column relation data :: rest =>
    rw [List.forall_mem_cons] at asked
    rw [runAfter]
    exact ensures_runAfter query result rest asked.2
  | .after row relation rows :: rest =>
    rw [List.forall_mem_cons] at asked
    rw [runAfter]
    refine ensures_bind (ensures_ofExcept fun _ _ ↦ trivial) fun key _ ↦ ?_
    split
    · trivial
    · rename_i insertion hbuilt
      have := pendingWrites_insertionAfter_le hbuilt
      have hinsertion : insertion.runStatements.Ensures query.Sent fun _ ↦ True :=
        (ensures_runStatements insertion (careful_insertionAfter hbuilt)).mono
          (fun sent ⟨part, hpart, hsent⟩ ↦ ⟨part, .after asked.1 hbuilt hpart, hsent⟩) fun _ ↦ id
      exact ensures_bind hinsertion fun _ _ ↦ ensures_runAfter query result rest asked.2
termination_by 2 * RelatedInsert.totalWrites related
decreasing_by
  all_goals
    simp only [RelatedInsert.totalWrites, RelatedInsert.writes]
    omega

end

/-! ## Running in a session -/

/-- Apart from what controls its transaction, a query sends statements of the queries that it runs
only. -/
theorem sent_exec {σ : Type} (surroundings : Script.Surroundings σ) (careful : query.Careful)
    (session : Session) (memory : σ) :
    ∀ sent ∈ ((query.exec session).run surroundings memory).transmissions,
      ControlsTransaction sent.text ∨ query.Sent sent := by
  have hstatements : query.runStatements.Ensures
      (fun sent ↦ ControlsTransaction sent.text ∨ query.Sent sent) fun _ ↦ True :=
    (ensures_runStatements query careful).mono (fun _ ↦ .inr) fun _ ↦ id
  have hbetween : (query.runBetween session).Ensures
      (fun sent ↦ ControlsTransaction sent.text ∨ query.Sent sent) fun _ ↦ True := by
    rcases query.runBetween_cases session with ⟨scope, -, hallowed, hbetween⟩ |
      ⟨_, -, -, hbetween⟩ | ⟨-, hbetween⟩ <;> rw [hbetween]
    · have hcontrols := scope.controlsTransaction
      refine ensures_bind (ensures_send (.inl hcontrols.1)) fun reply _ ↦
        ensures_bind (ensures_ofExcept fun _ _ ↦ trivial) fun _ (_ : True) ↦
          ensures_bind hstatements.attempt fun result _ ↦ ?_
      cases result with
      | ok outcome =>
        exact ensures_bind (ensures_send (.inl hcontrols.2.1)) fun reply _ ↦
          ensures_bind (ensures_ofExcept fun _ _ ↦ trivial) fun _ (_ : True) ↦ trivial
      | error error =>
        refine ensures_bind (ensures_send (.inl hcontrols.2.2)) fun reply _ ↦ ?_
        cases reply <;> trivial
    · trivial
    · exact hstatements
  have hexec : (query.exec session).Ensures
      (fun sent ↦ ControlsTransaction sent.text ∨ query.Sent sent) fun _ ↦ True := by
    rw [exec_eq]
    exact ensures_bind (ensures_callAll _) fun _ _ ↦ ensures_bind hbetween fun outcome _ ↦
      ensures_bind (ensures_callAll _) fun _ _ ↦ trivial
  exact of_mem_transmissions surroundings hexec memory

end Query
end SqlComposer
