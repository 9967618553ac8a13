import SqlComposer.Proofs.Call.RetainedFallbacks
import SqlComposer.Proofs.Execution.CalledHooks
import SqlComposer.Proofs.Nested.AttachedRows

/-!
# Rows in place of queries

The row that is inserted in place of a query that matches none takes the form of its output, its
selection and its hooks from the query on which it was asked for. Later calls change what the query
itself hands back and register further hooks, and none of that reaches the row in its place. So the
two forms of output agree only where the form of the query that is run is still the one for which
the row was asked, and hooks that are registered later are not called around that row.
-/

namespace SqlComposer

/-! ## Forms of outputs -/

/-- The form of an output, without what it holds. -/
inductive Output.Form where
  | all
  | one
  | rows
  | pluck
  | value
  | rowCount
  | void
  deriving DecidableEq, Repr

namespace Output

def form : Output → Form
  | all _ => .all
  | one _ => .one
  | rows _ => .rows
  | pluck _ => .pluck
  | value _ => .value
  | rowCount _ => .rowCount
  | void => .void

/-- Whether outputs of a form stand for a number of rows. -/
def Form.counts : Form → Bool
  | .all | .rowCount | .void => true
  | .one | .rows | .pluck | .value => false

theorem exists_executed_iff (output : Output) :
    (∃ number, output.executed = .ok number) ↔ output.form.counts := by
  cases output <;> simp [executed, form, Form.counts, mismatch]

/-- The form of an output is settled before there is a result. -/
theorem form_ofRowSet (shape : Shape) (returnsRecords : Bool) (result other : RowSet) :
    (ofRowSet shape returnsRecords result).form = (ofRowSet shape returnsRecords other).form := by
  cases shape <;> cases returnsRecords <;> rfl

end Output

namespace Query

/-- The form of what a query hands back. -/
def form (query : Query) : Output.Form := (query.outputOf .empty).form

theorem form_outputOf (query : Query) (result : RowSet) :
    (query.outputOf result).form = query.form :=
  Output.form_ofRowSet _ _ _ _

/-- Neither the form nor what is needed around an insertion depends on the keys that fill it. -/
theorem form_fillCell (query : Query) (row column : Nat) (key : Literal) :
    (query.fillCell row column key).form = query.form := by
  unfold form outputOf fillCell modify Clauses.returnsRecords
  cases hverb : query.clauses.verb <;> simp only [hverb]

/-- Filling the keys of related rows leaves the form of a query. -/
theorem form_runBefore {σ : Type} {surroundings : Script.Surroundings σ}
    {query filled final : Query} {related : List RelatedInsert} {memory ended : σ}
    (h : CompletesBefore surroundings query filled related memory final ended) :
    final.form = filled.form := by
  induction related generalizing filled memory with
  | nil =>
    cases h
    rfl
  | cons first rest ih =>
    cases h with
    | before _ _ _ others => exact (ih others).trans (form_fillCell _ _ _ _)
    | after others => exact ih others

/-- The form of the output of a row in place of a query. -/
def fallbackForm (query : Query) : Output.Form :=
  if query.clauses.counts then .rowCount
  else
    match fallbackShape query.clauses with
    | .value | .valueOrThrow => .value
    | .rowCount => .rowCount
    | _ => .one

end Query

/-! ## Asking for a row in place of a query -/

/-- The query in whose place a call asks for a row: an upsert updates it first. -/
def Call.base (start : Query) : Call → Except Error Query
  | upsert data _ => if data.entries.isEmpty then .ok start else start.update data
  | _ => .ok start

/-- A call that asks for a row in place of a query does so on its base. -/
theorem Call.exists_orCreate {start made : Query} {call : Call}
    (asked : call.apply start = .ok made) (replaces : call.replaces) :
    ∃ query row, call.base start = .ok query ∧ query.orCreate row = .ok made := by
  cases call with
  | orCreate row => exact ⟨start, row, rfl, asked⟩
  | upsert data row =>
    simp only [apply, Query.upsert] at asked
    unfold base
    split at asked <;> rename_i hempty
    · exact ⟨start, row, if_pos hempty, asked⟩
    · obtain ⟨query, hquery, hmade⟩ := bind_eq_ok.1 asked
      exact ⟨query, row, (if_neg hempty).trans hquery, hmade⟩
  | _ => cases replaces

namespace Query

/-- A row in place of a query is an insertion that hands back what its query asked for when it was
asked for itself, calls the hooks of that query and has no row in its own place. -/
structure Configures (query insertion : Query) : Prop where
  inserts : ∃ rows, insertion.clauses.verb = .insert rows
  form : insertion.form = query.fallbackForm
  hooks : insertion.clauses.hooks = query.clauses.hooks
  alone : insertion.clauses.fallback = none

theorem Configures.withClauses {query insertion : Query} (h : query.Configures insertion)
    (other : Query) : query.Configures (other.withClauses insertion.clauses) :=
  ⟨h.inserts, h.form, h.hooks, h.alone⟩

/-- A row in place of a query is counted or expected. -/
theorem fallbackShape_cases (clauses : Clauses Statement) :
    fallbackShape clauses = .rowCount ∨ (fallbackShape clauses).expectsOne := by
  have hshape (updatesSilently : Bool) :
      (if updatesSilently then .rowCount
        else if clauses.shape.expectsOne then clauses.shape else .one : Shape) = .rowCount ∨
      (if updatesSilently then .rowCount
        else if clauses.shape.expectsOne then clauses.shape else .one : Shape).expectsOne := by
    cases updatesSilently <;> cases clauses.shape <;> decide
  unfold fallbackShape
  exact hshape _

/-- The insertion of a fallback is configured like the query it stands in for. -/
theorem configures_insert {query inserted : Query} {table : Table} {row : Payload}
    (h : (query.withClauses (fallbackBase query.clauses table)).insert row = .ok inserted) :
    query.Configures inserted := by
  simp only [insert, insertRows, bind_eq_ok, refusing_eq_ok] at h
  obtain ⟨_, _, _, _, _, h⟩ := h
  cases h
  refine ⟨⟨_, rfl⟩, ?_, rfl, rfl⟩
  have hcounts : (query.withClauses (fallbackBase query.clauses table)).clauses.counts =
      query.clauses.counts := rfl
  simp only [form, outputOf, modify, Clauses.returnsRecords, hcounts, fallbackForm]
  have hshape : (query.withClauses (fallbackBase query.clauses table)).clauses.shape =
      fallbackShape query.clauses := rfl
  have hexpects := fallbackShape_cases query.clauses
  rw [hshape]
  by_cases hcount : query.clauses.counts = true
  · simp [hcount, Output.ofRowSet, Output.form]
  · simp only [hcount, Bool.false_eq_true, ↓reduceIte]
    cases hfallback : fallbackShape query.clauses <;>
      simp_all [insertShape, Shape.returnsRows, Shape.expectsOne, Output.ofRowSet, Output.form]

/-- A query that was asked for a row in its place keeps its hooks and has an insertion for it. -/
theorem configures_orCreate {query made : Query} {row : Payload}
    (asked : query.orCreate row = .ok made) :
    made.clauses.hooks = query.clauses.hooks ∧ ∃ insertion,
      made.clauses.fallback = some insertion.statement ∧ query.Configures insertion := by
  obtain ⟨table, insertion, -, -, hinsert, rfl⟩ := orCreate_eq_ok asked
  exact ⟨rfl, insertion, rfl, configures_insert hinsert⟩

/-! ## Running with a row in place -/

/-- What a query does before its statements: it opens the scope that it needs. -/
def opening (query : Query) (session : Session) : Script Unit :=
  if query.clauses.inTransaction then
    (Script.ofExcept (Scope.ofSession session)).bind fun scope =>
    (query.send scope.opening []).bind fun reply =>
    (Script.ofExcept reply).bind fun _ => .done ()
  else .done ()

/-- A query that is run up to the answer to its own statement, for the number of rows that this
matches. -/
def matching (query : Query) (session : Session) : Script Nat :=
  (Script.callAll query.hooksBefore).bind fun _ =>
  (query.opening session).bind fun _ =>
  (runBefore query query query.clauses.related).bind fun filled =>
  filled.sendStatement.bind fun result => .done (filled.matchedRows result)

variable {σ : Type} (surroundings : Script.Surroundings σ)

/-- The scope of a query is opened in front of its statements, and no hook is called to open or to
leave it. -/
theorem calls_runBetween {query : Query} {session : Session} {memory ended : σ}
    {calls : List HookCall} {outcome : Outcome}
    (h : (query.runBetween session).Calls surroundings memory calls outcome ended) :
    ∃ start closed, (query.opening session).Yields surroundings memory () start ∧
      query.runStatements.Calls surroundings start calls outcome closed := by
  unfold opening
  rcases query.runBetween_cases session with ⟨scope, hmarked, hscope, hbetween⟩ |
    ⟨_, -, -, hbetween⟩ | ⟨hunmarked, hbetween⟩ <;> rw [hbetween] at h
  · simp only [runWithin, Script.calls_bind, Script.calls_of_quiet _ (quiet_send _ _ _),
      Script.calls_of_quiet _ (Script.quiet_ofExcept _), Script.yields_ofExcept,
      Script.calls_attempt, Script.calls_of_quiet _ (quiet_leave _ _ _)] at h
    obtain ⟨reply, opened, _, _, ⟨hsend, rfl⟩, ⟨rows, _, _, _, ⟨⟨hreply, rfl⟩, rfl⟩, ⟨result,
      closed, _, _, ⟨hresult, hmemory, rfl⟩, ⟨hleave, rfl⟩, rfl⟩, rfl⟩, rfl⟩ := h
    obtain ⟨rfl, -⟩ := leave_eq_ok surroundings hleave.1
    refine ⟨opened, closed, ?_, ⟨hresult, hmemory⟩, by simp⟩
    simp only [hmarked, if_true, Script.yields_bind, Script.yields_ofExcept, Script.yields_done]
    exact ⟨scope, memory, ⟨hscope, rfl⟩, reply, opened, hsend, rows, opened, ⟨hreply, rfl⟩,
      trivial, rfl⟩
  · cases h.1.1
  · exact ⟨memory, ended, by simp [hunmarked], h⟩

/-- What becomes of a query with a row in its place. -/
inductive Settled (query insertion : Query) (outcome : Outcome) (calls : List HookCall) : Nat → Prop
  /-- The query matches a row itself. -/
  | own (created : outcome.created = none) (form : outcome.output.form = query.form)
      (quiet : calls = []) : Settled query insertion outcome calls 1
  /-- The query matches no row, and the row in its place is inserted between its hooks. -/
  | replaced (created : outcome.created = some insertion)
      (form : outcome.output.form = insertion.form) (hooks : calls = insertion.hooksBefore) :
      Settled query insertion outcome calls 0

/-- The statements of a query with a row in its place end only where it matches one row or none. -/
theorem settled_runStatements {query insertion : Query} {fallback : Statement}
    (held : query.clauses.fallback = some fallback)
    (same : query.withClauses fallback.clauses = insertion)
    (alone : insertion.clauses.fallback = none) {memory ended : σ} {calls : List HookCall}
    {outcome : Outcome}
    (h : query.runStatements.Calls surroundings memory calls outcome ended) :
    ∃ filled filledAt result answeredAt,
      (runBefore query query query.clauses.related).Yields surroundings memory filled filledAt ∧
      filled.sendStatement.Yields surroundings filledAt result answeredAt ∧
      Settled query insertion outcome calls (filled.matchedRows result) := by
  have hinserted : ∀ {memory ended : σ} {outcome : Outcome},
      insertion.runStatements.Yields surroundings memory outcome ended →
        outcome.output.form = insertion.form := by
    intro memory ended outcome houtcome
    cases (yields_runStatements insertion).1 houtcome with
    | matching before => rw [form_outputOf, form_runBefore before]
    | creating _ _ replaced => cases alone.symm.trans replaced
  rw [runStatements_eq, Script.calls_bind] at h
  obtain ⟨filled, filledAt, _, _, hbefore, h, rfl⟩ := h
  rw [Script.calls_of_quiet _ (quiet_runBefore _ _ _)] at hbefore
  obtain ⟨hbefore, rfl⟩ := hbefore
  rw [Script.calls_bind] at h
  obtain ⟨result, answeredAt, _, _, hanswer, h, rfl⟩ := h
  rw [Script.calls_of_quiet _ (quiet_sendStatement _)] at hanswer
  obtain ⟨hanswer, rfl⟩ := hanswer
  refine ⟨filled, filledAt, result, answeredAt, hbefore, hanswer, ?_⟩
  rw [List.nil_append, List.nil_append]
  unfold proceed at h
  rw [held] at h
  dsimp only at h
  split at h
  · exact absurd h.1 (Script.yields_fail surroundings)
  · split at h
    · rename_i hnone
      rw [create, same, Script.calls_bind] at h
      obtain ⟨_, agreedAt, _, _, hagreed, h, rfl⟩ := h
      rw [Script.calls_callAll] at hagreed
      obtain ⟨-, rfl⟩ := hagreed
      rw [Script.calls_bind] at h
      obtain ⟨inner, innerAt, _, _, hinner, hlast, rfl⟩ := h
      rw [Script.calls_of_quiet _ (quiet_runStatements insertion alone)] at hinner
      obtain ⟨hinner, rfl⟩ := hinner
      obtain ⟨⟨houtcome, -⟩, rfl⟩ :=
        (Script.calls_of_quiet surroundings (Script.quiet_done _)).1 hlast
      cases houtcome
      have hform := hinserted hinner
      rw [hnone]
      exact .replaced rfl hform (by simp)
    · have hone : filled.matchedRows result = 1 := by omega
      have hquiet : (query.finish filled result).Quiet :=
        Script.quiet_bind (Script.quiet_ofExcept _) fun _ ↦
          Script.quiet_bind (quiet_runAfter _ _ _) fun _ ↦ trivial
      obtain ⟨hfinish, rfl⟩ := (Script.calls_of_quiet surroundings hquiet).1 h
      obtain ⟨-, -, rfl⟩ := yields_finish.1 hfinish
      rw [hone]
      refine .own rfl ?_ rfl
      rw [form_outputOf, form_runBefore ((yields_runBefore _ _ _).1 hbefore)]

/-- How a query with a row in its place is run to an output, and which hooks are called. -/
inductive Ends (query insertion : Query) (session : Session) (memory : σ) (output : Output)
    (calls : List HookCall) : Prop
  /-- The query matches one row and hands back an output of its own form. -/
  | own (matched : ((query.matching session).run surroundings memory).result = .ok 1)
      (form : output.form = query.form)
      (calls : calls = query.hooksBefore ++ query.hooksAfter output)
  /-- The query matches none, and the row in its place is inserted and handed back. -/
  | replaced (matched : ((query.matching session).run surroundings memory).result = .ok 0)
      (form : output.form = insertion.form)
      (calls : calls =
        query.hooksBefore ++ (insertion.hooksBefore ++ insertion.hooksAfter output))

/-- A query with a fallback ends in its own form or in that of the insertion. -/
theorem ends_exec {query insertion : Query} {fallback : Statement} {session : Session}
    (held : query.clauses.fallback = some fallback)
    (same : query.withClauses fallback.clauses = insertion)
    (alone : insertion.clauses.fallback = none) {memory : σ} {output : Output}
    (h : ((query.exec session).run surroundings memory).result = .ok output) :
    Ends surroundings query insertion session memory output
      ((query.exec session).run surroundings memory).calls := by
  obtain ⟨calls, ended, hexec⟩ := Script.exists_calls_of_ok surroundings h
  have hcalls := hexec.2
  rw [exec_eq, Script.calls_bind] at hexec
  obtain ⟨_, ready, _, _, hbefore, hexec, hall⟩ := hexec
  rw [Script.calls_callAll] at hbefore
  obtain ⟨hagreed, rfl⟩ := hbefore
  rw [Script.calls_bind] at hexec
  obtain ⟨outcome, between, body, _, hbetween, hexec, rfl⟩ := hexec
  rw [Script.calls_bind] at hexec
  obtain ⟨_, _, _, _, hafter, hlast, rfl⟩ := hexec
  rw [Script.calls_callAll] at hafter
  obtain ⟨-, rfl⟩ := hafter
  obtain ⟨⟨houtput, -⟩, rfl⟩ := (Script.calls_of_quiet surroundings (Script.quiet_done _)).1 hlast
  cases houtput
  obtain ⟨start, closed, hopening, hstatements⟩ := calls_runBetween surroundings hbetween
  obtain ⟨filled, filledAt, result, answeredAt, hfilled, hanswer, hsettled⟩ :=
    settled_runStatements surroundings held same alone hstatements
  have hmatching : (query.matching session).Yields surroundings memory (filled.matchedRows result)
      answeredAt := by
    unfold matching
    rw [Script.yields_bind]
    refine ⟨(), ready, (Script.yields_callAll surroundings).2 hagreed, ?_⟩
    rw [Script.yields_bind]
    refine ⟨(), start, hopening, ?_⟩
    rw [Script.yields_bind]
    refine ⟨filled, filledAt, hfilled, ?_⟩
    rw [Script.yields_bind]
    exact ⟨result, answeredAt, hanswer, (Script.yields_done surroundings).2 ⟨rfl, rfl⟩⟩
  rw [hcalls, hall]
  generalize filled.matchedRows result = number at hsettled hmatching
  cases hsettled with
  | own created form quiet =>
    refine .own hmatching.1 form ?_
    simp [created, quiet]
  | replaced created form hooks =>
    refine .replaced hmatching.1 form ?_
    simp [created, hooks]

/-- With one match the output has the form of the query. -/
theorem Ends.form_of_one {query insertion : Query} {session : Session} {memory : σ}
    {output : Output} {calls : List HookCall}
    (h : Ends surroundings query insertion session memory output calls)
    (one : ((query.matching session).run surroundings memory).result = .ok 1) :
    output.form = query.form := by
  cases h with
  | own _ form => exact form
  | replaced matched => cases one.symm.trans matched

/-- Without a match the output has the form of the insertion. -/
theorem Ends.form_of_none {query insertion : Query} {session : Session} {memory : σ}
    {output : Output} {calls : List HookCall}
    (h : Ends surroundings query insertion session memory output calls)
    (none : ((query.matching session).run surroundings memory).result = .ok 0) :
    output.form = insertion.form := by
  cases h with
  | own matched => cases none.symm.trans matched
  | replaced _ form => exact form

/-! ## What agrees -/

/-- The names of the hooks that are called around a row in place of a query are those of the query
that it was asked for on. -/
theorem Configures.names {query insertion : Query} (h : query.Configures insertion)
    (output : Output) :
    insertion.hooksBefore.map HookCall.name = query.clauses.hooks.beforeInsert ∧
      (insertion.hooksAfter output).map HookCall.name = query.clauses.hooks.afterInsert := by
  obtain ⟨rows, hverb⟩ := h.inserts
  simp [hooksBefore, hooksAfter, hverb, h.hooks, Function.comp_def]

/-- Where the hooks agree, a query that ends with an outcome is run to its output. -/
theorem result_exec {query : Query} {session : Session} {memory ready ended last : σ}
    {sent : List CompiledSql} {outcome : Outcome}
    (between : (query.runBetween session).Plays surroundings ready sent outcome ended)
    (before : Script.Agree surroundings query.hooksBefore memory ready)
    (after : Script.Agree surroundings
      ((outcome.created.getD query).hooksAfter outcome.output) ended last) :
    ((query.exec session).run surroundings memory).result = .ok outcome.output := by
  have hexec : (query.exec session).Yields surroundings memory outcome.output last := by
    rw [exec_eq, Script.yields_bind]
    refine ⟨(), ready, (Script.yields_callAll surroundings).2 before, ?_⟩
    rw [Script.yields_bind]
    refine ⟨outcome, ended, between.1, ?_⟩
    rw [Script.yields_bind]
    exact ⟨(), last, (Script.yields_callAll surroundings).2 after,
      (Script.yields_done surroundings).2 ⟨rfl, rfl⟩⟩
  exact hexec.1

/-- A change is run for the number of its rows by reading the output of its count. -/
theorem result_execute {query : Query} (changes : query.clauses.verb.isMutation)
    {session : Session} {memory : σ} {output : Output}
    (h : ((query.count.exec session).run surroundings memory).result = .ok output) :
    ((query.execute session).run surroundings memory).result = output.executed := by
  have hexecute : query.execute session =
      (query.count.exec session).bind fun output => Script.ofExcept output.executed := by
    unfold execute
    rw [if_pos changes]
    rfl
  rw [hexecute, Script.result_bind_ok surroundings h]
  cases output.executed <;> rfl

theorem form_count {query : Query} (changes : query.clauses.verb.isMutation) :
    query.count.form = .rowCount := by
  have hcount : query.count.clauses.shape = .rowCount := by
    simp [count, countOf, modify, changes]
  simp only [form, outputOf, hcount, Output.ofRowSet, Output.form]

theorem fallbackForm_counts (query : Query) :
    query.fallbackForm.counts ↔ query.fallbackForm = .rowCount := by
  unfold fallbackForm
  split
  · simp [Output.Form.counts]
  · split <;> simp [Output.Form.counts]

/-- A query that was asked for a row in its place and is then built further ends with an output of
its own form where it matches one row, and where it matches none, with one of the form that was
settled when the row was asked for, behind the hooks that were registered by then. -/
theorem exec_configured {start made final : Query} {call : Call} {calls : List Call}
    (asked : call.apply start = .ok made) (replaces : call.replaces)
    (further : made.Continues calls final) :
    ∃ query insertion, call.base start = .ok query ∧
      final.clauses.fallback = some insertion.statement ∧ query.Configures insertion ∧
      final.clauses.hooks = query.clauses.hooks ++ Call.registered calls ∧
      (∀ session memory output,
        ((final.exec session).run surroundings memory).result = .ok output →
        Ends surroundings final insertion session memory output
          ((final.exec session).run surroundings memory).calls) ∧
      (∀ session memory output other,
        ((final.exec session).run surroundings memory).result = .ok output →
        ((final.matching session).run surroundings memory).result = .ok 1 →
        ∀ session memory, ((final.exec session).run surroundings memory).result = .ok other →
        ((final.matching session).run surroundings memory).result = .ok 0 →
        (output.form = other.form ↔ final.form = query.fallbackForm)) ∧
      (∀ output, insertion.hooksBefore.map HookCall.name = final.clauses.hooks.beforeInsert ∧
        (insertion.hooksAfter output).map HookCall.name = final.clauses.hooks.afterInsert ↔
        (Call.registered calls).beforeInsert = [] ∧ (Call.registered calls).afterInsert = []) ∧
      (final.clauses.verb.isMutation → ∀ session memory output,
        ((final.count.exec session).run surroundings memory).result = .ok output →
        ((∃ number, ((final.execute session).run surroundings memory).result = .ok number) ↔
          ((final.count.matching session).run surroundings memory).result = .ok 1 ∨
            query.fallbackForm = .rowCount)) := by
  obtain ⟨query, row, hbase, hcreated⟩ := Call.exists_orCreate asked replaces
  obtain ⟨hhooks, asking, hasking, hconfigures⟩ := configures_orCreate hcreated
  have hgrows := further.grows
  have hheld : final.clauses.fallback = some asking.statement := hgrows.fallback.trans hasking
  have hregistered : final.clauses.hooks = query.clauses.hooks ++ Call.registered calls :=
    hhooks ▸ hgrows.hooks
  have hinsertion := hconfigures.withClauses final
  have hends (query : Query) (same : query.clauses.fallback = some asking.statement)
      (session : Session) (memory : σ) (output : Output)
      (h : ((query.exec session).run surroundings memory).result = .ok output) :
      Ends surroundings query (query.withClauses asking.clauses) session memory output
        ((query.exec session).run surroundings memory).calls :=
    ends_exec surroundings same rfl (hconfigures.withClauses query).alone h
  refine ⟨query, final.withClauses asking.clauses, hbase, hheld, hinsertion, hregistered,
    hends final hheld, ?_, fun output ↦ ?_, ?_⟩
  · intro session memory output other houtput hone session' memory' hother hnone
    have hform := (hends final hheld session memory output houtput).form_of_one surroundings hone
    have hothers :=
      (hends final hheld session' memory' other hother).form_of_none surroundings hnone
    rw [hform, hothers, hinsertion.form]
  · obtain ⟨hbefore, hafter⟩ := hinsertion.names output
    rw [hbefore, hafter, hregistered, Hooks.append_eq]
    simp
  · intro changes session memory output houtput
    have hcounted := hends final.count ((Retains.countOf final none).fallback.trans hheld) session
      memory output houtput
    rw [result_execute surroundings changes houtput, Output.exists_executed_iff]
    cases hcounted with
    | own matched form =>
      rw [form, form_count changes]
      exact ⟨fun _ ↦ .inl matched, fun _ ↦ rfl⟩
    | replaced matched form =>
      rw [form, (hconfigures.withClauses final.count).form, fallbackForm_counts, matched]
      simp

/-- A query that matches no row sends its own statement and then those of the row in its place. -/
theorem plays_replaced {query filled : Query} {fallback : Statement} {result reply : RowSet}
    {outcome : Outcome} {sql : CompiledSql} {earlier later : List CompiledSql}
    {memory between answered agreed ended : σ} (held : query.clauses.fallback = some fallback)
    (before : (runBefore query query query.clauses.related).Plays surroundings memory earlier filled
      between)
    (written : filled.compile = .ok sql)
    (sent : surroundings.send between sql.text sql.values = (.ok reply, answered))
    (read : filled.decoded reply = .ok result) (unmatched : filled.matchedRows result = 0)
    (hooks : Script.Agree surroundings (query.withClauses fallback.clauses).hooksBefore answered
      agreed)
    (creation : (query.withClauses fallback.clauses).runStatements.Plays surroundings agreed later
      outcome ended) :
    query.runStatements.Plays surroundings memory (earlier ++ sql :: later)
      ⟨outcome.output, some (query.withClauses fallback.clauses)⟩ ended := by
  have hown := (plays_sendStatement surroundings).2 ⟨sql, reply, written, sent, read, rfl⟩
  have hcreate : (query.proceed filled result).Plays surroundings answered later
      ⟨outcome.output, some (query.withClauses fallback.clauses)⟩ ended := by
    have hproceed : query.proceed filled result = query.create fallback := by
      unfold proceed
      simp [held, unmatched]
    rw [hproceed]
    exact (Script.plays_bind surroundings).2 ⟨(), agreed, [], _,
      (Script.plays_callAll surroundings).2 ⟨hooks, rfl⟩,
      (Script.plays_bind surroundings).2 ⟨outcome, ended, _, [], creation,
        (Script.plays_done surroundings).2 ⟨rfl, rfl, rfl⟩, rfl⟩, by simp⟩
  rw [runStatements_eq]
  exact (Script.plays_bind surroundings).2 ⟨filled, _, _, _, before,
    (Script.plays_bind surroundings).2 ⟨result, _, _, _, hown, hcreate, rfl⟩, rfl⟩

end Query

/-! ## A user that is renamed or inserted -/

namespace Blog

/-- The user with the key one, of whom the key is handed back. -/
def keyed : Query :=
  (users.filter (.compare ⟨none, "id"⟩ .equals (.term (.literal (.int 1))))).selectItems
    [.ofColumn ⟨none, "id"⟩]

def ada : Payload := text "name" "Ada"

/-- The user is renamed, or inserted if there is none. -/
def renamed : Query := (keyed.upsert ada ada).toOption.getD keyed

theorem upsert_keyed : (Call.upsert ada ada).apply keyed = .ok renamed := rfl

/-- A hook is registered, and the number of rows is asked for. -/
def counted : Query := (renamed.beforeInsert "check").count

theorem continues_renamed : renamed.Continues [.beforeInsert "check", .count] counted :=
  .call (.call .done rfl rfl rfl) rfl rfl rfl

def arriving : Query :=
  counted.withClauses ((counted.clauses.fallback.map Statement.clauses).getD .empty)

def added : RowSet := ⟨1, [⟨["id"], [.int 1]⟩]⟩

/-- The user is there: its update is counted. -/
theorem plays_found : ∃ update, counted.compile = .ok update ∧
    (counted.runBetween ⟨false, true⟩).Plays server [.ok ⟨1, []⟩]
      [⟨"BEGIN", []⟩, update, ⟨"COMMIT", []⟩] ⟨.rowCount 1, none⟩ [] := by
  obtain ⟨update, hupdate⟩ : ∃ sql, counted.compile = .ok sql := ⟨_, rfl⟩
  have hupdated : counted.runStatements.Plays server [.ok ⟨1, []⟩] ([] ++ update :: [])
      ⟨counted.outputOf ⟨1, []⟩, none⟩ [] :=
    Query.plays_runStatements (fun _ ↦ rfl) (Query.plays_runBefore_nil counted _) hupdate
      (send_server hupdate _) rfl rfl (Query.plays_runAfter_nil _ _ _)
  exact ⟨update, hupdate, plays_inTransaction rfl hupdated⟩

/-- The user is missing: it is inserted, and its key is handed back. -/
theorem plays_arriving : ∃ update insertion, counted.compile = .ok update ∧
    arriving.compile = .ok insertion ∧
    (counted.runBetween ⟨false, true⟩).Plays server [.ok ⟨0, []⟩, .ok added]
      [⟨"BEGIN", []⟩, update, insertion, ⟨"COMMIT", []⟩]
      ⟨.one (some ⟨["id"], [.int 1]⟩), some arriving⟩ [] := by
  obtain ⟨update, hupdate⟩ : ∃ sql, counted.compile = .ok sql := ⟨_, rfl⟩
  obtain ⟨insertion, hinsertion⟩ : ∃ sql, arriving.compile = .ok sql := ⟨_, rfl⟩
  have hcreation : arriving.runStatements.Plays server [.ok added] ([] ++ insertion :: [])
      ⟨arriving.outputOf added, none⟩ [] :=
    Query.plays_runStatements nofun (Query.plays_runBefore_nil arriving _) hinsertion
      (send_server hinsertion _) rfl rfl (Query.plays_runAfter_nil _ _ _)
  have hheld : counted.clauses.fallback = some arriving.statement := rfl
  have hhooks : Script.Agree server arriving.hooksBefore [.ok added] [.ok added] := rfl
  have hreplaced : counted.runStatements.Plays server [.ok ⟨0, []⟩, .ok added]
      ([] ++ update :: ([] ++ insertion :: [])) ⟨arriving.outputOf added, some arriving⟩ [] :=
    Query.plays_replaced server hheld (Query.plays_runBefore_nil counted _) hupdate
      (send_server hupdate _) rfl rfl hhooks hcreation
  exact ⟨update, insertion, hupdate, hinsertion, plays_inTransaction rfl hreplaced⟩

end Blog

namespace Query

/-- The two outputs of a renaming that is counted have different forms. -/
theorem exec_configured_renamed :
    ∃ query insertion output,
      Call.base Blog.keyed (.upsert Blog.ada Blog.ada) = .ok query ∧
      query.Configures insertion ∧
      Blog.counted.clauses.hooks =
        query.clauses.hooks ++ Call.registered [.beforeInsert "check", .count] ∧
      ((Blog.counted.exec ⟨false, true⟩).run Blog.server [.ok ⟨0, []⟩, .ok Blog.added]).result =
        .ok output ∧
      Ends Blog.server Blog.counted insertion ⟨false, true⟩ [.ok ⟨0, []⟩, .ok Blog.added] output
        ((Blog.counted.exec ⟨false, true⟩).run Blog.server
          [.ok ⟨0, []⟩, .ok Blog.added]).calls := by
  obtain ⟨_, _, _, _, hplays⟩ := Blog.plays_arriving
  have hresult := result_exec Blog.server hplays rfl rfl
  obtain ⟨query, insertion, hbase, -, hconfigures, hhooks, hends, -⟩ :=
    exec_configured Blog.server Blog.upsert_keyed rfl Blog.continues_renamed
  exact ⟨query, insertion, _, hbase, hconfigures, hhooks, hresult, hends _ _ _ hresult⟩

/-- A renaming that is run for the number of rows fails behind the commit of the insertion, which
the hook that was registered for insertions has not seen. -/
theorem execute_renamed :
    (Call.upsert Blog.ada Blog.ada).apply Blog.keyed = .ok Blog.renamed ∧
      Blog.renamed.Continues [.beforeInsert "check", .count] Blog.counted ∧
      Blog.counted.clauses.hooks.beforeInsert = ["check"] ∧
      ((Blog.counted.exec ⟨false, true⟩).run Blog.server [.ok ⟨1, []⟩]).result =
        .ok (.rowCount 1) ∧
      (∃ update insertion, Blog.counted.compile = .ok update ∧
        insertion.text = "INSERT INTO \"user\"(\"name\") VALUES ($1) RETURNING \"user\".\"id\"" ∧
        ((Blog.counted.exec ⟨false, true⟩).run Blog.server
          [.ok ⟨0, []⟩, .ok Blog.added]).transmissions =
            [⟨"BEGIN", []⟩, update, insertion, ⟨"COMMIT", []⟩] ∧
        ((Blog.counted.exec ⟨false, true⟩).run Blog.server
          [.ok ⟨0, []⟩, .ok Blog.added]).result = .ok (.one (some ⟨["id"], [.int 1]⟩)) ∧
        ((Blog.counted.execute ⟨false, true⟩).run Blog.server
          [.ok ⟨0, []⟩, .ok Blog.added]).result =
            (Output.one (some ⟨["id"], [.int 1]⟩)).mismatch "a row count" ∧
        ((Blog.counted.exec ⟨false, true⟩).run Blog.server
          [.ok ⟨0, []⟩, .ok Blog.added]).calls = []) := by
  obtain ⟨_, _, hfound⟩ := Blog.plays_found
  obtain ⟨update, insertion, hupdate, hinsertion, hplays⟩ := Blog.plays_arriving
  have hresult := result_exec Blog.server hplays rfl rfl
  have hcount : Blog.counted.count = Blog.counted := rfl
  refine ⟨Blog.upsert_keyed, Blog.continues_renamed, rfl, result_exec Blog.server hfound rfl rfl,
    update, insertion, hupdate, ?_, transmissions_exec Blog.server rfl hplays, hresult,
    result_execute Blog.server rfl (hcount.symm ▸ hresult), ?_⟩
  · cases hinsertion
    decide +kernel
  · cases ends_exec Blog.server rfl rfl rfl hresult with
    | own _ form => cases form
    | replaced _ _ calls => exact calls

end Query
end SqlComposer
