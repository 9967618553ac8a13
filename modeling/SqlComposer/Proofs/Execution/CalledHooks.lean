import SqlComposer.Proofs.Execution.TransactionBrackets

/-!
# Hooks that are called

Hooks are called around a query and around the row that is inserted in its place. Everything else
that a query does is quiet: the rows that its rows refer to, its own statement and the rows that
refer to its rows are sent without calling any hook, whatever is answered. So a query that is run
to an output has called the hooks before it, those around the row in its place if there is one, and
the hooks after it or after that row.
-/

namespace SqlComposer

namespace Script

variable {σ α β : Type}

def Event.hook? : Event → Option HookCall
  | called hook => some hook
  | sent _ _ | controlled _ | logged _ => none

def Played.calls (played : Played σ α) : List HookCall := played.events.filterMap Event.hook?

/-! ## Quiet scripts -/

/-- A script that calls no hook, whatever it is answered. -/
def Quiet : Script α → Prop
  | done _ | fail _ => True
  | send _ _ answer => ∀ reply, (answer reply).Quiet
  | control _ answer => ∀ reply, (answer reply).Quiet
  | call _ _ => False
  | log _ rest => rest.Quiet

@[simp]
theorem quiet_done (value : α) : (done value).Quiet := trivial

theorem quiet_bind {script : Script α} {next : α → Script β} (first : script.Quiet)
    (rest : ∀ value, (next value).Quiet) : (script.bind next).Quiet := by
  induction script with
  | done value => exact rest value
  | fail error => trivial
  | send sql values answer ih | control sql answer ih => exact fun reply ↦ ih reply (first reply)
  | call hook answer => exact first.elim
  | log event others ih => exact ih first

@[simp]
theorem quiet_ofExcept (result : Except Error α) : (ofExcept result).Quiet := by
  cases result <;> trivial

variable (surroundings : Surroundings σ)

theorem calls_quiet {script : Script α} (quiet : script.Quiet) (memory : σ) :
    (script.run surroundings memory).calls = [] := by
  unfold Played.calls
  induction script generalizing memory with
  | done value | fail error => rfl
  | send sql values answer ih | control sql answer ih => exact ih _ (quiet _) _
  | call hook answer => exact quiet.elim
  | log event rest ih => exact ih quiet memory

/-! ## Scripts that call hooks -/

/-- Played from a memory, a script calls hooks, ends with a value and leaves another memory. -/
def Calls (script : Script α) (memory : σ) (calls : List HookCall) (value : α) (ended : σ) : Prop :=
  script.Yields surroundings memory value ended ∧ (script.run surroundings memory).calls = calls

/-- A run that ends well calls some list of hooks. -/
theorem exists_calls_of_ok {script : Script α} {memory : σ} {value : α}
    (h : (script.run surroundings memory).result = .ok value) :
    ∃ calls ended, script.Calls surroundings memory calls value ended :=
  ⟨_, _, ⟨h, rfl⟩, rfl⟩

/-- A quiet script calls no hook. -/
theorem calls_of_quiet {script : Script α} (quiet : script.Quiet) {memory ended : σ}
    {calls : List HookCall} {value : α} :
    script.Calls surroundings memory calls value ended ↔
      script.Yields surroundings memory value ended ∧ calls = [] := by
  rw [Calls, calls_quiet surroundings quiet, eq_comm (a := calls)]

/-- Behind another script a script calls its hooks behind those of the other. -/
theorem calls_bind {script : Script α} {next : α → Script β} {memory ended : σ}
    {calls : List HookCall} {value : β} :
    (script.bind next).Calls surroundings memory calls value ended ↔
      ∃ first between earlier later, script.Calls surroundings memory earlier first between ∧
        (next first).Calls surroundings between later value ended ∧ calls = earlier ++ later := by
  have hbehind {first : α} {between : σ} (h : script.Yields surroundings memory first between) :
      ((script.bind next).run surroundings memory).calls =
        (script.run surroundings memory).calls ++
          ((next first).run surroundings between).calls := by
    obtain ⟨hfirst, rfl⟩ := h
    rw [run_bind, Played.followed_ok hfirst]
    exact List.filterMap_append
  constructor
  · rintro ⟨hyields, rfl⟩
    obtain ⟨first, between, hfirst, hnext⟩ := (yields_bind surroundings).1 hyields
    exact ⟨first, between, _, _, ⟨hfirst, rfl⟩, ⟨hnext, rfl⟩, hbehind hfirst⟩
  · rintro ⟨first, between, _, _, ⟨hfirst, rfl⟩, ⟨hnext, rfl⟩, rfl⟩
    exact ⟨(yields_bind surroundings).2 ⟨first, between, hfirst, hnext⟩, hbehind hfirst⟩

/-- Hooks that all agree are all called. -/
theorem calls_callAll {hooks calls : List HookCall} {memory ended : σ} {value : Unit} :
    (callAll hooks).Calls surroundings memory calls value ended ↔
      Agree surroundings hooks memory ended ∧ calls = hooks := by
  have hall (agreed : Agree surroundings hooks memory ended) :
      ((callAll hooks).run surroundings memory).calls = hooks := by
    induction hooks generalizing memory with
    | nil => rfl
    | cons hook rest ih =>
      obtain ⟨between, hcall, hrest⟩ := agreed
      have hstep : ((callAll (hook :: rest)).run surroundings memory).calls =
          hook :: (((ofExcept (surroundings.call memory hook).1).bind fun () ↦
            callAll rest).run surroundings (surroundings.call memory hook).2).calls := rfl
      rw [hstep, hcall]
      exact congrArg (hook :: ·) (ih hrest)
  rw [Calls, yields_callAll]
  constructor
  · rintro ⟨hagreed, rfl⟩
    exact ⟨hagreed, hall hagreed⟩
  · rintro ⟨hagreed, rfl⟩
    exact ⟨hagreed, hall hagreed⟩

/-- An attempt calls the hooks of its script, whatever comes of it. -/
theorem calls_attempt {script : Script α} {memory ended : σ} {calls : List HookCall}
    {result : Except Error α} :
    script.attempt.Calls surroundings memory calls result ended ↔
      (script.run surroundings memory).result = result ∧
        (script.run surroundings memory).memory = ended ∧
        (script.run surroundings memory).calls = calls := by
  unfold Calls Yields
  rw [run_attempt, Except.ok.injEq, and_assoc]
  rfl

end Script

namespace Query

open Script

variable {σ : Type} (surroundings : Script.Surroundings σ)

/-! ## Quiet steps -/

@[simp]
theorem quiet_send (query : Query) (sql : String) (values : List Literal) :
    (query.send sql values).Quiet := by
  unfold send
  cases query.log <;> exact fun _ ↦ trivial

@[simp]
theorem quiet_sendStatement (query : Query) : query.sendStatement.Quiet := by
  rw [sendStatement_eq]
  exact quiet_bind (quiet_ofExcept _) fun sql ↦ quiet_bind (quiet_send _ _ _) fun reply ↦
    quiet_bind (quiet_ofExcept _) fun _ ↦ quiet_ofExcept _

@[simp]
theorem quiet_leave (query : Query) (scope : Scope) (result : Except Error Outcome) :
    (query.leave scope result).Quiet := by
  cases result with
  | ok outcome =>
    exact quiet_bind (quiet_send _ _ _) fun reply ↦
      quiet_bind (quiet_ofExcept reply) fun _ ↦ trivial
  | error error =>
    refine quiet_bind (quiet_send _ _ _) fun reply ↦ ?_
    cases reply <;> trivial

/-- No row is inserted in the place of one that is inserted for rows of a query. -/
theorem fallback_insertionBefore {query insertion : Query} {relation : Relation} {data : Payload}
    (h : query.insertionBefore relation data = .ok insertion) :
    insertion.clauses.fallback = none := by
  obtain ⟨_, _, -, -, halone, -⟩ := plans_insertionBefore h
  exact halone

/-- The insertions behind a query have no fallback. -/
theorem fallback_insertionAfter {query insertion : Query} {relation : Relation}
    {rows : List Payload} {key : Literal}
    (h : query.insertionAfter relation rows key = .ok insertion) :
    insertion.clauses.fallback = none := by
  obtain ⟨_, _, -, -, halone, -⟩ := plans_insertionAfter h
  exact halone

/-- What is run for a query without a row in its place calls no hook. -/
theorem inherits_quiet :
    Inherits (fun _ script ↦ script.Quiet) fun query ↦ query.clauses.fallback = none where
  composes := ⟨quiet_done, fun _ ↦ trivial, quiet_bind⟩
  passes :=
    { fillCell := fun {query} alone row column key ↦ by
        simp only [fillCell, modify]
        split <;> exact alone
      before := fun _ ↦ fallback_insertionBefore
      after := fun _ ↦ fallback_insertionAfter
      replaced := fun alone held ↦ by cases alone.symm.trans held }
  own := fun query _ ↦ quiet_sendStatement query
  hooks := fun query fallback alone held ↦ by cases alone.symm.trans held

/-- A query without a row in its place runs its statements without calling a hook. -/
theorem quiet_runStatements (query : Query) (alone : query.clauses.fallback = none) :
    query.runStatements.Quiet :=
  inherits_quiet.runStatements query alone

theorem quiet_runBefore (query filled : Query) (related : List RelatedInsert) :
    (runBefore query filled related).Quiet :=
  inherits_quiet.runBefore query filled related fun _ _ _ ↦ fallback_insertionBefore

theorem quiet_runAfter (query : Query) (result : RowSet) (related : List RelatedInsert) :
    (runAfter query result related).Quiet :=
  inherits_quiet.runAfter query result related fun _ _ _ _ ↦ fallback_insertionAfter

end Query

end SqlComposer
