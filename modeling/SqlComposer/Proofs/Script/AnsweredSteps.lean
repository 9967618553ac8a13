import SqlComposer.Proofs.Execution.RunProperties
import SqlComposer.Proofs.Execution.TransactionBrackets

/-!
# Steps with their answers

What is seen of a script that is played are the events, which say what was asked. Its steps say how
each was answered as well. The steps of a script that is put behind another follow those of the
other, unless that one failed.
-/

namespace SqlComposer.Script

/-- What a script asked, with the answer. -/
inductive Step where
  | sent (sql : String) (values : List Literal) (reply : Except Error RowSet)
  | controlled (sql : String) (reply : Except Error Unit)
  | called (hook : HookCall) (verdict : Except Error Unit)
  | logged (event : LogEvent)

/-- What is seen of a step. -/
def Step.event : Step → Event
  | sent sql values _ => .sent sql values
  | controlled sql _ => .controlled sql
  | called hook _ => .called hook
  | logged event => .logged event

variable {σ α β : Type} (surroundings : Surroundings σ)

/-- The steps of a script that is played from some memory. -/
def steps : Script α → σ → List Step
  | done _, _ | fail _, _ => []
  | send sql values answer, memory =>
    let (reply, memory) := surroundings.send memory sql values
    .sent sql values reply :: (answer reply).steps memory
  | control sql answer, memory =>
    let (reply, memory) := surroundings.control memory sql
    .controlled sql reply :: (answer reply).steps memory
  | call hook answer, memory =>
    let (reply, memory) := surroundings.call memory hook
    .called hook reply :: (answer reply).steps memory
  | log event rest, memory => .logged event :: rest.steps memory

/-- The events are what is seen of the steps. -/
theorem events_run (script : Script α) (memory : σ) :
    (script.run surroundings memory).events =
      (script.steps surroundings memory).map Step.event := by
  induction script generalizing memory with
  | done value | fail error => rfl
  | send sql values answer ih => exact congrArg (Event.sent sql values :: ·) (ih _ _)
  | control sql answer ih => exact congrArg (Event.controlled sql :: ·) (ih _ _)
  | call hook answer ih => exact congrArg (Event.called hook :: ·) (ih _ _)
  | log event rest ih => exact congrArg (Event.logged event :: ·) (ih memory)

/-! ## One script behind another -/

/-- The steps of a script in sequence are those of the first and of what follows it. -/
theorem steps_bind (script : Script α) (next : α → Script β) (memory : σ) :
    (script.bind next).steps surroundings memory =
      script.steps surroundings memory ++
        match (script.run surroundings memory).result with
        | .ok value => (next value).steps surroundings (script.run surroundings memory).memory
        | .error _ => [] := by
  induction script generalizing memory with
  | done value | fail error => rfl
  | send sql values answer ih => exact congrArg (Step.sent sql values _ :: ·) (ih _ _)
  | control sql answer ih => exact congrArg (Step.controlled sql _ :: ·) (ih _ _)
  | call hook answer ih => exact congrArg (Step.called hook _ :: ·) (ih _ _)
  | log event rest ih => exact congrArg (Step.logged event :: ·) (ih memory)

theorem steps_bind_ok {script : Script α} {memory : σ} {value : α}
    (h : (script.run surroundings memory).result = .ok value) (next : α → Script β) :
    (script.bind next).steps surroundings memory =
      script.steps surroundings memory ++
        (next value).steps surroundings (script.run surroundings memory).memory := by
  rw [steps_bind, h]

/-- A script that failed has no further steps. -/
theorem steps_bind_error {script : Script α} {memory : σ} {error : Error}
    (h : (script.run surroundings memory).result = .error error) (next : α → Script β) :
    (script.bind next).steps surroundings memory = script.steps surroundings memory := by
  rw [steps_bind, h, List.append_nil]

@[simp]
theorem steps_ofExcept (result : Except Error α) (memory : σ) :
    (ofExcept result).steps surroundings memory = [] := by
  cases result <;> rfl

theorem steps_attempt (script : Script α) (memory : σ) :
    script.attempt.steps surroundings memory = script.steps surroundings memory := by
  induction script generalizing memory with
  | done value | fail error => rfl
  | send sql values answer ih => exact congrArg (Step.sent sql values _ :: ·) (ih _ _)
  | control sql answer ih => exact congrArg (Step.controlled sql _ :: ·) (ih _ _)
  | call hook answer ih => exact congrArg (Step.called hook _ :: ·) (ih _ _)
  | log event rest ih => exact congrArg (Step.logged event :: ·) (ih memory)

/-- What follows an attempt is told how it went. -/
theorem steps_attempt_bind (script : Script α) (next : Except Error α → Script β) (memory : σ) :
    (script.attempt.bind next).steps surroundings memory = script.steps surroundings memory ++
      (next (script.run surroundings memory).result).steps surroundings
        (script.run surroundings memory).memory := by
  rw [steps_bind, run_attempt, steps_attempt]

/-! ## Laws of steps -/

/-- However a script is played, its steps obey a law. -/
def Obeys (law : List Step → Prop) (script : Script α) : Prop :=
  ∀ (σ : Type) (surroundings : Surroundings σ) (memory : σ), law (script.steps surroundings memory)

/-- A law of lists that may be put behind one another is a property that composes. -/
theorem composes_obeys {law : List Step → Prop} (nil : law [])
    (append : ∀ {earlier later}, law earlier → law later → law (earlier ++ later)) :
    Composes fun _ script ↦ script.Obeys law where
  done _ _ _ _ := nil
  fail _ _ _ _ := nil
  bind {_ _ script next} first rest σ surroundings memory := by
    rw [steps_bind]
    refine append (first σ surroundings memory) ?_
    cases (script.run surroundings memory).result with
    | ok value => exact rest value σ surroundings _
    | error error => exact nil

/-- Hooks that are called in order leave nothing but their calls. -/
theorem obeys_callAll {law : List Step → Prop} (nil : law []) {hooks : List HookCall}
    (called : ∀ hook ∈ hooks, ∀ verdict rest, law rest → law (.called hook verdict :: rest)) :
    (callAll hooks).Obeys law := by
  intro σ surroundings memory
  induction hooks generalizing memory with
  | nil => exact nil
  | cons hook rest ih =>
    refine called hook List.mem_cons_self _ _ ?_
    rw [steps_bind, steps_ofExcept, List.nil_append]
    split
    · exact ih (fun other hmem ↦ called other (List.mem_cons_of_mem hook hmem)) _
    · exact nil

theorem Obeys.attempt {law : List Step → Prop} {script : Script α} (h : script.Obeys law) :
    script.attempt.Obeys law := fun σ surroundings memory ↦ by
  rw [steps_attempt]
  exact h σ surroundings memory

/-- What a query does between its hooks obeys a law of lists that may be put behind one another, if
its statements do and all that is sent around them. -/
theorem obeys_runBetween {law : List Step → Prop} (nil : law [])
    (append : ∀ {earlier later}, law earlier → law later → law (earlier ++ later)) {query : Query}
    (sends : ∀ sql, (query.send sql []).Obeys law) (statements : query.runStatements.Obeys law)
    (session : Session) : (query.runBetween session).Obeys law := by
  have composes := composes_obeys nil append
  rcases query.runBetween_cases session with ⟨scope, -, -, hbetween⟩ | ⟨refusal, -, -, hbetween⟩ |
    ⟨-, hbetween⟩ <;> rw [hbetween]
  · refine composes.bind (sends _) fun _ ↦ composes.bind (composes.ofExcept _) fun _ ↦
      composes.bind statements.attempt fun result ↦ ?_
    cases result with
    | ok outcome =>
      exact composes.bind (sends _) fun _ ↦ composes.bind (composes.ofExcept _) fun _ ↦
        composes.done _
    | error error =>
      refine composes.bind (sends _) fun reply ↦ ?_
      cases reply with
      | ok _ => exact composes.fail _
      | error _ => exact composes.fail _
  · exact composes.fail refusal
  · exact statements

end SqlComposer.Script

namespace SqlComposer.Query

open Script

/-- A statement that is sent may be followed by its logging before anything else is asked. -/
theorem steps_send_bind {σ α : Type} (surroundings : Surroundings σ) (query : Query) (sql : String)
    (values : List Literal) (next : Except Error RowSet → Script α) (memory : σ) :
    ∃ logs, (∀ step ∈ logs, ∃ event, step = .logged event) ∧
      ((query.send sql values).bind next).steps surroundings memory =
        .sent sql values (surroundings.send memory sql values).1 ::
          (logs ++ (next (surroundings.send memory sql values).1).steps surroundings
            (surroundings.send memory sql values).2) := by
  unfold send
  cases query.log with
  | none => exact ⟨[], by simp, rfl⟩
  | some settings =>
    exact ⟨[.logged _], fun step h ↦ ⟨_, List.mem_singleton.1 h⟩, rfl⟩

end SqlComposer.Query
