import SqlComposer.Script

/-!
# Playing scripts

A script that follows another is played from the memory that the other left, and what the two ask is
asked in that order; behind a failure nothing is asked any more. The statements that a script may
send are a property of the script alone: it covers every answer that surroundings could give, and
playing the script never leaves it.
-/

namespace SqlComposer.Script

variable {σ α β : Type}

def Event.statement? : Event → Option String
  | sent sql _ | controlled sql => some sql
  | called _ | logged _ => none

def Played.statements (played : Played σ α) : List String :=
  played.events.filterMap Event.statement?

/-! ## One script behind another -/

/-- What is played behind a script, from the value and the memory it ended with. -/
def Played.followed (played : Played σ α) (next : α → σ → Played σ β) : Played σ β :=
  match played.result with
  | .ok value =>
    let rest := next value played.memory
    { rest with events := played.events ++ rest.events }
  | .error error => ⟨played.events, .error error, played.memory⟩

theorem Played.followed_after (event : Event) (played : Played σ α)
    (next : α → σ → Played σ β) :
    (played.after event).followed next = (played.followed next).after event := by
  unfold followed after
  cases played.result <;> rfl

theorem Played.followed_ok {played : Played σ α} {value : α} (h : played.result = .ok value)
    (next : α → σ → Played σ β) :
    played.followed next =
      ⟨played.events ++ (next value played.memory).events, (next value played.memory).result,
        (next value played.memory).memory⟩ := by
  unfold followed
  rw [h]

theorem Played.followed_error {played : Played σ α} {error : Error}
    (h : played.result = .error error) (next : α → σ → Played σ β) :
    played.followed next = ⟨played.events, .error error, played.memory⟩ := by
  unfold followed
  rw [h]

variable (surroundings : Surroundings σ)

/-- A script in sequence plays as the first followed by the other. -/
theorem run_bind (script : Script α) (next : α → Script β) (memory : σ) :
    (script.bind next).run surroundings memory =
      (script.run surroundings memory).followed fun value ended ↦
        (next value).run surroundings ended := by
  induction script generalizing memory with
  | done value => rfl
  | fail error => rfl
  | send sql values answer ih | control sql answer ih | call hook answer ih =>
    simp only [bind, run]
    rw [ih, Played.followed_after]
  | log event rest ih =>
    simp only [bind, run]
    rw [ih, Played.followed_after]

/-- A script that ends with its failure as a value asks what it asked before. -/
theorem run_attempt (script : Script α) (memory : σ) :
    script.attempt.run surroundings memory =
      ⟨(script.run surroundings memory).events, .ok (script.run surroundings memory).result,
        (script.run surroundings memory).memory⟩ := by
  induction script generalizing memory with
  | done value => rfl
  | fail error => rfl
  | send sql values answer ih | control sql answer ih | call hook answer ih =>
    simp only [attempt, run]
    rw [ih]
    rfl
  | log event rest ih =>
    simp only [attempt, run]
    rw [ih]
    rfl

/-- The statements of a script in sequence stand behind those of the first. -/
theorem statements_bind_ok {script : Script α} {memory : σ} {value : α}
    (h : (script.run surroundings memory).result = .ok value) (next : α → Script β) :
    ((script.bind next).run surroundings memory).statements =
      (script.run surroundings memory).statements ++
        ((next value).run surroundings (script.run surroundings memory).memory).statements := by
  rw [run_bind, Played.followed_ok h]
  exact List.filterMap_append

/-- No statement follows a script that failed. -/
theorem statements_bind_error {script : Script α} {memory : σ} {error : Error}
    (h : (script.run surroundings memory).result = .error error) (next : α → Script β) :
    ((script.bind next).run surroundings memory).statements =
      (script.run surroundings memory).statements := by
  rw [run_bind, Played.followed_error h]
  rfl

theorem result_bind_ok {script : Script α} {memory : σ} {value : α}
    (h : (script.run surroundings memory).result = .ok value) (next : α → Script β) :
    ((script.bind next).run surroundings memory).result =
      ((next value).run surroundings (script.run surroundings memory).memory).result := by
  rw [run_bind, Played.followed_ok h]

theorem result_bind_error {script : Script α} {memory : σ} {error : Error}
    (h : (script.run surroundings memory).result = .error error) (next : α → Script β) :
    ((script.bind next).run surroundings memory).result = .error error := by
  rw [run_bind, Played.followed_error h]

/-! ## Scripts that end with a value -/

/-- Played from a memory, a script ends with a value and leaves another memory. -/
def Yields (script : Script α) (memory : σ) (value : α) (ended : σ) : Prop :=
  (script.run surroundings memory).result = .ok value ∧
    (script.run surroundings memory).memory = ended

@[simp]
theorem yields_done {value other : α} {memory ended : σ} :
    (done value).Yields surroundings memory other ended ↔ value = other ∧ memory = ended := by
  simp [Yields, run]

@[simp]
theorem yields_fail {error : Error} {value : α} {memory ended : σ} :
    ¬(fail error : Script α).Yields surroundings memory value ended := by
  simp [Yields, run]

@[simp]
theorem yields_ofExcept {result : Except Error α} {value : α} {memory ended : σ} :
    (ofExcept result).Yields surroundings memory value ended ↔
      result = .ok value ∧ memory = ended := by
  cases result <;> simp [ofExcept]

theorem yields_bind {script : Script α} {next : α → Script β} {memory : σ} {value : β}
    {ended : σ} :
    (script.bind next).Yields surroundings memory value ended ↔
      ∃ first between, script.Yields surroundings memory first between ∧
        (next first).Yields surroundings between value ended := by
  unfold Yields
  rw [run_bind]
  cases h : (script.run surroundings memory).result with
  | error error => simp [Played.followed_error h]
  | ok first =>
    rw [Played.followed_ok h]
    constructor
    · exact fun hnext ↦ ⟨first, _, ⟨rfl, rfl⟩, hnext⟩
    · rintro ⟨_, _, ⟨hsame, rfl⟩, hnext⟩
      cases hsame
      exact hnext

theorem exists_yields_of_ok {script : Script α} {memory : σ} {value : α}
    (h : (script.run surroundings memory).result = .ok value) :
    ∃ ended, script.Yields surroundings memory value ended :=
  ⟨_, h, rfl⟩

/-! ## Hooks -/

/-- Hooks called one after the other all agree. -/
def Agree : List HookCall → σ → σ → Prop
  | [], memory, ended => memory = ended
  | hook :: rest, memory, ended =>
    ∃ between, surroundings.call memory hook = (.ok (), between) ∧ Agree rest between ended

theorem yields_callAll {hooks : List HookCall} {memory ended : σ} {value : Unit} :
    (callAll hooks).Yields surroundings memory value ended ↔
      Agree surroundings hooks memory ended := by
  induction hooks generalizing memory with
  | nil => simp [callAll, Agree]
  | cons hook rest ih =>
    have hcall : (callAll (hook :: rest)).Yields surroundings memory value ended ↔
        ((ofExcept (surroundings.call memory hook).1).bind fun () ↦ callAll rest).Yields
          surroundings (surroundings.call memory hook).2 value ended := Iff.rfl
    rw [hcall, yields_bind, Agree]
    simp only [yields_ofExcept, ih, Prod.ext_iff]
    constructor
    · rintro ⟨_, between, ⟨hreply, hmemory⟩, hrest⟩
      exact ⟨between, ⟨hreply, hmemory⟩, hrest⟩
    · rintro ⟨between, ⟨hreply, hmemory⟩, hrest⟩
      exact ⟨(), between, ⟨hreply, hmemory⟩, hrest⟩

/-! ## The statements of a script -/

/-- Every statement that a script can send has a property, whatever it is answered. -/
def Sends (allowed : String → Prop) : Script α → Prop
  | done _ | fail _ => True
  | send sql _ answer => allowed sql ∧ ∀ reply, (answer reply).Sends allowed
  | control sql answer => allowed sql ∧ ∀ reply, (answer reply).Sends allowed
  | call _ answer => ∀ reply, (answer reply).Sends allowed
  | log _ rest => rest.Sends allowed

variable {allowed : String → Prop}

theorem sends_bind {script : Script α} {next : α → Script β} (first : script.Sends allowed)
    (rest : ∀ value, (next value).Sends allowed) : (script.bind next).Sends allowed := by
  induction script with
  | done value => exact rest value
  | fail error => trivial
  | send sql values answer ih | control sql answer ih =>
    exact ⟨first.1, fun reply ↦ ih reply (first.2 reply)⟩
  | call hook answer ih => exact fun reply ↦ ih reply (first reply)
  | log event others ih => exact ih first

@[simp]
theorem sends_ofExcept (result : Except Error α) : (ofExcept result).Sends allowed := by
  cases result <;> trivial

@[simp]
theorem sends_callAll (hooks : List HookCall) : (callAll hooks).Sends allowed := by
  induction hooks with
  | nil => trivial
  | cons hook rest ih => exact fun reply ↦ sends_bind (sends_ofExcept reply) fun _ ↦ ih

/-- Playing a script sends only the statements that it can send. -/
theorem of_mem_statements {script : Script α} (sends : script.Sends allowed) (memory : σ) :
    ∀ sql ∈ (script.run surroundings memory).statements, allowed sql := by
  unfold Played.statements
  induction script generalizing memory with
  | done value | fail error => simp [run]
  | send sql values answer ih | control sql answer ih =>
    simp only [run, Played.after, Event.statement?, List.filterMap_cons, List.forall_mem_cons]
    exact ⟨sends.1, ih _ (sends.2 _) _⟩
  | call hook answer ih => exact ih _ (sends _) _
  | log event rest ih => exact ih sends memory

theorem statements_callAll (hooks : List HookCall) (memory : σ) :
    ((callAll hooks).run surroundings memory).statements = [] := by
  have hsends : (callAll hooks).Sends fun _ ↦ False := sends_callAll hooks
  exact List.eq_nil_iff_forall_not_mem.2 (of_mem_statements surroundings hsends memory)

end SqlComposer.Script
