import SqlComposer.Query
import SqlComposer.Result

/-!
# Scripts

Running a query is an exchange with its surroundings: statements are sent and answered, hooks are
called and agree or refuse, and events are logged. A script is such an exchange as a value, with
every answer left open. It says what is asked next after each answer and ends with a value or a
failure. `Script.run` plays a script against surroundings, which may answer by anything that
happened before, and yields what was asked, in order, with the end.
-/

namespace SqlComposer

/-- When a hook is called. -/
inductive HookMoment where
  | beforeInsert
  | afterInsert
  | beforeUpdate
  | afterUpdate
  deriving DecidableEq, Repr

/-- A hook that is called: with the query that is about to run, or that ran and its output. -/
structure HookCall where
  moment : HookMoment
  name : String
  query : Query
  output : Option Output

/-- An exchange with the surroundings that ends with a value. -/
inductive Script (α : Type) where
  | done (value : α)
  | fail (error : Error)
  | send (sql : String) (values : List Literal) (next : Except Error RowSet → Script α)
  /-- A statement of the connection itself. -/
  | control (sql : String) (next : Except Error Unit → Script α)
  | call (hook : HookCall) (next : Except Error Unit → Script α)
  | log (event : LogEvent) (next : Script α)

namespace Script

variable {α β : Type}

/-- Goes on with the value at the end of a script. -/
def bind (script : Script α) (next : α → Script β) : Script β :=
  match script with
  | done value => next value
  | fail error => .fail error
  | send sql values answer => .send sql values fun reply => (answer reply).bind next
  | control sql answer => .control sql fun reply => (answer reply).bind next
  | call hook answer => .call hook fun reply => (answer reply).bind next
  | log event rest => .log event (rest.bind next)

instance : Monad Script where
  pure := done
  bind := bind

/-- A script that never fails and ends with a failure as a value. -/
def attempt : Script α → Script (Except Error α)
  | done value => .done (.ok value)
  | fail error => .done (.error error)
  | send sql values answer => .send sql values fun reply => (answer reply).attempt
  | control sql answer => .control sql fun reply => (answer reply).attempt
  | call hook answer => .call hook fun reply => (answer reply).attempt
  | log event rest => .log event rest.attempt

/-- The script that only ends, with a value or a failure. -/
def ofExcept : Except Error α → Script α
  | .ok value => done value
  | .error error => fail error

/-- Calls hooks in order up to the first that refuses. -/
def callAll (hooks : List HookCall) : Script Unit :=
  match hooks with
  | [] => done ()
  | hook :: rest => call hook fun reply => (ofExcept reply).bind fun () => callAll rest

/-! ## Playing a script -/

/-- What a script was seen to do. -/
inductive Event where
  | sent (sql : String) (values : List Literal)
  | controlled (sql : String)
  | called (hook : HookCall)
  | logged (event : LogEvent)

/-- Surroundings with a memory of type `σ`. -/
structure Surroundings (σ : Type) where
  send : σ → String → List Literal → Except Error RowSet × σ
  control : σ → String → Except Error Unit × σ
  call : σ → HookCall → Except Error Unit × σ

/-- How a script ended. -/
structure Played (σ α : Type) where
  events : List Event
  result : Except Error α
  memory : σ

/-- The same end behind one more event. -/
def Played.after {σ : Type} (event : Event) (played : Played σ α) : Played σ α :=
  { played with events := event :: played.events }

/-- Plays a script from some memory. -/
def run {σ : Type} (surroundings : Surroundings σ) : Script α → σ → Played σ α
  | done value, memory => ⟨[], .ok value, memory⟩
  | fail error, memory => ⟨[], .error error, memory⟩
  | send sql values answer, memory =>
    let (reply, memory) := surroundings.send memory sql values
    ((answer reply).run surroundings memory).after (.sent sql values)
  | control sql answer, memory =>
    let (reply, memory) := surroundings.control memory sql
    ((answer reply).run surroundings memory).after (.controlled sql)
  | call hook answer, memory =>
    let (reply, memory) := surroundings.call memory hook
    ((answer reply).run surroundings memory).after (.called hook)
  | log event rest, memory => (rest.run surroundings memory).after (.logged event)

end Script
end SqlComposer
