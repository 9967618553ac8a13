import SqlComposer.Execution
import SqlComposer.Wire.Decoding

/-!
# Rehearsals

A query can be rehearsed against answers prepared in advance instead of a database. Every statement
takes the next answer, and when none is left the result is empty. Statements that open, close or
undo a scope take no answer; they succeed unless they are told to fail. Answers are given either as
results or in the binary form in which a server sends them; in the second case parameters are sent
in binary form as well, and what was sent is kept.
-/

namespace SqlComposer

def firstWord (sql : String) : String := String.ofList (sql.toList.takeWhile (· != ' '))

/-- Whether a statement opens, closes or undoes a scope. -/
def opensOrCloses (sql : String) : Bool :=
  ["BEGIN", "COMMIT", "ROLLBACK", "SAVEPOINT", "RELEASE"].contains (firstWord sql)

/-- What hooks do: those that refuse do so with a failure. -/
abbrev HookBook := HookCall → Except Error Unit

namespace Rehearsal

/-- What is left of prepared results. -/
abbrev Answers := List (Except Error RowSet)

def next : Answers → Except Error RowSet × Answers
  | [] => (.ok .empty, [])
  | answer :: rest => (answer, rest)

/-- Surroundings that answer with prepared results. Words that open or close a scope fail with the
reason given for them. -/
def surroundings (failing : List (String × String)) (hooks : HookBook) :
    Script.Surroundings Answers where
  send answers sql _ :=
    if opensOrCloses sql then
      match failing.lookup (firstWord sql) with
      | some reason => (.error (.refused reason), answers)
      | none => (.ok .empty, answers)
    else next answers
  control answers _ := (.ok (), answers)
  call answers hook := (hooks hook, answers)

end Rehearsal

namespace Wire

structure Reply where
  columns : List (String × WireType)
  rows : List (List WireValue)
  count : Option Nat

/-- A prepared answer of a server: the types it declares for the parameters, and its reply unless it
fails. -/
structure Answer where
  parameterTypes : List WireType
  reply : Option Reply

/-- A result without columns, for parameters of which nothing is known. -/
def Answer.empty : Answer := ⟨[], some ⟨[], [], none⟩⟩

/-- What is left of prepared answers and what was sent for each statement, the latest first: its
parameters, unless they could not be sent. -/
structure Exchange where
  answers : List Answer
  sent : List (Option (List WireValue))

namespace Exchange

/-- The failure of a statement that the server did not carry out. -/
def refused : Error := .query "db error"

/-- The failure of a text that cannot be sent. -/
def notWritten : Error := .query "error encoding message to server"

/-- The failure of a statement that is sent with another number of parameters than it has. -/
def miscounted (expected given : Nat) : Error :=
  .query s!"expected {expected} parameters but got {given}"

/-- The failure of the parameter at a place that cannot be sent as the declared type. -/
def notSent (place : Nat) : Error := .query s!"error serializing parameter {place}"

def resultOf : Option Reply → Except Error RowSet
  | some reply => decodeRows reply.columns reply.rows reply.count
  | none => .error refused

/-- The numbers behind the dollar signs of a text. -/
def parameterNumbers : List Char → List Nat
  | [] => []
  | c :: rest =>
    if c = '$' then digitsValue (rest.takeWhile Char.isDigit) :: parameterNumbers rest
    else parameterNumbers rest

/-- How many parameters a server expects for a statement: as many as the largest number says. -/
def parameterCount (sql : String) : Nat := (parameterNumbers sql.toList).foldl max 0

/-- Sends a statement to be answered by the next prepared answer. The answer is used up as soon as
the text was sent, even if the parameters cannot be. -/
def send (exchange : Exchange) (sql : String) (values : List Literal) :
    Except Error RowSet × Exchange :=
  if sql.toList.contains '\x00' then
    (.error notWritten, { exchange with sent := none :: exchange.sent })
  else
    let answer := exchange.answers.headD .empty
    let rest := exchange.answers.tail
    if parameterCount sql ≠ values.length then
      (.error (miscounted (parameterCount sql) values.length), ⟨rest, none :: exchange.sent⟩)
    else
      match encodeAll answer.parameterTypes values with
      | .ok parameters => (resultOf answer.reply, ⟨rest, some parameters :: exchange.sent⟩)
      | .error place => (.error (notSent place), ⟨rest, none :: exchange.sent⟩)

/-- Surroundings that answer as a server would. A statement of the connection itself fails if it
starts with the word given for that. -/
def surroundings (failing : Option String) (hooks : HookBook) : Script.Surroundings Exchange where
  send exchange sql values :=
    if opensOrCloses sql then (.ok .empty, { exchange with sent := some [] :: exchange.sent })
    else exchange.send sql values
  control exchange sql :=
    (if failing = some (firstWord sql) then .error refused else .ok (), exchange)
  call exchange hook := (hooks hook, exchange)

end Exchange
end Wire
end SqlComposer
