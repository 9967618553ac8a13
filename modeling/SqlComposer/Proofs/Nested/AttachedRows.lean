import Mathlib.Data.List.ReduceOption
import SqlComposer.Proofs.Nested.AnsweredInsertions

/-!
# Rows attached to rows

Rows that are asked for behind a row take its key from the result, by the place of the row among the
payloads and the name of the key. A server hands back the rows that it inserted or updated, in
order. So the rows behind are attached to their own row if no row in front of it was skipped, the
first column of the name shows the key, and they ask for no row of their own under the same foreign
key. Where a conflict skips a row, the rows behind those after it are attached to others.
-/

namespace SqlComposer

/-- A row as a server holds it: the values of its columns. -/
abbrev Stored := String → Literal

/-- The columns that a server hands back: their names and what they show of a row. -/
abbrev Showing := List (String × (Stored → Literal))

/-- A row as it is handed back. -/
def Showing.row (showing : Showing) (stored : Stored) : Row :=
  ⟨showing.map Prod.fst, showing.map fun column ↦ column.2 stored⟩

namespace Write

variable {write : Write} {stored : List (Option Stored)} {showing : Showing}

end Write

/-! ## Users with posts -/

namespace Blog

def writers : List Payload :=
  [text "name" "Ada",
    (text "name" "Ben").put "posts" (.createMany [text "title" "Rivers"]),
    text "name" "Cy"]

/-- A server that gives its answers one after the other. -/
def server : Script.Surroundings Rehearsal.Answers where
  send answers sql _ :=
    if ControlsTransaction sql then (.ok .empty, answers) else Rehearsal.next answers
  control answers _ := (.ok (), answers)
  call answers _ := (.ok (), answers)

theorem send_server {query : Query} {sql : CompiledSql} (h : query.compile = .ok sql)
    (answers : Rehearsal.Answers) :
    server.send answers sql.text sql.values = Rehearsal.next answers :=
  if_neg (Query.not_controlsTransaction_compile h)

/-- Statements that need a scope run in a transaction. -/
theorem plays_inTransaction {query : Query} {answers rest : Rehearsal.Answers}
    {body : List CompiledSql} {outcome : Query.Outcome}
    (marked : query.clauses.inTransaction = true)
    (h : query.runStatements.Plays server answers body outcome rest) :
    (query.runBetween ⟨false, true⟩).Plays server answers
      (⟨"BEGIN", []⟩ :: (body ++ [⟨"COMMIT", []⟩])) outcome rest := by
  have hcontrol {sql : String} (h : ControlsTransaction sql) (memory : Rehearsal.Answers) :
      server.send memory sql [] = (.ok .empty, memory) := if_pos h
  have hscope : Scope.ofSession ⟨false, true⟩ = .ok .transaction := rfl
  obtain ⟨hopening, hclosing, -⟩ := Scope.transaction.controlsTransaction
  exact Query.plays_runBetween server marked hscope (hcontrol hopening _) h (hcontrol hclosing _)

def held (key : Int) (name : String) : Stored := fun column ↦
  if column = "id" then .int key else .text name

def everything : Showing := ["id", "name"].map fun name ↦ (name, fun stored ↦ stored name)

def everyone : List (Option Stored) :=
  [some (held 10 "Ada"), some (held 11 "Ben"), some (held 12 "Cy")]

def reply (stored : List (Option Stored)) : RowSet :=
  ⟨stored.reduceOption.length, stored.reduceOption.map everything.row⟩

/-- The answers of the server for the users and for the post. -/
def answers (stored : List (Option Stored)) : Rehearsal.Answers :=
  [.ok (reply stored), .ok ⟨1, []⟩]

end Blog

/-! ## Executing -/

namespace Query

variable {σ : Type} {surroundings : Script.Surroundings σ}

end Query

end SqlComposer
