import SqlComposer.Proofs.Execution.SentStatements
import SqlComposer.Proofs.Script.AnsweredSteps

/-!
# Ledgers

A ledger says what has become of the statements of a session: outside any scope a statement is
committed as soon as it succeeds, and inside one it waits for the scope to be closed. Statements in
a scope of their own end up where they would be without it, and the calls of hooks and the logging
make no difference.
-/

namespace SqlComposer

/-- Whether hooks of a moment are called behind a query. -/
def HookMoment.isAfter : HookMoment → Bool
  | afterInsert | afterUpdate => true
  | beforeInsert | beforeUpdate => false

namespace Script

/-! ## Kinds of steps -/

/-- A statement that was answered by a failure. -/
def Step.Failed : Step → Prop
  | sent _ _ (.error _) | controlled _ (.error _) => True
  | _ => False

/-- The statement of a step, unless it controls a transaction. -/
def Step.content? : Step → Option CompiledSql
  | sent sql values _ => if ControlsTransaction sql then none else some ⟨sql, values⟩
  | controlled sql _ => if ControlsTransaction sql then none else some ⟨sql, []⟩
  | called _ _ | logged _ => none

def Step.IsCall (step : Step) : Prop := ∃ hook verdict, step = .called hook verdict

/-- A step that calls no hook behind a query. -/
def Step.Early : Step → Prop
  | called hook _ => hook.moment.isAfter = false
  | sent _ _ _ | controlled _ _ | logged _ => True

/-- A step that calls no hook behind a query and controls no transaction. -/
def Step.Inner : Step → Prop
  | sent sql _ _ => ¬ControlsTransaction sql
  | controlled _ _ => False
  | called hook _ => hook.moment.isAfter = false
  | logged _ => True

theorem Step.Inner.early {step : Step} (h : step.Inner) : step.Early := by
  cases step with
  | called hook verdict => exact h
  | sent | controlled | logged => trivial

/-- A step that sends nothing. -/
def Step.Silent : Step → Prop
  | sent _ _ _ | controlled _ _ => False
  | called _ _ | logged _ => True

theorem Step.IsCall.silent {step : Step} (h : step.IsCall) : step.Silent := by
  obtain ⟨hook, verdict, rfl⟩ := h
  trivial

theorem Step.silent_of_logged {step : Step} (h : ∃ event, step = .logged event) : step.Silent := by
  obtain ⟨event, rfl⟩ := h
  trivial

theorem Step.Silent.not_failed {step : Step} (h : step.Silent) : ¬step.Failed := by
  cases step with
  | sent | controlled => exact h.elim
  | called | logged => exact id

theorem filterMap_content_silent {steps : List Step} (h : ∀ step ∈ steps, step.Silent) :
    steps.filterMap Step.content? = [] := by
  refine List.filterMap_eq_nil_iff.2 fun step hmem ↦ ?_
  cases step with
  | sent | controlled => exact (h _ hmem).elim
  | called | logged => rfl

/-- Calling hooks consists of nothing but calls of these hooks. -/
theorem isCall_steps_callAll {σ : Type} (surroundings : Surroundings σ) (hooks : List HookCall)
    (memory : σ) : ∀ step ∈ (callAll hooks).steps surroundings memory,
      ∃ hook ∈ hooks, ∃ verdict, step = .called hook verdict := by
  have hobeys : (callAll hooks).Obeys fun steps ↦
      ∀ step ∈ steps, ∃ hook ∈ hooks, ∃ verdict, step = .called hook verdict :=
    obeys_callAll (by simp) fun hook hmem verdict _ hrest ↦
      List.forall_mem_cons.2 ⟨⟨hook, hmem, verdict, rfl⟩, hrest⟩
  exact hobeys σ surroundings memory

end Script

/-! ## Ledgers -/

/-- What has become of statements that succeeded: those that are committed, and those of every open
scope, the innermost first. -/
structure Ledger where
  committed : List CompiledSql
  scopes : List (List CompiledSql)

namespace Ledger

open Script

/-- The ledger of a session in which nothing was sent. -/
def empty : Ledger := ⟨[], []⟩

/-- Further statements belong to the innermost scope, and are committed outside any. -/
def add (ledger : Ledger) (statements : List CompiledSql) : Ledger :=
  match ledger.scopes with
  | [] => ⟨ledger.committed ++ statements, []⟩
  | inner :: outer => ⟨ledger.committed, (inner ++ statements) :: outer⟩

/-- A statement that succeeds. Its first word says whether it opens a scope, closes one or all of
them, or undoes them; only a way back to a savepoint keeps a scope open. -/
def carryOut (ledger : Ledger) (sent : CompiledSql) : Ledger :=
  if ¬ControlsTransaction sent.text then ledger.add [sent]
  else match String.ofList (command sent.text) with
    | "BEGIN" | "START" | "SAVEPOINT" => ⟨ledger.committed, [] :: ledger.scopes⟩
    | "COMMIT" | "END" => ⟨ledger.committed ++ ledger.scopes.reverse.flatten, []⟩
    | "RELEASE" =>
      match ledger.scopes with
      | inner :: outer :: rest => ⟨ledger.committed, (outer ++ inner) :: rest⟩
      | _ => ledger
    | "ROLLBACK" | "ABORT" =>
      if sent.text ∈ ["ROLLBACK", "ABORT"] then ⟨ledger.committed, []⟩
      else ⟨ledger.committed, [] :: ledger.scopes.tail⟩
    | _ => ledger

/-- The ledger behind a step. Only statements that succeed change it. -/
def after (ledger : Ledger) : Step → Ledger
  | .sent sql values (.ok _) => ledger.carryOut ⟨sql, values⟩
  | .controlled sql (.ok _) => ledger.carryOut ⟨sql, []⟩
  | _ => ledger

def play (ledger : Ledger) (steps : List Step) : Ledger := steps.foldl after ledger

variable (ledger : Ledger)

@[simp]
theorem play_nil : ledger.play [] = ledger := rfl

@[simp]
theorem play_cons (step : Step) (steps : List Step) :
    ledger.play (step :: steps) = (ledger.after step).play steps := rfl

@[simp]
theorem play_append (earlier later : List Step) :
    ledger.play (earlier ++ later) = (ledger.play earlier).play later :=
  List.foldl_append

@[simp]
theorem add_nil : ledger.add [] = ledger := by
  obtain ⟨committed, scopes⟩ := ledger
  cases scopes <;> simp [add]

@[simp]
theorem add_add (earlier later : List CompiledSql) :
    (ledger.add earlier).add later = ledger.add (earlier ++ later) := by
  obtain ⟨committed, scopes⟩ := ledger
  cases scopes <;> simp [add]

theorem carryOut_content (sent : CompiledSql) (h : ¬ControlsTransaction sent.text) :
    ledger.carryOut sent = ledger.add [sent] :=
  if_pos h

/-- A statement that opens a transaction or a savepoint opens a scope of the ledger. -/
theorem carryOut_begin (sent : CompiledSql) (controls : ControlsTransaction sent.text)
    (word : String.ofList (command sent.text) ∈ ["BEGIN", "START", "SAVEPOINT"]) :
    ledger.carryOut sent = ⟨ledger.committed, [] :: ledger.scopes⟩ := by
  unfold carryOut
  rw [if_neg (not_not.2 controls)]
  simp only [List.mem_cons, List.not_mem_nil, or_false] at word
  rcases word with hword | hword | hword <;> simp [hword]

/-- What is done in a transaction is committed when it is closed. -/
theorem carryOut_commit (committed statements : List CompiledSql) :
    (Ledger.mk committed [statements]).carryOut ⟨"COMMIT", []⟩ = ⟨committed ++ statements, []⟩ := by
  have hcontrols : ControlsTransaction "COMMIT" := by decide +kernel
  have hword : String.ofList (command "COMMIT") = "COMMIT" := by decide +kernel
  unfold carryOut
  rw [if_neg (not_not.2 hcontrols), hword]
  simp

/-- What is done behind a savepoint belongs to the scope around it when the savepoint is
released. -/
theorem carryOut_release (name : String) (committed inner outer : List CompiledSql)
    (rest : List (List CompiledSql)) :
    (Ledger.mk committed (inner :: outer :: rest)).carryOut
        ⟨(Scope.savepoint name).closing, []⟩ =
      ⟨committed, (outer ++ inner) :: rest⟩ := by
  have hcontrols := (Scope.savepoint name).controlsTransaction.2.1
  have hword : String.ofList (command (Scope.savepoint name).closing) = "RELEASE" := by
    rw [(Scope.command_savepoint name).2.1, String.ofList_toList]
  unfold carryOut
  rw [if_neg (not_not.2 hcontrols), hword]
  simp

/-- Statements in a scope of their own end up where they would be without it. -/
theorem add_scope {session : Session} {scope : Scope}
    (chosen : Scope.ofSession session = .ok scope)
    (inside : session.inTransaction = true ↔ ledger.scopes ≠ []) (statements : List CompiledSql) :
    ((ledger.carryOut ⟨scope.opening, []⟩).add statements).carryOut ⟨scope.closing, []⟩ =
      ledger.add statements := by
  obtain ⟨committed, scopes⟩ := ledger
  unfold Scope.ofSession at chosen
  cases scopes with
  | nil =>
    rw [if_neg fun h ↦ inside.1 h rfl] at chosen
    split at chosen <;> cases chosen
    rw [carryOut_begin _ ⟨Scope.transaction.opening, []⟩ (by decide +kernel)
      (by decide +kernel)]
    exact carryOut_commit committed statements
  | cons outer rest =>
    rw [if_pos (inside.2 (List.cons_ne_nil outer rest))] at chosen
    cases chosen
    have hword : String.ofList (command (Scope.savepoint session.savepoint.text).opening) =
        "SAVEPOINT" := by
      rw [(Scope.command_savepoint _).1, String.ofList_toList]
    rw [carryOut_begin _ ⟨(Scope.savepoint session.savepoint.text).opening, []⟩
      (Scope.controlsTransaction _).1 (by simp [hword])]
    exact carryOut_release _ committed statements outer rest

/-- Statements that succeed and control no transaction are entered one after the other. -/
theorem play_inner {steps : List Step} (inner : ∀ step ∈ steps, step.Inner)
    (succeeded : ∀ step ∈ steps, ¬step.Failed) :
    ledger.play steps = ledger.add (steps.filterMap Step.content?) := by
  induction steps generalizing ledger with
  | nil => simp
  | cons step rest ih =>
    rw [List.forall_mem_cons] at inner succeeded
    rw [play_cons, ih _ inner.2 succeeded.2]
    cases step with
    | called hook verdict => rfl
    | logged event => rfl
    | controlled sql reply => exact inner.1.elim
    | sent sql values reply =>
      cases reply with
      | error error => exact absurd trivial succeeded.1
      | ok result =>
        have hcontent : (Step.sent sql values (.ok result)).content? = some ⟨sql, values⟩ :=
          if_neg inner.1
        have hcarried : ledger.after (.sent sql values (.ok result)) = ledger.add [⟨sql, values⟩] :=
          ledger.carryOut_content ⟨sql, values⟩ inner.1
        rw [List.filterMap_cons_some hcontent, hcarried, add_add, List.singleton_append]

theorem play_silent {steps : List Step} (h : ∀ step ∈ steps, step.Silent) :
    ledger.play steps = ledger := by
  induction steps with
  | nil => rfl
  | cons step rest ih =>
    rw [List.forall_mem_cons] at h
    rw [play_cons]
    cases step with
    | sent | controlled => exact h.1.elim
    | called | logged => exact ih h.2

end Ledger

end SqlComposer
