import SqlComposer.Proofs.Execution.RunProperties
import SqlComposer.Proofs.Script.ExceptResults

/-!
# Commands

The command of a text is its first word. The text of every query starts with one of seven commands,
none of which controls a transaction, whatever is written behind it, while every command by which a
scope is opened, closed or left does. So no statement that is sent while the statements of a query
run, however deep its related rows and insertions in its place go, begins, ends or divides a
transaction.
-/

namespace SqlComposer

/-! ## The first word -/

/-- The letters that a text starts with behind blanks, as capitals. -/
def command (sql : String) : List Char :=
  ((sql.toList.dropWhile Char.isWhitespace).takeWhile Char.isAlpha).map Char.toUpper

/-- The first words of the statements that begin, end or divide transactions. -/
def controlCommands : List String :=
  ["ABORT", "BEGIN", "COMMIT", "END", "PREPARE", "RELEASE", "ROLLBACK", "SAVEPOINT", "SET", "START"]

/-- Whether a statement controls a transaction. -/
def ControlsTransaction (sql : String) : Prop :=
  command sql ∈ controlCommands.map String.toList

instance (sql : String) : Decidable (ControlsTransaction sql) :=
  inferInstanceAs (Decidable (command sql ∈ controlCommands.map String.toList))

/-- A text that starts with a word and goes on behind it. -/
def Heads (opening : String) : Prop :=
  opening.toList.dropWhile Char.isWhitespace = opening.toList ∧
    (opening.toList.takeWhile Char.isAlpha).length ≠ opening.toList.length

instance (opening : String) : Decidable (Heads opening) := inferInstanceAs (Decidable (_ ∧ _))

/-- What stands behind the first word of a text has no effect on its command. -/
theorem command_append {opening : String} (heads : Heads opening) (rest : String) :
    command (opening ++ rest) = command opening := by
  obtain ⟨hblank, hword⟩ := heads
  have hdropped : (opening.toList ++ rest.toList).dropWhile Char.isWhitespace =
      opening.toList ++ rest.toList := by
    rw [List.dropWhile_append, hblank]
    split
    · rename_i hempty
      simp [List.isEmpty_iff.1 hempty] at hword
    · rfl
  unfold command
  rw [String.toList_append, hdropped, hblank, List.takeWhile_append, if_neg hword]

/-- The words that the texts of statements start with. -/
def openings : List String :=
  ["SELECT ", "INSERT INTO ", "UPDATE ", "DELETE FROM ", "TRUNCATE ", "COPY ", "WITH ",
    "SELECT * FROM information_schema.columns WHERE table_name = "]

theorem not_controlsTransaction {opening : String} (h : opening ∈ openings) (rest : String) :
    ¬ControlsTransaction (opening ++ rest) := by
  have hforeign : ∀ opening ∈ openings,
      Heads opening ∧ command opening ∉ controlCommands.map String.toList := by
    decide +kernel
  obtain ⟨hheads, hcommand⟩ := hforeign opening h
  unfold ControlsTransaction
  rwa [command_append hheads rest]

/-- The commands that open and leave a savepoint, whatever its name. -/
theorem Scope.command_savepoint (name : String) :
    command (Scope.savepoint name).opening = "SAVEPOINT".toList ∧
      command (Scope.savepoint name).closing = "RELEASE".toList ∧
      command (Scope.savepoint name).undoing = "ROLLBACK".toList :=
  ⟨(command_append (by decide +kernel) name).trans (by decide +kernel),
    (command_append (by decide +kernel) name).trans (by decide +kernel),
    (command_append (by decide +kernel) name).trans (by decide +kernel)⟩

/-- The statements that open a scope and leave it control a transaction. -/
theorem Scope.controlsTransaction (scope : Scope) :
    ControlsTransaction scope.opening ∧ ControlsTransaction scope.closing ∧
      ControlsTransaction scope.undoing := by
  cases scope with
  | transaction => decide +kernel
  | savepoint name =>
    obtain ⟨hopening, hclosing, hundoing⟩ := Scope.command_savepoint name
    unfold ControlsTransaction
    rw [hopening, hclosing, hundoing]
    decide +kernel

/-! ## The texts of queries -/

/-- Code that starts with the first word of a statement. -/
def Code.Opens (code : Code) : Prop :=
  ∃ opening ∈ openings, ∃ rest, code = .word opening :: rest

theorem Code.Opens.not_controlsTransaction {code : Code} (opens : code.Opens) :
    ¬ControlsTransaction code.compile.text := by
  obtain ⟨opening, hopening, rest, rfl⟩ := opens
  exact SqlComposer.not_controlsTransaction hopening _

theorem Code.Opens.append {code : Code} (opens : code.Opens) (other : Code) :
    (code ++ other).Opens := by
  obtain ⟨opening, hopening, rest, rfl⟩ := opens
  exact ⟨opening, hopening, _, rfl⟩

/-- The code of an insertion opens with its verb. -/
theorem Insertion.opens_code {insertion : Insertion Written} {target code : Code}
    {filter : Filter Written} {qualifier : Qualifier}
    (h : insertion.code target filter qualifier = .ok code) : code.Opens := by
  have hinto (behind : Code) : Code.Opens (.word "INSERT INTO " :: behind) :=
    ⟨"INSERT INTO ", by decide, behind, rfl⟩
  obtain ⟨columns, source, conflict⟩ := insertion
  cases conflict with
  | none =>
    simp only [Insertion.code, bind_eq_ok, refusing_eq_ok, pure_bind, pure_eq_ok] at h
    obtain ⟨given, _, _, rfl⟩ := h
    exact hinto _
  | some conflict =>
    simp only [Insertion.code, bind_eq_ok, pure_eq_ok] at h
    obtain ⟨given, _, reaction, _, rfl⟩ := h
    exact hinto _

namespace Clauses

variable {clauses : Clauses Written} {code : Code}

theorem opens_selectCode (h : clauses.selectCode = .ok code) : code.Opens := by
  simp only [selectCode, bind_eq_ok, pure_eq_ok] at h
  obtain ⟨_, _, _, _, _, _, _, _, _, _, _, _, _, _, _, _, _, _, _, _, rfl⟩ := h
  exact ⟨"SELECT ", by decide, _, rfl⟩

theorem opens_updateCode {table : Table} {assignments : List Assignment}
    (h : clauses.updateCode table assignments = .ok code) : code.Opens := by
  simp only [updateCode, bind_eq_ok, refusing_eq_ok, pure_eq_ok] at h
  obtain ⟨_, _, _, values, _, filter, _, rfl⟩ := h
  exact ⟨"UPDATE ", by decide, _, rfl⟩

theorem opens_deleteCode {table : Table} (h : clauses.deleteCode table = .ok code) :
    code.Opens := by
  simp only [deleteCode, bind_eq_ok] at h
  obtain ⟨_, _, targets, _, h⟩ := h
  split at h
  · simp only [bind_eq_ok, pure_eq_ok] at h
    obtain ⟨filter, _, joined, _, rfl⟩ := h
    exact ⟨"DELETE FROM ", by decide, _, rfl⟩
  · simp only [bind_eq_ok, pure_eq_ok] at h
    obtain ⟨filter, _, joined, _, rfl⟩ := h
    exact ⟨"DELETE FROM ", by decide, _, rfl⟩

theorem opens_verbCode (h : clauses.verbCode = .ok code) : code.Opens := by
  unfold verbCode at h
  split at h
  · exact opens_selectCode h
  · simp only [bind_eq_ok, pure_eq_ok] at h
    obtain ⟨table, _, rfl⟩ := h
    exact ⟨"TRUNCATE ", by decide, _, rfl⟩
  · simp only [bind_eq_ok, pure_eq_ok] at h
    obtain ⟨table, _, rfl⟩ := h
    exact ⟨"SELECT * FROM information_schema.columns WHERE table_name = ", by decide, _, rfl⟩
  · simp only [bind_eq_ok, pure_eq_ok] at h
    obtain ⟨table, _, rfl⟩ := h
    exact ⟨"COPY ", by decide, _, rfl⟩
  · simp only [bind_eq_ok, pure_eq_ok] at h
    obtain ⟨table, _, change, hchange, returning, _, rfl⟩ := h
    exact (Insertion.opens_code hchange).append returning
  · simp only [bind_eq_ok, pure_eq_ok] at h
    obtain ⟨table, _, change, hchange, returning, _, rfl⟩ := h
    exact (opens_updateCode hchange).append returning
  · simp only [bind_eq_ok, pure_eq_ok] at h
    obtain ⟨table, _, change, hchange, returning, _, rfl⟩ := h
    exact (opens_deleteCode hchange).append returning

theorem opens_code (h : clauses.code = .ok code) : code.Opens := by
  simp only [Clauses.code, bind_eq_ok, pure_eq_ok] at h
  obtain ⟨declarations, hdeclarations, verb, hverb, rfl⟩ := h
  unfold CommonTable.declarations at hdeclarations
  split at hdeclarations
  · rw [pure_eq_ok] at hdeclarations
    rw [← hdeclarations]
    exact opens_verbCode hverb
  · simp only [bind_eq_ok, pure_eq_ok] at hdeclarations
    obtain ⟨items, _, rfl⟩ := hdeclarations
    exact ⟨"WITH ", by decide, _, rfl⟩

end Clauses

namespace Query

/-- The text of a query does not control a transaction. -/
theorem not_controlsTransaction_compile {query : Query} {sql : CompiledSql}
    (h : query.compile = .ok sql) : ¬ControlsTransaction sql.text := by
  obtain ⟨code, hcode, rfl⟩ := map_eq_ok.1 h
  obtain ⟨⟨clauses⟩, catalog, log⟩ := query
  exact (Clauses.opens_code hcode).not_controlsTransaction

/-! ## The statements sent -/

theorem sends_sendStatement (query : Query) :
    query.sendStatement.Sends fun sql ↦ ¬ControlsTransaction sql := by
  rw [sendStatement_eq]
  cases hsql : query.compile with
  | error error => trivial
  | ok sql =>
    have hsend : (query.send sql.text sql.values).Sends fun sql ↦ ¬ControlsTransaction sql := by
      unfold send
      refine ⟨not_controlsTransaction_compile hsql, fun reply ↦ ?_⟩
      cases query.log <;> trivial
    rw [Script.ofExcept, Script.bind]
    refine Script.sends_bind hsend fun reply ↦ ?_
    exact Script.sends_bind (Script.sends_ofExcept reply) fun _ ↦ Script.sends_ofExcept _

/-- No statement of a query, of its related rows or of the row in its place controls a
transaction. -/
theorem sends_runStatements (query : Query) :
    query.runStatements.Sends fun sql ↦ ¬ControlsTransaction sql := by
  have inherits : Inherits (fun _ script ↦ script.Sends fun sql ↦ ¬ControlsTransaction sql)
      fun _ ↦ True :=
    { composes :=
        { done := fun _ ↦ trivial
          fail := fun _ ↦ trivial
          bind := Script.sends_bind }
      passes := ⟨fun _ _ _ _ ↦ trivial, fun _ _ ↦ trivial, fun _ _ ↦ trivial, fun _ _ ↦ trivial⟩
      own := fun query _ ↦ sends_sendStatement query
      hooks := fun _ _ _ _ ↦ Script.sends_callAll _ }
  exact inherits.runStatements query trivial

end Query

end SqlComposer
