import SqlComposer.Proofs.Fallback.RequiredRows
import SqlComposer.Proofs.Insertion.RelatedRowNumbers
import SqlComposer.Proofs.Statement.ReturnedRows

/-!
# Insertions for want of a match

A query with a row in its place goes by the number of rows that its own statement matches: for
several rows it fails and undoes what it sent, for one it is done, and for none it inserts the row.
A change matches the rows that pass its filter. A selection matches the rows that it hands back, and
these need not be there exactly if rows pass the filter: an aggregate that is not grouped is handed
back for no rows as well, and rows that are skipped are not handed back. Where neither is the case,
and groups are not filtered and nothing is combined, the row is inserted exactly if no row passes.
-/

namespace SqlComposer

/-! ## Rows that pass a filter -/

namespace Clauses

variable {Row : Type} (eval : Evaluation Row) (clauses : Clauses (List Row))

/-- The rows that a statement is on. Only a selection reads from anything but its table, and an
update joins nothing. -/
def sourceRows : List Row :=
  match clauses.verb with
  | .select => clauses.readRows eval
  | .delete =>
    if clauses.joins.isEmpty then eval.stored clauses else eval.joined clauses (eval.stored clauses)
  | _ => eval.stored clauses

/-- Those of them that pass the filter. -/
def passing : List Row := (clauses.sourceRows eval).filter (eval.passes clauses)

end Clauses

/-- The rows of what a statement is on that pass its filter. -/
def Statement.passing {Row : Type} (eval : Evaluation Row) (statement : Statement) : List Row :=
  (foldClauses (Clauses.rows eval) statement.clauses).passing eval

/-- The rows that a selection lists before it skips some and stops at a number. -/
def Statement.listed {Row : Type} (eval : Evaluation Row) (statement : Statement) : List Row :=
  (foldClauses (Clauses.rows eval) statement.clauses).listedRows eval

/-- What is documented of the clauses that an evaluation leaves open. -/
structure Evaluation.Lawful {Row : Type} (eval : Evaluation Row) : Prop where
  /-- Every row is in a group. -/
  grouped : ∀ clauses {rows}, rows ≠ [] → eval.grouped clauses rows ≠ []
  gathers : ∀ clauses, clauses.having.members = [] → eval.gathers clauses = false
  admits : ∀ clauses group, clauses.having.members = [] → eval.admits clauses group
  /-- Of equal rows one is kept. -/
  distinct : ∀ clauses {rows}, rows ≠ [] → eval.distinct clauses rows ≠ []

/-- A selection that lists groups unless there are none, and hands back some of what it lists. -/
structure Clauses.Unhindered {Sub : Type} (clauses : Clauses Sub) (reading : Fragment.Reading) :
    Prop extends clauses.Plainly reading where
  having : clauses.having.members = []
  offset : clauses.offset.getD 0 ≤ 0
  asked : ∀ number, clauses.asked = some number → 1 ≤ number

namespace Clauses

section

variable {Row : Type} {eval : Evaluation Row} {clauses : Clauses (List Row)}

/-- Groups are listed unless no row passes, and an aggregate that is not grouped even then. -/
theorem groupedRows_eq_nil_iff (lawful : eval.Lawful) (select : clauses.verb = .select)
    (having : clauses.having.members = []) :
    clauses.groupedRows eval = [] ↔
      ¬(clauses.groups = [] ∧ clauses.aggregates eval.reading) ∧ clauses.passing eval = [] := by
  have hpassing : clauses.passing eval =
      (clauses.readRows eval).filter (eval.passes clauses) := by
    unfold passing sourceRows
    rw [select]
  have hadmitted (groups : List (List Row)) :
      groups.filter (eval.admits clauses) = groups :=
    List.filter_eq_self.2 fun group _ ↦ lawful.admits clauses group having
  unfold groupedRows
  rw [← hpassing, lawful.gathers clauses having]
  simp only [hadmitted, Bool.or_false]
  cases hgroups : clauses.groups with
  | nil =>
    -- An aggregate gathers all rows into one group, even if there are none.
    cases haggregates : clauses.aggregates eval.reading <;> simp
  | cons first rest =>
    have hgrouped : eval.grouped clauses (clauses.passing eval) = [] ↔
        clauses.passing eval = [] := by
      refine ⟨fun h ↦ by_contra fun some ↦ lawful.grouped clauses some h, fun h ↦ ?_⟩
      have hlength := eval.length_grouped clauses (clauses.passing eval)
      rw [h] at hlength ⊢
      exact List.eq_nil_of_length_eq_zero (Nat.le_zero.1 hlength)
    simpa using hgrouped

/-- The SELECT list makes rows unless there are no groups. -/
theorem listedRows_eq_nil_iff (lawful : eval.Lawful) (plainly : clauses.Plainly eval.reading) :
    clauses.listedRows eval = [] ↔ clauses.groupedRows eval = [] := by
  unfold listedRows
  simp only [plainly.spreads, Bool.false_eq_true, ↓reduceIte]
  split
  · refine Iff.trans ⟨fun h ↦ by_contra fun some ↦ lawful.distinct clauses some h, fun h ↦ ?_⟩
      List.map_eq_nil_iff
    have hsublist := eval.distinct_sublist clauses
      ((clauses.groupedRows eval).map (eval.listed clauses))
    rw [h] at hsublist ⊢
    exact List.sublist_nil.1 hsublist
  · exact List.map_eq_nil_iff

/-- No row is handed back if those that are listed are skipped, or if none is asked for. -/
theorem rows_eq_nil_iff (select : clauses.verb = .select)
    (combinations : clauses.combinations = []) :
    clauses.rows eval = [] ↔
      (clauses.listedRows eval).length ≤ (clauses.offset.getD 0).toNat ∨
        ∃ number, clauses.asked = some number ∧ number ≤ 0 := by
  have hremaining : clauses.remainingRows eval = [] ↔
      (clauses.listedRows eval).length ≤ (clauses.offset.getD 0).toNat := by
    unfold remainingRows
    rw [combinations, List.drop_eq_nil_iff]
    exact (eval.ordered_perm clauses (clauses.listedRows eval)).length_eq ▸ Iff.rfl
  unfold rows
  rw [select]
  dsimp only
  split
  · rename_i number hasked
    rw [List.take_eq_nil_iff, hremaining]
    simp [hasked, or_comm]
  · rename_i hasked
    rw [hremaining]
    simp [hasked]

/-- A selection that nothing hinders hands back no row exactly if no row passes, unless it is an
aggregate that is not grouped. -/
theorem Unhindered.rows_eq_nil_iff (lawful : eval.Lawful) (select : clauses.verb = .select)
    (unhindered : clauses.Unhindered eval.reading) :
    clauses.rows eval = [] ↔
      ¬(clauses.groups = [] ∧ clauses.aggregates eval.reading) ∧ clauses.passing eval = [] := by
  rw [← groupedRows_eq_nil_iff lawful select unhindered.having,
    ← listedRows_eq_nil_iff lawful unhindered.toPlainly,
    Clauses.rows_eq_nil_iff select unhindered.combinations]
  have hasked : ¬∃ number, clauses.asked = some number ∧ number ≤ 0 := by
    rintro ⟨number, hnumber, hsmall⟩
    have hlarge := unhindered.asked number hnumber
    omega
  have hoffset := unhindered.offset
  rw [or_iff_left hasked, Int.toNat_of_nonpos hoffset, Nat.le_zero, List.length_eq_zero_iff]

end

/-- Folding the embedded statements hinders nothing. -/
theorem Unhindered.fold {Result : Type} {step : Clauses Result → Result}
    {reading : Fragment.Reading} {clauses : Clauses Statement}
    (unhindered : clauses.Unhindered reading) :
    (Statement.foldClauses step clauses).Unhindered reading where
  toPlainly := unhindered.toPlainly.fold
  having := by
    rw [Statement.having_fold, Statement.members_foldFilter, unhindered.having, List.map_nil]
  offset := by
    rw [Statement.offset_fold]
    exact unhindered.offset
  asked := by
    rw [asked_fold]
    exact unhindered.asked

end Clauses

namespace Statement

variable {Row : Type} {eval : Evaluation Row} {statement : Statement}

theorem rows_eq : statement.rows eval =
    (foldClauses (Clauses.rows eval) statement.clauses).rows eval := by
  obtain ⟨clauses⟩ := statement
  rw [rows, fold]

theorem verb_folded (select : statement.clauses.verb = .select) :
    (foldClauses (Clauses.rows eval) statement.clauses).verb = .select := by
  rw [verb_fold, select, foldVerb]

/-- Whether a selection hands back a row depends on how many rows it lists, skips and asks for. -/
theorem rows_eq_nil_iff (select : statement.clauses.verb = .select)
    (combinations : statement.clauses.combinations = []) :
    statement.rows eval = [] ↔
      (statement.listed eval).length ≤ (statement.clauses.offset.getD 0).toNat ∨
        ∃ number, statement.clauses.asked = some number ∧ number ≤ 0 := by
  have hcombinations : (foldClauses (Clauses.rows eval) statement.clauses).combinations = [] := by
    rw [combinations_fold, combinations, List.map_nil]
  rw [rows_eq, Clauses.rows_eq_nil_iff (verb_folded select) hcombinations, offset_fold,
    Clauses.asked_fold, listed]

/-- Where nothing hinders it, that depends on the rows that pass. -/
theorem rows_eq_nil_iff_passing (lawful : eval.Lawful) (select : statement.clauses.verb = .select)
    (unhindered : statement.clauses.Unhindered eval.reading) :
    statement.rows eval = [] ↔
      ¬(statement.clauses.groups = [] ∧ statement.clauses.aggregates eval.reading) ∧
        statement.passing eval = [] := by
  rw [rows_eq, Clauses.Unhindered.rows_eq_nil_iff lawful (verb_folded select) unhindered.fold,
    groups_fold, Clauses.aggregates_fold, passing]

end Statement

/-- An answer of a server that evaluates statements faithfully and skips no row for being locked. An
update counts the rows that pass, and so does a deletion, which counts a row once however many rows
are joined to it. -/
inductive Evaluation.Answers {Row : Type} (eval : Evaluation Row) (query : Query)
    (result : RowSet) : Prop
  | selection (select : query.clauses.verb = .select)
      (rows : result.rows.length = (query.statement.rows eval).length)
  | update {assignments : List Assignment} (verb : query.clauses.verb = .update assignments)
      (count : result.rowCount = (query.statement.passing eval).length)
  | delete (verb : query.clauses.verb = .delete)
      (some : result.rowCount = 0 ↔ query.statement.passing eval = [])
      (count : query.clauses.joins = [] →
        result.rowCount = (query.statement.passing eval).length)

/-! ## Behind the own statement -/

theorem Script.isOk_bind_done {σ α β : Type} (surroundings : Surroundings σ) (script : Script α)
    (value : α → β) (memory : σ) :
    ((script.bind fun found ↦ .done (value found)).run surroundings memory).result.isOk =
      (script.run surroundings memory).result.isOk := by
  cases hresult : (script.run surroundings memory).result with
  | error error =>
    rw [result_bind_error surroundings hresult]
    rfl
  | ok found =>
    rw [result_bind_ok surroundings hresult]
    rfl

namespace Query

variable {σ : Type} (surroundings : Script.Surroundings σ)

/-- What running a query with a row in its place comes to, from what it sends up to its own
statement and from the number of rows that match. -/
inductive Substitutes (query insertion : Query) (session : Session) (memory answered : σ)
    (front : List CompiledSql) (result : RowSet) : Nat → Prop
  /-- Several rows match: nothing else is sent, and what was sent is undone. -/
  | several {number : Nat} (many : 1 < number)
      (sent : ((query.exec session).run surroundings memory).transmissions =
        query.bracketed session front false)
      (fails : ∃ error, ((query.exec session).run surroundings memory).result = .error error ∧
        (Error.moreThanOneRow number).Surfaces error ∧
        (Controls surroundings → error = .moreThanOneRow number)) :
      Substitutes query insertion session memory answered front result number
  /-- One row matches, and only rows that refer to it are inserted. -/
  | own (sent :
        let behind := (runAfter query result query.clauses.related).run surroundings answered
        ((query.exec session).run surroundings memory).transmissions =
          query.bracketed session (front ++ behind.transmissions) behind.result.isOk) :
      Substitutes query insertion session memory answered front result 1
  /-- No row matches, and the row is inserted unless a hook refuses. -/
  | replaced (sent : ∀ agreed, Script.Agree surroundings insertion.hooksBefore answered agreed →
        let inserted := insertion.runStatements.run surroundings agreed
        ((query.exec session).run surroundings memory).transmissions =
          query.bracketed session (front ++ inserted.transmissions) inserted.result.isOk)
      (refused : (∀ agreed, ¬Script.Agree surroundings insertion.hooksBefore answered agreed) →
        ((query.exec session).run surroundings memory).transmissions =
          query.bracketed session front false) :
      Substitutes query insertion session memory answered front result 0

section

variable {query filled : Query} {session : Session} {memory ready start answered : σ}
  {earlier : List CompiledSql} {sql : CompiledSql} {result : RowSet} {fallback : Statement}

/-- The row in place of a query is inserted behind the hooks for it. -/
theorem transmissions_create {agreed : σ} (hooks : Script.Agree surroundings
      (query.withClauses fallback.clauses).hooksBefore answered agreed) :
    let inserted := (query.withClauses fallback.clauses).runStatements.run surroundings agreed
    ((query.create fallback).run surroundings answered).transmissions = inserted.transmissions ∧
      ((query.create fallback).run surroundings answered).result.isOk = inserted.result.isOk := by
  have hcalls : (Script.callAll (query.withClauses fallback.clauses).hooksBefore).Plays surroundings
      answered [] () agreed := (Script.plays_callAll surroundings).2 ⟨hooks, rfl⟩
  obtain ⟨hyields, hsilent⟩ := hcalls
  unfold create
  rw [Script.transmissions_bind_ok surroundings hyields, hsilent, List.nil_append,
    Script.transmissions_bind_silent, Script.result_bind_ok surroundings hyields.1, hyields.2,
    Script.isOk_bind_done]
  · exact ⟨rfl, rfl⟩
  · exact fun _ ↦ trivial

/-- A hook that refuses leaves nothing to be sent. -/
theorem transmissions_create_refused (refused : ∀ agreed, ¬Script.Agree surroundings
      (query.withClauses fallback.clauses).hooksBefore answered agreed) :
    ((query.create fallback).run surroundings answered).transmissions = [] ∧
      ((query.create fallback).run surroundings answered).result.isOk = false := by
  unfold create
  cases hresult : ((Script.callAll (query.withClauses fallback.clauses).hooksBefore).run
      surroundings answered).result with
  | ok value =>
    exact absurd ((Script.yields_callAll surroundings).1 ⟨hresult, rfl⟩) (refused _)
  | error error =>
    rw [Script.transmissions_bind_error surroundings hresult,
      Script.result_bind_error surroundings hresult,
      Script.transmissions_of_silent surroundings (Script.sends_callAll _)]
    exact ⟨rfl, rfl⟩

/-- What a query with a fallback does behind its answered statement is decided by the matching rows.
-/
theorem substitutes_exec (held : query.clauses.fallback = some fallback)
    (agreed : Script.Agree surroundings query.hooksBefore memory ready)
    (opened : (query.opening session).Yields surroundings ready () start)
    (arrives : query.Arrives surroundings start earlier filled sql result answered) :
    query.Substitutes surroundings (query.withClauses fallback.clauses) session memory answered
      (earlier ++ [sql]) result (filled.matchedRows result) := by
  have hsent := transmissions_exec_opened surroundings agreed opened
  rw [arrives.transmissions_runStatements, arrives.result_runStatements] at hsent
  -- What follows the own statement is settled by the number of rows that match.
  obtain hmany | hone | hnone : 1 < filled.matchedRows result ∨ filled.matchedRows result = 1 ∨
      filled.matchedRows result = 0 := by omega
  · rw [proceed_several held hmany] at hsent
    refine .several hmany hsent (exists_surfaces_exec surroundings agreed opened ?_)
    rw [arrives.result_runStatements, proceed_several held hmany]
    rfl
  · rw [hone]
    rw [proceed_own held hone, Script.isOk_bind_done, Script.transmissions_bind_silent] at hsent
    · exact .own (by simpa using hsent)
    · exact fun _ ↦ trivial
  · rw [hnone]
    rw [proceed_unmatched held hnone] at hsent
    refine .replaced (fun agreed hagreed ↦ ?_) fun hrefused ↦ ?_
    · obtain ⟨htransmissions, hresult⟩ := transmissions_create surroundings hagreed
      rw [htransmissions, hresult] at hsent
      simpa using hsent
    · obtain ⟨htransmissions, hresult⟩ := transmissions_create_refused surroundings hrefused
      rwa [htransmissions, hresult] at hsent

/-- Without related rows, a query sends its own statement first, as it is. -/
theorem Arrives.of_unrelated (unrelated : query.clauses.related = [])
    (arrives : query.Arrives surroundings start earlier filled sql result answered) :
    earlier = [] ∧ filled = query ∧ query.compile = .ok sql := by
  obtain ⟨between, hbefore, hown⟩ := arrives
  rw [unrelated, runBefore] at hbefore
  obtain ⟨rfl, rfl, rfl⟩ := (Script.plays_done surroundings).1 hbefore
  obtain ⟨_, _, hsql, -, -, hsent⟩ := (plays_sendStatement surroundings).1 hown
  cases hsent
  exact ⟨rfl, rfl, hsql⟩

/-- A statement is sent once it is written, whatever the answer. -/
theorem transmissions_sendStatement (written : query.compile = .ok sql) (memory : σ) :
    (query.sendStatement.run surroundings memory).transmissions = [sql] := by
  have hcompiled : (Script.ofExcept query.compile).Plays surroundings memory [] sql memory :=
    (Script.plays_ofExcept surroundings).2 ⟨written, rfl, rfl⟩
  have hsend : ((query.send sql.text sql.values).run surroundings memory).transmissions = [sql] :=
    ((plays_send surroundings).2 ⟨rfl, rfl⟩).2
  rw [sendStatement_eq, Script.transmissions_bind_ok surroundings hcompiled.1, hcompiled.2,
    Script.transmissions_bind_silent, hsend]
  · rfl
  · exact fun reply ↦ Script.sends_bind (Script.sends_ofExcept reply) fun rows ↦
      Script.sends_ofExcept _

/-- Without related rows and a row in its place, a query sends its own statement alone. -/
theorem transmissions_alone (unrelated : query.clauses.related = [])
    (alone : query.clauses.fallback = none) (written : query.compile = .ok sql) (memory : σ) :
    (query.runStatements.run surroundings memory).transmissions = [sql] := by
  have hbefore : (runBefore query query []).Plays surroundings memory [] query memory :=
    plays_runBefore_nil query memory
  rw [runStatements_eq, unrelated, Script.transmissions_bind_ok surroundings hbefore.1, hbefore.2,
    Script.transmissions_bind_silent, transmissions_sendStatement surroundings written]
  · rfl
  · intro result
    unfold proceed finish
    rw [alone, unrelated, runAfter]
    exact Script.sends_bind (Script.sends_ofExcept _) fun _ ↦ trivial

end
end Query

/-- What the number of rows that a statement matches says about the rows that pass its filter. -/
structure Statement.Counts {Row : Type} (eval : Evaluation Row) (statement : Statement)
    (number : Nat) : Prop where
  changed : statement.clauses.verb.isChange → (number = 0 ↔ statement.passing eval = [])
  /-- Rows that are joined to a row that is deleted are not counted. -/
  counted : statement.clauses.verb.isChange →
    (statement.clauses.verb = .delete → statement.clauses.joins = []) →
    number = (statement.passing eval).length
  paged : statement.clauses.verb = .select → statement.clauses.combinations = [] →
    (number = 0 ↔ (statement.listed eval).length ≤ (statement.clauses.offset.getD 0).toNat ∨
      ∃ asked, statement.clauses.asked = some asked ∧ asked ≤ 0)
  selected : statement.clauses.verb = .select → statement.clauses.Unhindered eval.reading →
    (number = 0 ↔
      ¬(statement.clauses.groups = [] ∧ statement.clauses.aggregates eval.reading) ∧
        statement.passing eval = [])

theorem Verb.isMutation_of_isChange {Sub : Type} {verb : Verb Sub} (change : verb.isChange) :
    verb.isMutation := by
  cases verb <;> first | rfl | cases change

/-- A change is no selection, so the number of its rows is all that there is to tell. -/
theorem Statement.Counts.of_change {Row : Type} {eval : Evaluation Row} {statement : Statement}
    {number : Nat} (change : statement.clauses.verb.isChange)
    (changed : number = 0 ↔ statement.passing eval = [])
    (counted : (statement.clauses.verb = .delete → statement.clauses.joins = []) →
      number = (statement.passing eval).length) : statement.Counts eval number := by
  have hselect (select : statement.clauses.verb = .select) : False := by
    rw [select] at change
    cases change
  exact ⟨fun _ ↦ changed, fun _ ↦ counted, fun h ↦ (hselect h).elim, fun h ↦ (hselect h).elim⟩

namespace Query

variable {query : Query} {result : RowSet}

/-- The number of rows that a query matches is told by a faithful answer. -/
theorem counts_of_answers {Row : Type} {eval : Evaluation Row} (lawful : eval.Lawful)
    (answers : eval.Answers query result) :
    query.statement.Counts eval (query.matchedRows result) := by
  have hcounted (change : query.clauses.verb.isChange) :
      query.matchedRows result = result.rowCount :=
    if_pos (Verb.isMutation_of_isChange change)
  cases answers with
  | selection select rows =>
    have hmatched : query.matchedRows result = result.rows.length := by
      rw [matchedRows, select]
      rfl
    have hnone : query.matchedRows result = 0 ↔ query.statement.rows eval = [] := by
      rw [hmatched, rows, List.length_eq_zero_iff]
    have hchange (change : query.statement.clauses.verb.isChange) : False := by
      rw [statement, select] at change
      cases change
    exact ⟨fun h ↦ (hchange h).elim, fun h ↦ (hchange h).elim,
      fun _ combinations ↦ hnone.trans (Statement.rows_eq_nil_iff select combinations),
      fun _ unhindered ↦ hnone.trans
        (Statement.rows_eq_nil_iff_passing lawful select unhindered)⟩
  | update verb count =>
    have hchange : query.clauses.verb.isChange := by rw [verb]; rfl
    rw [hcounted hchange]
    exact .of_change hchange (by rw [count, List.length_eq_zero_iff]) fun _ ↦ count
  | delete verb some count =>
    have hchange : query.clauses.verb.isChange := by rw [verb]; rfl
    rw [hcounted hchange]
    exact .of_change hchange some fun alone ↦ count (alone verb)

variable {σ : Type} (surroundings : Script.Surroundings σ)

/-- A query with a row in its place fails if several rows match, and undoes what it sent; it sends
nothing else if one row matches, and inserts the row if none does, unless a hook refuses. Whether
none does depends on the rows that pass its filter, for a change as for a selection that nothing
hinders and that is grouped or not an aggregate. -/
theorem exec_substituting {supplied : Fragment → Prop} {start made filled : Query} {call : Call}
    (reached : made.Reachable supplied) (asked : call.apply start = .ok made)
    (replaces : call.replaces) {session : Session} {memory ready opened answered : σ}
    {earlier : List CompiledSql} {sql : CompiledSql} {result : RowSet}
    (agreed : Script.Agree surroundings made.hooksBefore memory ready)
    (opening : (made.opening session).Yields surroundings ready () opened)
    (arrives : made.Arrives surroundings opened earlier filled sql result answered) :
    ∃ fallback, made.clauses.fallback = some fallback ∧
      (∃ rows, fallback.clauses.verb = .insert rows) ∧ made.clauses.inTransaction ∧
      made.Substitutes surroundings (made.withClauses fallback.clauses) session memory answered
        (earlier ++ [sql]) result (filled.matchedRows result) ∧
      (fallback.clauses.related = [] → ∀ insertion, fallback.compile = .ok insertion → ∀ memory,
        ((made.withClauses fallback.clauses).runStatements.run surroundings memory).transmissions =
          [insertion]) ∧
      (made.clauses.verb.mayChange →
        earlier = [] ∧ made.clauses.related = [] ∧ made.compile = .ok sql ∧
        ∀ (Row : Type) (eval : Evaluation Row), eval.Lawful → eval.Answers made result →
          made.statement.Counts eval (filled.matchedRows result)) := by
  obtain ⟨query, row, -, hcreated⟩ := Call.exists_orCreate asked replaces
  obtain ⟨-, insertion, hheld, hconfigures⟩ := configures_orCreate hcreated
  have hinsertion := hconfigures.withClauses made
  have hkept := reached.kept
  have hsent (unrelated : (made.withClauses insertion.clauses).clauses.related = [])
      (sql : CompiledSql)
      (written : (made.withClauses insertion.clauses).compile = .ok sql) (memory : σ) :
      ((made.withClauses insertion.clauses).runStatements.run surroundings memory).transmissions =
        [sql] :=
    transmissions_alone surroundings unrelated hinsertion.alone written memory
  refine ⟨insertion.statement, hheld, hinsertion.inserts,
    hkept.fallbackScoped (by rw [hheld]; rfl),
    substitutes_exec surroundings hheld agreed opening arrives, hsent, fun mayChange ↦ ?_⟩
  -- Only an insertion or what describes its columns has related rows.
  have hunrelated : made.clauses.related = [] := by
    refine hkept.related_eq_nil ?_ fun hinserts ↦ ?_
    · cases hverb : made.clauses.verb <;> simp_all [Verb.mayChange, Verb.describes]
    · obtain ⟨_, _, _, hverb⟩ := hinserts
      rw [hverb] at mayChange
      cases mayChange
  obtain ⟨hearlier, rfl, hsql⟩ := arrives.of_unrelated surroundings hunrelated
  exact ⟨hearlier, hunrelated, hsql, fun _ _ lawful answers ↦ counts_of_answers lawful answers⟩

end Query

/-! ## A user who is counted -/

namespace Blog

/-- Users of names, of whom those with the name that is asked for pass. -/
def populated (names : List String) : Evaluation String where
  reading := ⟨fun _ ↦ false, fun _ ↦ false⟩
  blank := ""
  stored _ := names
  joined _ rows := rows
  passes _ name := name == "Ada"
  grouped _ rows := rows.map fun name ↦ [name]
  length_grouped _ rows := by simp
  gathers _ := false
  admits _ _ := true
  listed _ group := group.headD ""
  spread _ group := group
  distinct _ rows := rows
  distinct_sublist _ rows := .refl rows
  combined _ rows := rows
  ordered _ rows := rows
  ordered_perm _ rows := .refl rows
  changed _ := []

theorem lawful_populated (names : List String) : (populated names).Lawful where
  grouped _ _ some := by simpa [populated] using some
  gathers _ _ := rfl
  admits _ _ _ := rfl
  distinct _ _ some := some

theorem unhindered_provided : provided.clauses.Unhindered (populated ["Eve"]).reading where
  combinations := rfl
  spreads := rfl
  having := rfl
  offset := Int.le_refl 0
  asked number h := by
    cases h
    exact Int.le_refl 1

/-- The number of users of a name, who is inserted if there is none. -/
def tallied : Query := (namesakes.count.orCreate ada).toOption.getD namesakes

theorem orCreate_count : (Call.orCreate ada).apply namesakes.count = .ok tallied := rfl

def nobody : RowSet := ⟨1, [⟨["count"], [.int 0]⟩]⟩

theorem reachable_tallied : tallied.Reachable fun _ ↦ False :=
  .call_alone (.call_alone reachable_namesakes .count trivial rfl) _ given_orCreate orCreate_count

theorem answers_tallied : (populated ["Eve"]).Answers tallied nobody := .selection rfl rfl

end Blog

namespace Query

/-- No user has the name, so that one is inserted. -/
theorem exec_substituting_provided : ∃ sql insertion last,
    (Blog.populated ["Eve"]).Lawful ∧
    Blog.provided.clauses.Unhindered (Blog.populated ["Eve"]).reading ∧
    Blog.provided.statement.passing (Blog.populated ["Eve"]) = [] ∧
    Blog.provided.compile = .ok sql ∧
    insertion.text = "INSERT INTO \"user\"(\"name\") VALUES ($1) RETURNING *" ∧
    ((Blog.provided.exec ⟨false, true⟩).run Blog.vacant ()).transmissions =
      [⟨"BEGIN", []⟩, sql, insertion, last] := by
  obtain ⟨sql, hsql⟩ : ∃ sql, Blog.provided.compile = .ok sql := ⟨_, rfl⟩
  have harrives : Blog.provided.Arrives Blog.vacant () [] Blog.provided sql .empty () :=
    ⟨(), plays_runBefore_nil Blog.provided (),
      (plays_sendStatement Blog.vacant).2 ⟨sql, .empty, hsql, rfl, rfl, rfl⟩⟩
  have hagree : Script.Agree Blog.vacant Blog.provided.hooksBefore () () := rfl
  have hopening : (Blog.provided.opening ⟨false, true⟩).Yields Blog.vacant () () () := ⟨rfl, rfl⟩
  obtain ⟨fallback, hheld, -, -, hsubstitutes, halone, hcounts⟩ :=
    exec_substituting Blog.vacant Blog.reachable_provided Blog.orCreate_namesakes rfl hagree
      hopening harrives
  obtain ⟨-, -, -, hcounted⟩ := hcounts rfl
  have hanswers : (Blog.populated ["Eve"]).Answers Blog.provided .empty := .selection rfl rfl
  have hlawful := Blog.lawful_populated ["Eve"]
  have hunhindered := Blog.unhindered_provided
  obtain ⟨-, hnone⟩ := ((hcounted String _ hlawful hanswers).selected rfl hunhindered).1 rfl
  obtain ⟨insertion, hinsertion⟩ : ∃ insertion, fallback.compile = .ok insertion := by
    cases hheld
    exact ⟨_, rfl⟩
  have hrelated : fallback.clauses.related = [] := by
    cases hheld
    rfl
  have htext : insertion.text = "INSERT INTO \"user\"(\"name\") VALUES ($1) RETURNING *" := by
    cases hheld
    cases hinsertion
    decide +kernel
  generalize hnumber : Blog.provided.matchedRows .empty = number at hsubstitutes
  cases hsubstitutes with
  | several many => exact absurd (hnumber ▸ many) (by decide)
  | own => cases hnumber
  | replaced sent =>
    have hagreed : Script.Agree Blog.vacant
        (Blog.provided.withClauses fallback.clauses).hooksBefore () () := by
      cases hheld
      rfl
    have hsent := sent () hagreed
    dsimp only at hsent
    rw [halone hrelated insertion hinsertion] at hsent
    exact ⟨sql, insertion, _, hlawful, hunhindered, hnone, hsql, htext, hsent⟩

/-- No user has the name, and none is inserted, since their number is one row. -/
theorem exec_tallied : ∃ sql,
    (Call.orCreate Blog.ada).apply Blog.namesakes.count = .ok Blog.tallied ∧
    Blog.tallied.Reachable (fun _ ↦ False) ∧ Blog.tallied.compile = .ok sql ∧
    sql.text = "SELECT count(*) FROM \"user\" WHERE \"user\".\"name\" = $1" ∧
    (Blog.populated ["Eve"]).Lawful ∧ (Blog.populated ["Eve"]).Answers Blog.tallied Blog.nobody ∧
    Blog.tallied.statement.passing (Blog.populated ["Eve"]) = [] ∧
    ((Blog.tallied.exec ⟨false, true⟩).run Blog.server [.ok Blog.nobody]).transmissions =
      [⟨"BEGIN", []⟩, sql, ⟨"COMMIT", []⟩] ∧
    ((Blog.tallied.exec ⟨false, true⟩).run Blog.server [.ok Blog.nobody]).result =
      .ok (.value (some (.int 0))) := by
  obtain ⟨sql, hsql⟩ : ∃ sql, Blog.tallied.compile = .ok sql := ⟨_, rfl⟩
  have hcounted : Blog.tallied.runStatements.Plays Blog.server [.ok Blog.nobody] ([] ++ sql :: [])
      ⟨Blog.tallied.outputOf Blog.nobody, none⟩ [] :=
    plays_runStatements (fun _ ↦ rfl) (plays_runBefore_nil Blog.tallied _) hsql
      (Blog.send_server hsql _) rfl rfl (plays_runAfter_nil _ _ _)
  have hplays := Blog.plays_inTransaction rfl hcounted
  refine ⟨sql, Blog.orCreate_count, Blog.reachable_tallied, hsql, ?_, Blog.lawful_populated _,
    Blog.answers_tallied, rfl, transmissions_exec Blog.server rfl hplays,
    result_exec Blog.server hplays rfl rfl⟩
  cases hsql
  decide +kernel

end Query
end SqlComposer
