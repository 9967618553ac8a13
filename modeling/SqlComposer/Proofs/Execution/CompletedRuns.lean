import SqlComposer.Execution
import SqlComposer.Proofs.Script.PlayedScripts

/-!
# Queries that complete

What it takes for the statements of a query to succeed, step by step: the rows that its rows refer
to are inserted and hand back their keys, its own statement can be written, is answered and its
values can be read, the number of rows is one that it allows, and the rows that refer to its rows
are inserted, or the row in its place is if nothing matched and the hooks of that insertion agree.
Playing the statements ends with an outcome exactly if all of this holds.
-/

namespace SqlComposer.Query

variable {σ : Type} (surroundings : Script.Surroundings σ)

/-! ## The own statement -/

/-- A result with the values that arrive as text read as the types of the table. -/
def decoded (query : Query) (result : RowSet) : Except Error RowSet :=
  match query.clauses.table with
  | none => .ok result
  | some table => do return { result with rows := ← result.rows.mapM (Row.decodeText table) }

/-- The statement of a query can be written and is answered by a result that can be read. -/
def Answered (query : Query) (memory : σ) (result : RowSet) (ended : σ) : Prop :=
  ∃ sql reply, query.compile = .ok sql ∧
    surroundings.send memory sql.text sql.values = (.ok reply, ended) ∧
    query.decoded reply = .ok result

/-- Sending yields the reply of the surroundings, which it leaves in their next state. -/
theorem run_send (query : Query) (sql : String) (values : List Literal) (memory : σ) :
    ((query.send sql values).run surroundings memory).result =
        .ok (surroundings.send memory sql values).1 ∧
      ((query.send sql values).run surroundings memory).memory =
        (surroundings.send memory sql values).2 ∧
      ((query.send sql values).run surroundings memory).statements = [sql] := by
  unfold send
  cases query.log <;> exact ⟨rfl, rfl, rfl⟩

/-- Sending yields what the surroundings reply. -/
theorem yields_send {query : Query} {sql : String} {values : List Literal} {memory ended : σ}
    {reply : Except Error RowSet} :
    (query.send sql values).Yields surroundings memory reply ended ↔
      surroundings.send memory sql values = (reply, ended) := by
  obtain ⟨hresult, hmemory, _⟩ := run_send surroundings query sql values memory
  unfold Script.Yields
  rw [hresult, hmemory, Prod.ext_iff, Except.ok.injEq]

/-- The statement is compiled, sent, and its reply decoded. -/
theorem sendStatement_eq (query : Query) :
    query.sendStatement =
      (Script.ofExcept query.compile).bind fun sql =>
      (query.send sql.text sql.values).bind fun reply =>
      (Script.ofExcept reply).bind fun result => Script.ofExcept (query.decoded result) := by
  unfold sendStatement decoded
  cases query.clauses.table with
  | none => rfl
  | some table =>
    have hread (result : RowSet) :
        ((Script.ofExcept (result.rows.mapM (Row.decodeText table))).bind fun rows =>
          .done { result with rows }) =
        Script.ofExcept (do
          return { result with rows := ← result.rows.mapM (Row.decodeText table) }) := by
      cases result.rows.mapM (Row.decodeText table) <;> rfl
    rw [← funext hread]
    rfl

/-- Sending the statement yields exactly the rows it is answered with. -/
theorem yields_sendStatement {query : Query} {memory ended : σ} {result : RowSet} :
    query.sendStatement.Yields surroundings memory result ended ↔
      query.Answered surroundings memory result ended := by
  rw [sendStatement_eq]
  simp only [Script.yields_bind, Script.yields_ofExcept, yields_send]
  constructor
  · rintro ⟨sql, _, ⟨hsql, rfl⟩, _, _, hsent, reply, _, ⟨rfl, rfl⟩, hread, rfl⟩
    exact ⟨sql, reply, hsql, hsent, hread⟩
  · rintro ⟨sql, reply, hsql, hsent, hread⟩
    exact ⟨sql, memory, ⟨hsql, rfl⟩, .ok reply, ended, hsent, reply, ended, ⟨rfl, rfl⟩, hread, rfl⟩

/-! ## All statements -/

mutual

/-- The statements of a query succeed with an outcome. -/
inductive Completes : Query → σ → Outcome → σ → Prop
  /-- The query itself matches as many rows as it may. -/
  | matching {query filled : Query} {result : RowSet} {memory filledAt answeredAt ended : σ}
      (before : CompletesBefore query query query.clauses.related memory filled filledAt)
      (answer : filled.Answered surroundings filledAt result answeredAt)
      (fits : filled.checkRowCount (filled.matchedRows result) = .ok ())
      (own : query.clauses.fallback.isSome → filled.matchedRows result = 1)
      (after : CompletesAfter query result query.clauses.related answeredAt ended) :
      Completes query memory ⟨filled.outputOf result, none⟩ ended
  /-- The query matches no row and another one is inserted in its place. -/
  | creating {query filled : Query} {fallback : Statement} {result : RowSet} {outcome : Outcome}
      {memory filledAt answeredAt agreedAt ended : σ}
      (before : CompletesBefore query query query.clauses.related memory filled filledAt)
      (answer : filled.Answered surroundings filledAt result answeredAt)
      (replaced : query.clauses.fallback = some fallback)
      (unmatched : filled.matchedRows result = 0)
      (agreed : Script.Agree surroundings (query.withClauses fallback.clauses).hooksBefore
        answeredAt agreedAt)
      (creation : Completes (query.withClauses fallback.clauses) agreedAt outcome ended) :
      Completes query memory ⟨outcome.output, some (query.withClauses fallback.clauses)⟩ ended

/-- The rows that rows of a query refer to are inserted, and their keys fill its cells. -/
inductive CompletesBefore : Query → Query → List RelatedInsert → σ → Query → σ → Prop
  | nil {query filled : Query} {memory : σ} :
      CompletesBefore query filled [] memory filled memory
  | before {query filled final insertion : Query} {row column : Nat} {relation : Relation}
      {data : Payload} {rest : List RelatedInsert} {outcome : Outcome} {key : Literal}
      {memory inserted ended : σ}
      (built : query.insertionBefore relation data = .ok insertion)
      (insert : Completes insertion memory outcome inserted)
      (handed : returnedKey relation outcome.output = .ok key)
      (others : CompletesBefore query (filled.fillCell row column key) rest inserted final ended) :
      CompletesBefore query filled (.before row column relation data :: rest) memory final ended
  | after {query filled final : Query} {row : Nat} {relation : Relation} {rows : List Payload}
      {rest : List RelatedInsert} {memory ended : σ}
      (others : CompletesBefore query filled rest memory final ended) :
      CompletesBefore query filled (.after row relation rows :: rest) memory final ended

/-- The rows that refer to rows of a query by their keys are inserted. -/
inductive CompletesAfter : Query → RowSet → List RelatedInsert → σ → σ → Prop
  | nil {query : Query} {result : RowSet} {memory : σ} :
      CompletesAfter query result [] memory memory
  | after {query insertion : Query} {result : RowSet} {row : Nat} {relation : Relation}
      {rows : List Payload} {rest : List RelatedInsert} {outcome : Outcome} {key : Literal}
      {memory inserted ended : σ}
      (found : parentKey result row relation = .ok key)
      (built : query.insertionAfter relation rows key = .ok insertion)
      (insert : Completes insertion memory outcome inserted)
      (others : CompletesAfter query result rest inserted ended) :
      CompletesAfter query result (.after row relation rows :: rest) memory ended
  | before {query : Query} {result : RowSet} {row column : Nat} {relation : Relation}
      {data : Payload} {rest : List RelatedInsert} {memory ended : σ}
      (others : CompletesAfter query result rest memory ended) :
      CompletesAfter query result (.before row column relation data :: rest) memory ended

end

/-! ## Playing the statements -/

/-- What follows the own statement of a query that matched some rows. -/
def finish (query filled : Query) (result : RowSet) : Script Outcome :=
  (Script.ofExcept (filled.checkRowCount (filled.matchedRows result))).bind fun () =>
  (runAfter query result query.clauses.related).bind fun () =>
  .done ⟨filled.outputOf result, none⟩

/-- What follows the own statement of a query that matched no row. -/
def create (query : Query) (fallback : Statement) : Script Outcome :=
  (Script.callAll (query.withClauses fallback.clauses).hooksBefore).bind fun () =>
  (runStatements (query.withClauses fallback.clauses)).bind fun outcome =>
  .done ⟨outcome.output, some (query.withClauses fallback.clauses)⟩

/-- What follows the own statement of a query. -/
def proceed (query filled : Query) (result : RowSet) : Script Outcome :=
  match query.clauses.fallback with
  | none => query.finish filled result
  | some fallback =>
    if filled.matchedRows result > 1 then .fail (.moreThanOneRow (filled.matchedRows result))
    else if filled.matchedRows result = 0 then query.create fallback
    else query.finish filled result

/-- The related rows in front come first, then the statement, then what follows from its rows. -/
theorem runStatements_eq (query : Query) :
    query.runStatements =
      (runBefore query query query.clauses.related).bind fun filled =>
      filled.sendStatement.bind fun result => query.proceed filled result := by
  rw [runStatements]
  unfold proceed
  congr 1
  funext filled
  congr 1
  funext result
  split <;> rename_i hfallback <;> simp only [hfallback] <;> rfl

variable {surroundings}

/-- A query finishes if its row count is accepted and the related rows behind it are inserted. -/
theorem yields_finish {query filled : Query} {result : RowSet} {memory ended : σ}
    {outcome : Outcome} :
    (query.finish filled result).Yields surroundings memory outcome ended ↔
      filled.checkRowCount (filled.matchedRows result) = .ok () ∧
        (runAfter query result query.clauses.related).Yields surroundings memory () ended ∧
        outcome = ⟨filled.outputOf result, none⟩ := by
  unfold finish
  simp only [Script.yields_bind, Script.yields_ofExcept, Script.yields_done]
  constructor
  · rintro ⟨_, _, ⟨hfits, rfl⟩, _, _, hafter, rfl, rfl⟩
    exact ⟨hfits, hafter, rfl⟩
  · rintro ⟨hfits, hafter, rfl⟩
    exact ⟨(), memory, ⟨hfits, rfl⟩, (), ended, hafter, rfl, rfl⟩

/-- A fallback is created between its own hooks. -/
theorem yields_create {query : Query} {fallback : Statement} {memory ended : σ}
    {outcome : Outcome} :
    (query.create fallback).Yields surroundings memory outcome ended ↔
      ∃ agreedAt created,
        Script.Agree surroundings (query.withClauses fallback.clauses).hooksBefore memory
          agreedAt ∧
        (runStatements (query.withClauses fallback.clauses)).Yields surroundings agreedAt created
          ended ∧
        outcome = ⟨created.output, some (query.withClauses fallback.clauses)⟩ := by
  unfold create
  simp only [Script.yields_bind, Script.yields_callAll, Script.yields_done]
  constructor
  · rintro ⟨_, agreedAt, hagreed, created, _, hcreation, rfl, rfl⟩
    exact ⟨agreedAt, created, hagreed, hcreation, rfl⟩
  · rintro ⟨agreedAt, created, hagreed, hcreation, rfl⟩
    exact ⟨(), agreedAt, hagreed, created, ended, hcreation, rfl, rfl⟩

mutual

/-- Playing the statements of a query ends with an outcome exactly if every step succeeds. -/
theorem yields_runStatements (query : Query) {memory ended : σ} {outcome : Outcome} :
    query.runStatements.Yields surroundings memory outcome ended ↔
      Completes surroundings query memory outcome ended := by
  have hbefore {memory filledAt : σ} {filled : Query} :
      (runBefore query query query.clauses.related).Yields surroundings memory filled filledAt ↔
        CompletesBefore surroundings query query query.clauses.related memory filled filledAt :=
    yields_runBefore query query query.clauses.related
  have hafter {result : RowSet} {memory ended : σ} :
      (runAfter query result query.clauses.related).Yields surroundings memory () ended ↔
        CompletesAfter surroundings query result query.clauses.related memory ended :=
    yields_runAfter query result query.clauses.related
  have hcreation {fallback : Statement} (h : query.clauses.fallback = some fallback)
      {memory ended : σ} {outcome : Outcome} :
      (query.withClauses fallback.clauses).runStatements.Yields surroundings memory outcome ended ↔
        Completes surroundings (query.withClauses fallback.clauses) memory outcome ended :=
    have := pendingWrites_fallback_lt h
    yields_runStatements (query.withClauses fallback.clauses)
  rw [runStatements_eq]
  simp only [Script.yields_bind, yields_sendStatement, hbefore]
  constructor
  · rintro ⟨filled, filledAt, hfilled, result, answeredAt, hanswer, hrest⟩
    unfold proceed at hrest
    split at hrest
    · rename_i hfallback
      obtain ⟨hfits, hothers, rfl⟩ := yields_finish.1 hrest
      exact .matching hfilled hanswer hfits (by simp [hfallback]) (hafter.1 hothers)
    · rename_i fallback hfallback
      split at hrest
      · exact absurd hrest (Script.yields_fail surroundings)
      · split at hrest
        · rename_i hunmatched
          obtain ⟨agreedAt, created, hagreed, hcreated, rfl⟩ := yields_create.1 hrest
          exact .creating hfilled hanswer hfallback hunmatched hagreed
            ((hcreation hfallback).1 hcreated)
        · obtain ⟨hfits, hothers, rfl⟩ := yields_finish.1 hrest
          exact .matching hfilled hanswer hfits (fun _ ↦ by omega) (hafter.1 hothers)
  · intro h
    cases h with
    | matching hfilled hanswer hfits hown hothers =>
      refine ⟨_, _, hfilled, _, _, hanswer, ?_⟩
      have hfinish := yields_finish.2 ⟨hfits, hafter.2 hothers, rfl⟩
      unfold proceed
      cases hfallback : query.clauses.fallback with
      | none => exact hfinish
      | some fallback =>
        have hone := hown (by simp [hfallback])
        simpa [hone] using hfinish
    | creating hfilled hanswer hfallback hunmatched hagreed hcreated =>
      refine ⟨_, _, hfilled, _, _, hanswer, ?_⟩
      have hcreate := yields_create.2 ⟨_, _, hagreed, (hcreation hfallback).2 hcreated, rfl⟩
      simpa [proceed, hfallback, hunmatched] using hcreate
termination_by 2 * query.pendingWrites + 1
decreasing_by
  · have := totalWrites_related_le query
    omega
  · have := totalWrites_related_le query
    omega
  · omega

/-- The related rows in front are inserted exactly when each of them completes. -/
theorem yields_runBefore (query filled : Query) (related : List RelatedInsert) {final : Query}
    {memory ended : σ} :
    (runBefore query filled related).Yields surroundings memory final ended ↔
      CompletesBefore surroundings query filled related memory final ended := by
  match related with
  | [] =>
    rw [runBefore, Script.yields_done]
    constructor
    · rintro ⟨rfl, rfl⟩
      exact .nil
    · intro h
      cases h
      exact ⟨rfl, rfl⟩
  | .after row relation rows :: rest =>
    rw [runBefore, yields_runBefore query filled rest]
    constructor
    · exact .after
    · intro h
      cases h with
      | after hothers => exact hothers
  | .before row column relation data :: rest =>
    have hinsertion {insertion : Query} (h : query.insertionBefore relation data = .ok insertion)
        {memory ended : σ} {outcome : Outcome} :
        insertion.runStatements.Yields surroundings memory outcome ended ↔
          Completes surroundings insertion memory outcome ended :=
      have := pendingWrites_insertionBefore_le h
      yields_runStatements insertion
    have hrest {key : Literal} {memory : σ} :
        (runBefore query (filled.fillCell row column key) rest).Yields surroundings memory final
            ended ↔
          CompletesBefore surroundings query (filled.fillCell row column key) rest memory final
            ended :=
      yields_runBefore query (filled.fillCell row column key) rest
    rw [runBefore]
    split
    · rename_i error hrefused
      constructor
      · exact fun h ↦ absurd h (Script.yields_fail surroundings)
      · intro h
        cases h with
        | before hbuilt => cases hrefused.symm.trans hbuilt
    · rename_i insertion hbuilt
      simp only [Script.yields_bind, Script.yields_ofExcept, hinsertion hbuilt, hrest]
      constructor
      · rintro ⟨outcome, inserted, hinsert, key, _, ⟨hkey, rfl⟩, hothers⟩
        exact .before hbuilt hinsert hkey hothers
      · intro h
        cases h with
        | before hother hinsert hkey hothers =>
          cases hbuilt.symm.trans hother
          exact ⟨_, _, hinsert, _, _, ⟨hkey, rfl⟩, hothers⟩
termination_by 2 * RelatedInsert.totalWrites related
decreasing_by
  all_goals
    simp only [RelatedInsert.totalWrites, RelatedInsert.writes]
    omega

/-- The related rows behind are inserted exactly when each of them completes. -/
theorem yields_runAfter (query : Query) (result : RowSet) (related : List RelatedInsert)
    {memory ended : σ} :
    (runAfter query result related).Yields surroundings memory () ended ↔
      CompletesAfter surroundings query result related memory ended := by
  match related with
  | [] =>
    rw [runAfter, Script.yields_done]
    constructor
    · rintro ⟨-, rfl⟩
      exact .nil
    · intro h
      cases h
      exact ⟨rfl, rfl⟩
  | .before row column relation data :: rest =>
    rw [runAfter, yields_runAfter query result rest]
    constructor
    · exact .before
    · intro h
      cases h with
      | before hothers => exact hothers
  | .after row relation rows :: rest =>
    have hinsertion {key : Literal} {insertion : Query}
        (h : query.insertionAfter relation rows key = .ok insertion)
        {memory ended : σ} {outcome : Outcome} :
        insertion.runStatements.Yields surroundings memory outcome ended ↔
          Completes surroundings insertion memory outcome ended :=
      have := pendingWrites_insertionAfter_le h
      yields_runStatements insertion
    have hrest {memory : σ} :
        (runAfter query result rest).Yields surroundings memory () ended ↔
          CompletesAfter surroundings query result rest memory ended :=
      yields_runAfter query result rest
    rw [runAfter]
    simp only [Script.yields_bind, Script.yields_ofExcept]
    constructor
    · rintro ⟨key, _, ⟨hkey, rfl⟩, hplayed⟩
      split at hplayed
      · exact absurd hplayed (Script.yields_fail surroundings)
      · rename_i insertion hbuilt
        obtain ⟨outcome, inserted, hinsert, hothers⟩ :=
          (Script.yields_bind surroundings).1 hplayed
        exact .after hkey hbuilt ((hinsertion hbuilt).1 hinsert) (hrest.1 hothers)
    · intro h
      cases h with
      | after hkey hbuilt hinsert hothers =>
        refine ⟨_, _, ⟨hkey, rfl⟩, ?_⟩
        split
        · rename_i error hrefused
          cases hrefused.symm.trans hbuilt
        · rename_i insertion hother
          cases hother.symm.trans hbuilt
          exact (Script.yields_bind surroundings).2
            ⟨_, _, (hinsertion hbuilt).2 hinsert, hrest.2 hothers⟩
termination_by 2 * RelatedInsert.totalWrites related
decreasing_by
  all_goals
    simp only [RelatedInsert.totalWrites, RelatedInsert.writes]
    omega

end

end SqlComposer.Query
