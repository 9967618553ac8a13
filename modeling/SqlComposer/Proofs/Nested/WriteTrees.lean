import SqlComposer.Proofs.Execution.SentStatements
import SqlComposer.Proofs.Insertion.PayloadKeys
import SqlComposer.Proofs.Insertion.RowPlans

/-!
# Writes

The insertions that a planned insertion came to when it ran, as a tree: one write for the rows
themselves, one before it for each row that they refer to, and one behind it for each request of
rows that refer to them. Every run that ends with an outcome has such a tree. Its writes carry out
the requests of their payloads one by one, and what they bind under foreign keys are the keys that
other writes handed back.
-/

namespace SqlComposer

/-- The key of a relation in a row of a result. -/
def RowSet.key? (result : RowSet) (row : Nat) (relation : Relation) : Option Literal :=
  result.rows[row]?.bind fun found ↦ found.get? relation.primaryKey

/-- The rows of payloads as they were inserted into a table, with the writes before and behind. -/
structure Write where
  table : Table
  payloads : List Payload
  /-- The insertion as it was sent, its cells filled. -/
  sent : Query
  sql : CompiledSql
  /-- What came back, read as the types of the table. -/
  result : RowSet
  before : List Write
  after : List Write

namespace Write

mutual

/-- The statements of a write, in the order in which they were sent. -/
def statements : Write → List CompiledSql
  | ⟨_, _, _, sql, _, before, after⟩ => statementsOf before ++ sql :: statementsOf after

def statementsOf : List Write → List CompiledSql
  | [] => []
  | write :: rest => write.statements ++ statementsOf rest

end

mutual

/-- A write with all writes before and behind it, at any depth. -/
def parts : Write → List Write
  | ⟨table, payloads, sent, sql, result, before, after⟩ =>
    ⟨table, payloads, sent, sql, result, before, after⟩ :: (partsOf before ++ partsOf after)

def partsOf : List Write → List Write
  | [] => []
  | write :: rest => write.parts ++ partsOf rest

end

theorem forall_mem_partsOf_cons {motive : Write → Prop} {write : Write} {rest : List Write} :
    (∀ part ∈ partsOf (write :: rest), motive part) ↔
      (∀ part ∈ write.parts, motive part) ∧ ∀ part ∈ partsOf rest, motive part := by
  rw [partsOf, List.forall_mem_append]

mutual

/-- What passes from the writes before and behind to a write holds of every write. -/
theorem induction {motive : Write → Prop}
    (step : ∀ write : Write, (∀ child ∈ write.before ++ write.after, motive child) → motive write)
    (write : Write) : motive write :=
  match write with
  | ⟨_, _, _, _, _, before, after⟩ =>
    step _ (List.forall_mem_append.2 ⟨inductionOf step before, inductionOf step after⟩)

theorem inductionOf {motive : Write → Prop}
    (step : ∀ write : Write, (∀ child ∈ write.before ++ write.after, motive child) → motive write)
    (writes : List Write) : ∀ child ∈ writes, motive child :=
  match writes with
  | [] => fun _ hchild ↦ absurd hchild List.not_mem_nil
  | write :: rest => List.forall_mem_cons.2 ⟨induction step write, inductionOf step rest⟩

end

/-- What the payloads of a write ask for in front of it. -/
def preceding (write : Write) : List Request :=
  (write.table.requests write.payloads).filter fun request ↦ request.precedes

/-- What the payloads of a write ask for behind it. -/
def following (write : Write) : List Request :=
  (write.table.requests write.payloads).filter fun request ↦ !request.precedes

/-! ## What a write does -/

/-- A write inserts the row that was asked for, and hands back its key. -/
structure Answers (catalog : Option Catalog) (request : Request) (write : Write) : Prop where
  target : Catalog.lookUp catalog request.relation.table = some write.table
  payloads : write.payloads = request.rows.map fun row ↦ row.onto .empty
  handed : ∃ key, write.result.key? 0 request.relation = some key

/-- A write inserts the rows that were asked for behind a result, with the key of their row in the
result under the foreign key. -/
structure Attends (catalog : Option Catalog) (result : RowSet) (request : Request)
    (write : Write) : Prop where
  target : Catalog.lookUp catalog request.relation.table = some write.table
  payloads : ∃ key, result.key? request.row request.relation = some key ∧
    write.payloads = request.rows.map fun row ↦
      (row.set request.relation.foreignKey (.literal key)).onto .empty

/-- A write is one statement that inserts a row for each of its payloads, with one write before it
for each row that is asked for in front and one behind it for each other request, in order. -/
structure Carried (catalog : Option Catalog) (write : Write) : Prop where
  target : write.sent.clauses.table = some write.table
  rectangular : write.sent.Rectangular write.payloads.length
  written : write.sent.compile = .ok write.sql
  before : List.Forall₂ (Answers catalog) write.preceding write.before
  after : List.Forall₂ (Attends catalog write.result) write.following write.after

/-- The cell of a foreign key of a statement is bound to the key that the write of the row which was
asked for handed back. -/
def FillsIn (sent : Query) (request : Request) (write : Write) : Prop :=
  ∃ key, write.result.key? 0 request.relation = some key ∧
    sent.cell? request.row request.relation.foreignKey = some (.value (.literal key))

/-- In each row that was asked for behind a result, the cell of the foreign key is bound to the key
of their row in the result, prepared for the column. This leaves out rows that ask themselves for a
row under the same foreign key, and tables that do not take the key. -/
def RefersTo (result : RowSet) (request : Request) (write : Write) : Prop :=
  ∃ key, result.key? request.row request.relation = some key ∧
    ∀ row < request.rows.length, write.table.takesKey request.relation.foreignKey →
      (∀ other ∈ write.preceding, other.row = row →
        other.relation.foreignKey ≠ request.relation.foreignKey) →
      write.sent.cell? row request.relation.foreignKey =
        some (.value (.literal (write.table.encode request.relation.foreignKey key)))

/-- The keys of all rows that are asked for in front are filled in. -/
def BindsPreceding (write : Write) : Prop :=
  List.Forall₂ (FillsIn write.sent) write.preceding write.before

/-- All rows that are asked for behind a write refer to its rows. -/
def BindsFollowing (write : Write) : Prop :=
  List.Forall₂ (RefersTo write.result) write.following write.after

/-- No two rows that are asked for in front of one row share a foreign key. -/
def Apart (requests : List Request) : Prop :=
  requests.Pairwise fun first second ↦
    first.row = second.row → first.relation.foreignKey ≠ second.relation.foreignKey

/-- A write is carried out and binds the right keys. -/
structure Sound (catalog : Option Catalog) (write : Write) : Prop where
  carried : write.Carried catalog
  preceding : Apart write.preceding → write.BindsPreceding
  following : write.BindsFollowing

end Write

/-! ## Keys -/

namespace Query

variable {σ : Type} {surroundings : Script.Surroundings σ}

section

variable {query filled final : Query} {related : List RelatedInsert} {height : Nat}
variable {memory ended : σ}

theorem parentKey_eq_ok {result : RowSet} {row : Nat} {relation : Relation} {key : Literal} :
    parentKey result row relation = .ok key ↔ result.key? row relation = some key := by
  unfold parentKey RowSet.key?
  cases result.rows[row]?.bind fun found ↦ found.get? relation.primaryKey <;> simp

/-- The insertion of a row that is asked for in front hands back its row as it came back. -/
theorem outputOf_insertionBefore {insertion sent : Query} {relation : Relation} {data : Payload}
    (built : query.insertionBefore relation data = .ok insertion)
    (filled : insertion.Filled sent) (result : RowSet) :
    sent.outputOf result = .one result.rows.head? := by
  obtain ⟨table, plan, reference, -, -, -, rfl⟩ := insertionBefore_eq_ok.1 built
  obtain ⟨inserted, hverb⟩ := filled.verb ⟨_, rfl⟩
  have hrecords : sent.clauses.returnsRecords = true := by
    rw [filled.clauses]
    simp [Clauses.returnsRecords, hverb, take, shaped, selectItems, modify]
  have hshape : sent.clauses.shape = .oneOrThrow := by
    rw [filled.clauses]
    rfl
  rw [outputOf, hrecords, hshape]
  rfl

/-- The key of a returned row is the value of its key column. -/
theorem returnedKey_one_eq_ok {relation : Relation} {row : Option Row} {key : Literal} :
    returnedKey relation (.one row) = .ok key ↔
      row.bind (fun found ↦ found.get? relation.primaryKey) = some key := by
  simp only [returnedKey, Output.record, bind, Except.bind]
  cases row.bind fun found ↦ found.get? relation.primaryKey <;> simp

/-! ## Cells -/

/-- A cell that waits for no row stays as it is while the rows in front are inserted. -/
theorem cell?_of_completesBefore
    (h : CompletesBefore surroundings query filled related memory final ended)
    (fits : ∀ insert ∈ related, insert.Fits filled.insertedColumns height) {row : Nat}
    {name : String} (untouched : ∀ insert ∈ related, insert.request.precedes →
      insert.request.row = row → insert.request.relation.foreignKey ≠ name) :
    final.cell? row name = filled.cell? row name := by
  induction related generalizing filled memory with
  | nil => cases h; rfl
  | cons insert rest ih =>
    rw [List.forall_mem_cons] at fits untouched
    cases h with
    | after others => exact ih others fits.2 untouched.2
    | before built insert handed others =>
      obtain ⟨hkind, hinside, hmem, rfl⟩ := fits.1
      rw [ih others (by simpa using fits.2) untouched.2]
      refine cell?_fillCell_other fun hrow hindex ↦ ?_
      exact untouched.1 (decide_eq_true hkind) hrow.symm ((List.idxOf_inj hmem).1 hindex.symm)

theorem filled_of_completesBefore {planned : Query}
    (h : CompletesBefore surroundings query filled related memory final ended)
    (start : planned.Filled filled) : planned.Filled final := by
  induction related generalizing filled memory with
  | nil => cases h; exact start
  | cons insert rest ih =>
    cases h with
    | after others => exact ih others start
    | before built insert handed others => exact ih others (start.fill _ _ _)

end

/-! ## Runs -/

section

variable {query insertion filled final : Query} {result reply : RowSet} {outcome : Outcome}
variable {relation : Relation} {key : Literal} {rest : List RelatedInsert}
variable {memory between ended : σ} {earlier later : List CompiledSql}

/-- A query that matches as many rows as it may plays its statement between those of the rows in
front and behind. -/
theorem plays_runStatements {answered : σ} {sql : CompiledSql}
    (own : query.clauses.fallback.isSome → filled.matchedRows result = 1)
    (before : (runBefore query query query.clauses.related).Plays surroundings memory earlier filled
      between)
    (written : filled.compile = .ok sql)
    (sent : surroundings.send between sql.text sql.values = (.ok reply, answered))
    (read : filled.decoded reply = .ok result)
    (fits : filled.checkRowCount (filled.matchedRows result) = .ok ())
    (after : (runAfter query result query.clauses.related).Plays surroundings answered later ()
      ended) :
    query.runStatements.Plays surroundings memory (earlier ++ sql :: later)
      ⟨filled.outputOf result, none⟩ ended := by
  have hown := (plays_sendStatement surroundings).2 ⟨sql, reply, written, sent, read, rfl⟩
  have hend : (query.proceed filled result).Plays surroundings answered later
      ⟨filled.outputOf result, none⟩ ended := by
    have hfinish : query.proceed filled result = query.finish filled result := by
      unfold proceed
      cases hfallback : query.clauses.fallback with
      | none => rfl
      | some fallback => simp [own (by simp [hfallback])]
    rw [hfinish]
    exact (Script.plays_bind surroundings).2 ⟨(), _, [], _,
      (Script.plays_ofExcept surroundings).2 ⟨fits, rfl, rfl⟩,
      (Script.plays_bind surroundings).2 ⟨(), ended, _, [], after,
        (Script.plays_done surroundings).2 ⟨rfl, rfl, rfl⟩, rfl⟩, by simp⟩
  rw [runStatements_eq]
  exact (Script.plays_bind surroundings).2 ⟨filled, _, _, _, before,
    (Script.plays_bind surroundings).2 ⟨result, _, _, _, hown, hend, rfl⟩, rfl⟩

theorem plays_runBefore_nil (query : Query) (memory : σ) :
    (runBefore query query []).Plays surroundings memory [] query memory := by
  rw [runBefore]
  exact (Script.plays_done surroundings).2 ⟨rfl, rfl, rfl⟩

theorem plays_runAfter_nil (query : Query) (result : RowSet) (memory : σ) :
    (runAfter query result []).Plays surroundings memory [] () memory := by
  rw [runAfter]
  exact (Script.plays_done surroundings).2 ⟨rfl, rfl, rfl⟩

/-- One related row in front is inserted and hands its key on to the others. -/
theorem plays_runBefore_before {row column : Nat} {data : Payload}
    (built : query.insertionBefore relation data = .ok insertion)
    (insert : insertion.runStatements.Plays surroundings memory earlier outcome between)
    (handed : returnedKey relation outcome.output = .ok key)
    (others : (runBefore query (filled.fillCell row column key) rest).Plays surroundings between
      later final ended) :
    (runBefore query filled (.before row column relation data :: rest)).Plays surroundings memory
      (earlier ++ later) final ended := by
  rw [runBefore]
  split
  · rename_i error hrefused
    cases hrefused.symm.trans built
  · rename_i other hother
    cases hother.symm.trans built
    exact (Script.plays_bind surroundings).2 ⟨outcome, _, _, _, insert,
      (Script.plays_bind surroundings).2 ⟨key, _, [], _,
        (Script.plays_ofExcept surroundings).2 ⟨handed, rfl, rfl⟩, others, rfl⟩, rfl⟩

/-- One related list behind is inserted under the key of its parent row. -/
theorem plays_runAfter_after {row : Nat} {rows : List Payload}
    (found : parentKey result row relation = .ok key)
    (built : query.insertionAfter relation rows key = .ok insertion)
    (insert : insertion.runStatements.Plays surroundings memory earlier outcome between)
    (others : (runAfter query result rest).Plays surroundings between later () ended) :
    (runAfter query result (.after row relation rows :: rest)).Plays surroundings memory
      (earlier ++ later) () ended := by
  rw [runAfter]
  refine (Script.plays_bind surroundings).2 ⟨key, _, [], _,
    (Script.plays_ofExcept surroundings).2 ⟨found, rfl, rfl⟩, ?_, rfl⟩
  split
  · rename_i error hrefused
    cases hrefused.symm.trans built
  · rename_i other hother
    cases hother.symm.trans built
    exact (Script.plays_bind surroundings).2 ⟨outcome, _, _, _, insert, others, rfl⟩

end

/-- Nothing is inserted in the place of a query without a fallback. -/
theorem created_of_completes {query : Query} {memory ended : σ} {outcome : Outcome}
    (h : Completes surroundings query memory outcome ended)
    (alone : query.clauses.fallback = none) : outcome.created = none := by
  cases h with
  | matching => rfl
  | creating _ _ replaced => cases alone.symm.trans replaced

/-- A write records what a planned insertion came to when it ran. -/
structure Records (surroundings : Script.Surroundings σ) (query : Query) (memory : σ)
    (outcome : Outcome) (ended : σ) (write : Write) : Prop where
  filled : query.Filled write.sent
  ends : outcome = ⟨write.sent.outputOf write.result, none⟩
  untouched : ∀ row name, (∀ request ∈ write.preceding, request.row = row →
    request.relation.foreignKey ≠ name) → write.sent.cell? row name = query.cell? row name
  plays : query.runStatements.Plays surroundings memory write.statements outcome ended
  sound : ∀ part ∈ write.parts, part.Sound query.catalog

/-- Requests in front of rows, among those of related insertions. -/
def requestsBefore (related : List RelatedInsert) : List Request :=
  (related.map RelatedInsert.request).filter fun request ↦ request.precedes

/-- Requests behind rows, among those of related insertions. -/
def requestsAfter (related : List RelatedInsert) : List Request :=
  (related.map RelatedInsert.request).filter fun request ↦ !request.precedes

theorem requestsBefore_before {row column : Nat} {relation : Relation} {data : Payload}
    (kind : relation.kind = .belongsTo) (rest : List RelatedInsert) :
    requestsBefore (.before row column relation data :: rest) =
      ⟨row, relation, [data]⟩ :: requestsBefore rest :=
  List.filter_cons_of_pos (decide_eq_true kind)

theorem requestsBefore_after {row : Nat} {relation : Relation} {rows : List Payload}
    (kind : relation.kind ≠ .belongsTo) (rest : List RelatedInsert) :
    requestsBefore (.after row relation rows :: rest) = requestsBefore rest :=
  List.filter_cons_of_neg fun h ↦ kind (of_decide_eq_true h)

theorem requestsAfter_after {row : Nat} {relation : Relation} {rows : List Payload}
    (kind : relation.kind ≠ .belongsTo) (rest : List RelatedInsert) :
    requestsAfter (.after row relation rows :: rest) =
      ⟨row, relation, rows⟩ :: requestsAfter rest :=
  List.filter_cons_of_pos (congrArg not (decide_eq_false kind))

theorem requestsAfter_before {row column : Nat} {relation : Relation} {data : Payload}
    (kind : relation.kind = .belongsTo) (rest : List RelatedInsert) :
    requestsAfter (.before row column relation data :: rest) = requestsAfter rest :=
  List.filter_cons_of_neg (ne_true_of_eq_false (congrArg not (decide_eq_true kind)))

open Script Write

mutual

/-- Every run of a planned insertion that ends with an outcome of its own is recorded by a write. -/
theorem exists_write {query : Query} {memory ended : σ} {outcome : Outcome} {table : Table}
    {payloads : List Payload} {plan : RowPlan}
    (h : Completes surroundings query memory outcome ended)
    (plans : query.Plans table payloads plan) (own : outcome.created = none) :
    ∃ write : Write, write.table = table ∧ write.payloads = payloads ∧
      Records surroundings query memory outcome ended write := by
  match h with
  | .creating _ _ _ _ _ _ => cases own
  | @Completes.matching _ _ _ filled result _ _ answered _ before answer fits alone after =>
    obtain ⟨earlier, hearlier, hbinds, hplaysBefore, hsoundBefore⟩ :=
      exists_writes_before before plans.fits plans.rectangular
    obtain ⟨later, hlater, hrefer, hplaysAfter, hsoundAfter⟩ :=
      exists_writes_after after plans.fits
    obtain ⟨sql, reply, hsql, hsend, hread⟩ := answer
    have hfilled : query.Filled filled := filled_of_completesBefore before .refl
    have hpreceding : requestsBefore query.clauses.related =
        (table.requests payloads).filter fun request ↦ request.precedes := by
      rw [requestsBefore, plans.requests]
    have hfollowing : requestsAfter query.clauses.related =
        (table.requests payloads).filter fun request ↦ !request.precedes := by
      rw [requestsAfter, plans.requests]
    rw [hpreceding] at hearlier hbinds
    rw [hfollowing] at hlater hrefer
    have htarget : filled.clauses.table = some table := by
      rw [hfilled.clauses]
      exact plans.target
    refine ⟨⟨table, payloads, filled, sql, result, earlier, later⟩, rfl, rfl, hfilled, rfl, ?_, ?_,
      ?_⟩
    · intro row name huntouched
      refine cell?_of_completesBefore before plans.fits fun insert hinsert hprecedes hrow ↦ ?_
      refine huntouched insert.request (List.mem_filter.2 ⟨?_, hprecedes⟩) hrow
      exact plans.requests ▸ List.mem_map_of_mem hinsert
    · exact plays_runStatements alone hplaysBefore hsql hsend hread fits hplaysAfter
    · intro part hpart
      rw [parts, List.mem_cons, List.mem_append] at hpart
      rcases hpart with rfl | hpart | hpart
      · exact ⟨⟨htarget, hfilled.rectangular plans.rectangular, hsql, hearlier, hlater⟩, hbinds,
          hrefer⟩
      · exact hsoundBefore part hpart
      · exact hsoundAfter part hpart
termination_by structural h

/-- The rows in front are written one by one, and each hands its key to a cell. -/
theorem exists_writes_before {query filled final : Query} {related : List RelatedInsert}
    {height : Nat} {memory ended : σ}
    (h : CompletesBefore surroundings query filled related memory final ended)
    (fits : ∀ insert ∈ related, insert.Fits filled.insertedColumns height)
    (rectangular : filled.Rectangular height) :
    ∃ writes, List.Forall₂ (Answers query.catalog) (requestsBefore related) writes ∧
      (Apart (requestsBefore related) →
        List.Forall₂ (FillsIn final) (requestsBefore related) writes) ∧
      (runBefore query filled related).Plays surroundings memory (statementsOf writes) final ended ∧
      ∀ part ∈ partsOf writes, part.Sound query.catalog := by
  match h with
  | .nil =>
    refine ⟨[], .nil, fun _ ↦ .nil, ?_, by simp [partsOf]⟩
    rw [runBefore, plays_done]
    exact ⟨rfl, rfl, rfl⟩
  | .after others =>
    rw [List.forall_mem_cons] at fits
    rw [requestsBefore_after fits.1.1, runBefore]
    exact exists_writes_before others fits.2 rectangular
  | @CompletesBefore.before _ _ _ _ _ insertion row column relation data rest outcome key _ inserted
      _ built insert handed others =>
    rw [List.forall_mem_cons] at fits
    obtain ⟨⟨hkind, hinside, hmem, hcolumn⟩, hrest⟩ := fits
    obtain ⟨table, plan, htable, hplans, halone, hcatalog⟩ := plans_insertionBefore built
    obtain ⟨write, rfl, hpayloads, hrecords⟩ :=
      exists_write insert hplans (created_of_completes insert halone)
    have hlater : ∀ insert ∈ rest,
        insert.Fits (filled.fillCell row column key).insertedColumns height := by simpa using hrest
    obtain ⟨writes, hanswers, hbinds, hplays, hsound⟩ :=
      exists_writes_before others hlater rectangular.fillCell
    have hkey : write.result.key? 0 relation = some key := by
      rwa [hrecords.ends, outputOf_insertionBefore built hrecords.filled, returnedKey_one_eq_ok,
        List.head?_eq_getElem?] at handed
    refine ⟨write :: writes, ?_, fun hapart ↦ ?_, ?_, ?_⟩
    · rw [requestsBefore_before hkind]
      exact .cons ⟨htable, hpayloads, key, hkey⟩ hanswers
    · rw [requestsBefore_before hkind] at hapart ⊢
      obtain ⟨hfirst, hothers⟩ := List.pairwise_cons.1 hapart
      refine .cons ⟨key, hkey, ?_⟩ (hbinds hothers)
      rw [cell?_of_completesBefore others hlater, hcolumn,
        cell?_fillCell_self rectangular hinside hmem]
      intro insert hinsert hprecedes hrow
      exact (hfirst insert.request (List.mem_filter.2 ⟨List.mem_map_of_mem hinsert, hprecedes⟩)
        hrow.symm).symm
    · exact plays_runBefore_before built hrecords.plays handed hplays
    · exact forall_mem_partsOf_cons.2 ⟨hcatalog ▸ hrecords.sound, hsound⟩
termination_by structural h

/-- The rows behind are written request by request, and refer to the rows that came back. -/
theorem exists_writes_after {query : Query} {result : RowSet} {related : List RelatedInsert}
    {height : Nat} {memory ended : σ}
    (h : CompletesAfter surroundings query result related memory ended)
    (fits : ∀ insert ∈ related, insert.Fits query.insertedColumns height) :
    ∃ writes, List.Forall₂ (Attends query.catalog result) (requestsAfter related) writes ∧
      List.Forall₂ (RefersTo result) (requestsAfter related) writes ∧
      (runAfter query result related).Plays surroundings memory (statementsOf writes) () ended ∧
      ∀ part ∈ partsOf writes, part.Sound query.catalog := by
  match h with
  | .nil =>
    refine ⟨[], .nil, .nil, ?_, by simp [partsOf]⟩
    rw [runAfter, plays_done]
    exact ⟨rfl, rfl, rfl⟩
  | .before others =>
    rw [List.forall_mem_cons] at fits
    rw [requestsAfter_before fits.1.1, runAfter]
    exact exists_writes_after others fits.2
  | @CompletesAfter.after _ _ _ insertion _ row relation rows rest outcome key _ inserted _ found
      built insert others =>
    rw [List.forall_mem_cons] at fits
    obtain ⟨⟨hkind, -⟩, hrest⟩ := fits
    obtain ⟨table, plan, htable, hplans, halone, hcatalog⟩ := plans_insertionAfter built
    obtain ⟨write, rfl, hpayloads, hrecords⟩ :=
      exists_write insert hplans (created_of_completes insert halone)
    obtain ⟨writes, hattends, hrefer, hplays, hsound⟩ := exists_writes_after others hrest
    rw [requestsAfter_after hkind]
    refine ⟨write :: writes, .cons ⟨htable, key, parentKey_eq_ok.1 found, hpayloads⟩ hattends,
      .cons ⟨key, parentKey_eq_ok.1 found, ?_⟩ hrefer, ?_, ?_⟩
    · intro index hinside htaken hown
      rw [hrecords.untouched index _ hown]
      refine hplans.cell?_set hinside htaken fun request hrequest hprecedes ↦ ?_
      refine hown request (List.mem_filter.2 ⟨?_, hprecedes⟩)
      rwa [hpayloads]
    · exact plays_runAfter_after found built hrecords.plays hplays
    · exact forall_mem_partsOf_cons.2 ⟨hcatalog ▸ hrecords.sound, hsound⟩
termination_by structural h

end

end Query

end SqlComposer
