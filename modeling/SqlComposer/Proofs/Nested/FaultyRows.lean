import SqlComposer.Proofs.Nested.AnsweredInsertions
import SqlComposer.Proofs.Nested.ConstructionErrors

/-!
# Faults inside of rows

The insertions of rows inside of rows are built while a query is run. If one of them cannot be
built, which is a construction error, statements have been sent by then. In surroundings that answer
everything in full, running an insertion comes to a construction error only if its rows are not
admitted throughout, and to an output only if they are. Other failures come from relations whose
keys are not columns of their tables, and from a row in place of the query when there are several.
-/

namespace SqlComposer

/-! ## Scripts that tell a fault -/

namespace Script

variable {σ α β : Type} (surroundings : Surroundings σ)

/-- Whatever it is played from, a script ends with a value only without a fault and with
a construction error only because of one; it fails otherwise only if something is in its way. -/
def Tells (script : Script α) (fault obstacle : Prop) : Prop :=
  ∀ memory, match (script.run surroundings memory).result with
    | .ok _ => ¬fault
    | .error error => if error.isConstruction then fault else obstacle

variable {surroundings} {script : Script α} {next : α → Script β} {fault other obstacle : Prop}

theorem Tells.not_fault (h : script.Tells surroundings fault obstacle) {memory ended : σ}
    {value : α} (yields : script.Yields surroundings memory value ended) : ¬fault := by
  have hend := h memory
  rw [yields.1] at hend
  exact hend

theorem Tells.of_iff (h : script.Tells surroundings fault obstacle) (same : fault ↔ other) :
    script.Tells surroundings other obstacle :=
  propext same ▸ h

/-- A script that fails tells the fault that it fails for. -/
theorem tells_fail {error : Error} (h : if error.isConstruction then fault else obstacle) :
    (fail error : Script α).Tells surroundings fault obstacle :=
  fun _ ↦ h

theorem tells_done {value : α} (h : ¬fault) : (done value).Tells surroundings fault obstacle :=
  fun _ ↦ h

/-- A script that always ends with a value has no fault to tell. -/
theorem tells_of_yields
    (h : ∀ memory, ∃ value ended, script.Yields surroundings memory value ended) :
    script.Tells surroundings False obstacle := by
  intro memory
  obtain ⟨value, ended, hvalue, -⟩ := h memory
  rw [hvalue]
  exact not_false

/-- A computation that is no construction fails for something in its way. -/
theorem tells_ofExcept {result : Except Error α}
    (h : ∀ error, result = .error error → error.isConstruction = false ∧ obstacle) :
    (ofExcept result).Tells surroundings False obstacle := by
  cases result with
  | ok value => exact tells_done not_false
  | error error =>
    obtain ⟨hother, hobstacle⟩ := h error rfl
    exact tells_fail (by simpa [hother] using hobstacle)

/-- Two scripts one behind the other tell the faults of both. -/
theorem Tells.bind (first : script.Tells surroundings fault obstacle)
    (rest : ∀ memory value ended, script.Yields surroundings memory value ended →
      (next value).Tells surroundings other obstacle) :
    (script.bind next).Tells surroundings (fault ∨ other) obstacle := by
  intro memory
  have hfirst := first memory
  cases hresult : (script.run surroundings memory).result with
  | error error =>
    rw [hresult] at hfirst
    rw [result_bind_error surroundings hresult]
    dsimp only at hfirst ⊢
    split at hfirst
    · rename_i hconstruction
      rw [if_pos hconstruction]
      exact .inl hfirst
    · rename_i hother
      rw [if_neg hother]
      exact hfirst
  | ok value =>
    rw [hresult] at hfirst
    have hrest := rest memory value _ ⟨hresult, rfl⟩ (script.run surroundings memory).memory
    rw [result_bind_ok surroundings hresult]
    split at hrest
    · exact fun h ↦ h.elim hfirst hrest
    · split at hrest
      · rename_i hconstruction
        rw [if_pos hconstruction]
        exact .inr hrest
      · rename_i hother
        rw [if_neg hother]
        exact hrest

/-- Behind a script without a fault another one tells its own. -/
theorem Tells.behind (first : script.Tells surroundings False obstacle)
    (rest : ∀ memory value ended, script.Yields surroundings memory value ended →
      (next value).Tells surroundings fault obstacle) :
    (script.bind next).Tells surroundings fault obstacle :=
  (first.bind rest).of_iff (iff_of_eq (false_or fault))

/-- A script that ends without a fault adds none to those before it. -/
theorem Tells.ahead (first : script.Tells surroundings fault obstacle)
    (rest : ∀ memory value ended, script.Yields surroundings memory value ended →
      (next value).Tells surroundings False obstacle) :
    (script.bind next).Tells surroundings fault obstacle :=
  (first.bind rest).of_iff (iff_of_eq (or_false fault))

end Script

/-! ## Rows in front and behind -/

theorem Script.bind_bind {α β γ : Type} (script : Script α) (next : α → Script β)
    (last : β → Script γ) :
    (script.bind next).bind last = script.bind fun value ↦ (next value).bind last := by
  induction script with
  | done value | fail error => rfl
  | send sql values answer ih => exact congrArg (send sql values) (funext ih)
  | control sql answer ih => exact congrArg (control sql) (funext ih)
  | call hook answer ih => exact congrArg (call hook) (funext ih)
  | log event rest ih => exact congrArg (log event) ih

/-- Whether the rows of a related insertion are inserted before. -/
def RelatedInsert.precedes : RelatedInsert → Bool
  | before _ _ _ _ => true
  | after _ _ _ => false

namespace Query

variable {σ : Type} {surroundings : Script.Surroundings σ} {obstacle : Prop}

section

variable {query : Query} {related : List RelatedInsert} {fault : RelatedInsert → Prop}

/-- Inserts a row in front for its key. -/
def insertBefore (query : Query) (relation : Relation) (data : Payload) : Script Literal :=
  (Script.ofExcept (query.insertionBefore relation data)).bind fun insertion =>
  insertion.runStatements.bind fun outcome =>
  Script.ofExcept (returnedKey relation outcome.output)

/-- Inserts rows behind a row that came back. -/
def insertAfter (query : Query) (result : RowSet) (row : Nat) (relation : Relation)
    (rows : List Payload) : Script Unit :=
  (Script.ofExcept (parentKey result row relation)).bind fun key =>
  (Script.ofExcept (query.insertionAfter relation rows key)).bind fun insertion =>
  insertion.runStatements.bind fun _ => .done ()

/-- The related rows in front are inserted one by one, each key filling its cell. -/
theorem runBefore_before (filled : Query) (row column : Nat) (relation : Relation)
    (data : Payload) (rest : List RelatedInsert) :
    runBefore query filled (.before row column relation data :: rest) =
      (query.insertBefore relation data).bind fun key =>
      runBefore query (filled.fillCell row column key) rest := by
  rw [runBefore, insertBefore]
  split
  · rename_i error hrefused
    rw [hrefused]
    rfl
  · rename_i insertion hbuilt
    dsimp only
    rw [hbuilt]
    exact (Script.bind_bind _ _ _).symm

/-- The related rows behind are inserted one by one. -/
theorem runAfter_after (result : RowSet) (row : Nat) (relation : Relation) (rows : List Payload)
    (rest : List RelatedInsert) :
    runAfter query result (.after row relation rows :: rest) =
      (query.insertAfter result row relation rows).bind fun () =>
      runAfter query result rest := by
  rw [runAfter, insertAfter, Script.bind_bind]
  refine congrArg (Script.ofExcept (parentKey result row relation)).bind (funext fun key ↦ ?_)
  split
  · rename_i error hrefused
    rw [hrefused]
    rfl
  · rename_i insertion hbuilt
    dsimp only
    rw [hbuilt]
    exact (Script.bind_bind insertion.runStatements (fun _ ↦ .done ()) fun _ ↦
      runAfter query result rest).symm

/-- Inserting the rows in front tells the faults of each of them. -/
theorem tells_runBefore (filled : Query) (each : ∀ row column relation data,
      .before row column relation data ∈ related →
        (query.insertBefore relation data).Tells surroundings
          (fault (.before row column relation data)) obstacle) :
    (runBefore query filled related).Tells surroundings
      (∃ insert ∈ related, insert.precedes = true ∧ fault insert) obstacle := by
  induction related generalizing filled with
  | nil =>
    rw [runBefore]
    exact Script.tells_done (by simp)
  | cons insert rest ih =>
    have hrest (filled : Query) := ih filled fun row column relation data hmem ↦
      each row column relation data (List.mem_cons_of_mem insert hmem)
    cases insert with
    | before row column relation data =>
      rw [runBefore_before]
      refine ((each row column relation data List.mem_cons_self).bind
        fun _ key _ _ ↦ hrest (filled.fillCell row column key)).of_iff ?_
      simp [RelatedInsert.precedes]
    | after row relation rows =>
      rw [runBefore]
      exact (hrest filled).of_iff (by simp [RelatedInsert.precedes])

/-- Inserting the rows behind tells the faults of each of them. -/
theorem tells_runAfter (result : RowSet) (each : ∀ row relation rows,
      .after row relation rows ∈ related →
        (query.insertAfter result row relation rows).Tells surroundings
          (fault (.after row relation rows)) obstacle) :
    (runAfter query result related).Tells surroundings
      (∃ insert ∈ related, insert.precedes = false ∧ fault insert) obstacle := by
  induction related with
  | nil =>
    rw [runAfter]
    exact Script.tells_done (by simp)
  | cons insert rest ih =>
    have hrest := ih fun row relation rows hmem ↦
      each row relation rows (List.mem_cons_of_mem insert hmem)
    cases insert with
    | before row column relation data =>
      rw [runAfter]
      exact hrest.of_iff (by simp [RelatedInsert.precedes])
    | after row relation rows =>
      rw [runAfter_after]
      refine ((each row relation rows List.mem_cons_self).bind fun _ _ _ _ ↦ hrest).of_iff ?_
      simp [RelatedInsert.precedes]

end

end Query

/-! ## Laid insertions -/

/-- The primary keys of the relations of a table are read as columns of their names, and those that
rows behind refer to are columns of the table. -/
def Table.Keyed (table : Table) : Prop :=
  ∀ relation ∈ table.relations, PlainName relation.primaryKey ∧
    (relation.kind ≠ .belongsTo → table.hasColumn relation.primaryKey)

/-- The keys of all relations in a catalog are columns as they have to be. -/
def Catalog.Keyed (catalog : Option Catalog) : Prop :=
  ∀ name table, Catalog.lookUp catalog name = some table → table.Keyed

namespace Query

/-- The keys that an insertion of some rows may need are columns as they have to be, and a row in
its place stands for a single one. -/
structure Unhindered (query : Query) (table : Table) (height : Nat) : Prop where
  own : table.Keyed
  catalog : Catalog.Keyed query.catalog
  alone : query.clauses.fallback.isSome → height = 1

/-- An insertion as it was planned, without fragments, that can be written. Unless there is an
obstacle, the keys of its table are columns and a row in its place would be a single one. -/
structure Laid (obstacle : Prop) (query : Query) (table : Table) (payloads : List Payload)
    (plan : RowPlan) : Prop where
  plans : query.Plans table payloads plan
  plain : ∀ payload ∈ payloads, payload.PlainThroughout
  nonempty : payloads ≠ []
  single : query.clauses.shape.expectsOne → payloads.length = 1
  writable : query.Writable
  keyed : ¬obstacle → table.Keyed
  alone : ¬obstacle → query.clauses.fallback.isSome → payloads.length = 1

variable {σ : Type} {surroundings : Script.Surroundings σ} {obstacle : Prop}
variable {query : Query} {table : Table} {payloads : List Payload} {plan : RowPlan}

/-- The answer to an insertion with filled cells is a full one. -/
theorem Answering.inFull (answering : Answering surroundings query) {filled : Query}
    {result : RowSet} {memory ended : σ} (fills : query.Filled filled)
    (answer : filled.Answered surroundings memory result ended) : filled.InFull result := by
  obtain ⟨sql, reply, hsql, hsend, hread⟩ := answer
  obtain ⟨other, _, hother, hfull, -⟩ := answering filled sql memory (.own fills) hsql
  cases hsend.symm.trans hother
  exact hfull.decoded hread

/-- What a laid insertion completes with was answered in full. -/
theorem Laid.full (h : query.Laid obstacle table payloads plan)
    (answering : Answering surroundings query) {memory ended : σ} {outcome : Outcome}
    (completes : Completes surroundings query memory outcome ended) : ∃ filled result,
      query.Filled filled ∧ filled.InFull result ∧ outcome = ⟨filled.outputOf result, none⟩ := by
  cases completes with
  | matching before answer =>
    have hfilled := filled_of_completesBefore before .refl
    exact ⟨_, _, hfilled, answering.inFull hfilled answer, rfl⟩
  | creating before answer replaced unmatched =>
    have hfilled := filled_of_completesBefore before .refl
    rw [h.plans.matchedRows hfilled (answering.inFull hfilled answer), List.length_eq_zero_iff]
      at unmatched
    exact absurd unmatched h.nonempty

/-- A related insertion of a laid one is for rows that its payloads ask for, under a relation of
its table. -/
theorem Laid.request (h : query.Laid obstacle table payloads plan) {related : RelatedInsert}
    (mem : related ∈ query.clauses.related) :
    related.request.relation ∈ table.relations ∧
      (∀ row ∈ related.request.rows, row.PlainThroughout) ∧
      related.Fits plan.columns payloads.length := by
  have hrequest : related.request ∈ table.requests payloads :=
    h.plans.requests ▸ List.mem_map_of_mem mem
  obtain ⟨index, payload, hpayload, pair, hpair, hasks⟩ := Table.mem_requests.1 hrequest
  refine ⟨?_, ?_, h.plans.insertedColumns ▸ h.plans.fits related mem⟩
  · obtain ⟨key, entry⟩ := pair
    cases entry with
    | value term => cases hasks
    | create data | createMany rows =>
      obtain ⟨relation, hrelation, hmade⟩ := Option.map_eq_some_iff.1 hasks
      rw [← hmade]
      exact List.mem_of_find?_eq_some hrelation
  · obtain ⟨-, hnested⟩ := h.plain payload (List.mem_of_getElem? hpayload)
    rw [Table.rows_request? hasks]
    exact hnested pair hpair

/-- The insertion of a row in front of a laid one is laid. -/
theorem Laid.before (h : query.Laid obstacle table payloads plan)
    (keyed : ¬obstacle → Catalog.Keyed query.catalog) {row column : Nat} {relation : Relation}
    {data : Payload} (mem : .before row column relation data ∈ query.clauses.related)
    {insertion : Query} (built : query.insertionBefore relation data = .ok insertion) :
    ∃ target inner, Catalog.lookUp query.catalog relation.table = some target ∧
      insertion.Laid obstacle target [data.onto .empty] inner ∧
      insertion.catalog = query.catalog := by
  obtain ⟨target, inner, hregistered, hplans, hfallback, hcatalog⟩ := plans_insertionBefore built
  have hplain : ∀ payload ∈ [data.onto .empty], payload.PlainThroughout := by
    obtain ⟨-, hrows, hkind, -⟩ := h.request mem
    have hgiven := Request.plain_given hrows .null
    rwa [Request.given_front _ (decide_eq_true hkind)] at hgiven
  have hwritable : insertion.Writable := by
    obtain ⟨_, _, reference, -, -, -, rfl⟩ := insertionBefore_eq_ok.1 built
    exact writable_of_plans hplans (fun payload hpayload ↦ (hplain payload hpayload).plain)
      (fun _ ↦ Nat.le_refl 1)
      (framed_of_plain rfl rfl rfl fun item hitem ↦ ⟨_, List.mem_singleton.1 hitem⟩)
  exact ⟨target, inner, hregistered, ⟨hplans, hplain, List.cons_ne_nil _ _, fun _ ↦ rfl, hwritable,
    fun hfree ↦ keyed hfree _ _ hregistered, fun _ _ ↦ rfl⟩, hcatalog⟩

/-- The insertion of rows behind a laid one is laid, whatever the key of their row. -/
theorem Laid.after (h : query.Laid obstacle table payloads plan)
    (keyed : ¬obstacle → Catalog.Keyed query.catalog) {row : Nat} {relation : Relation}
    {rows : List Payload} {key : Literal} (mem : .after row relation rows ∈ query.clauses.related)
    {insertion : Query} (built : query.insertionAfter relation rows key = .ok insertion) :
    ∃ target inner, Catalog.lookUp query.catalog relation.table = some target ∧
      insertion.Laid obstacle target
        (rows.map fun row ↦ (row.set relation.foreignKey (.literal key)).onto .empty) inner ∧
      insertion.catalog = query.catalog := by
  have hplain : ∀ payload ∈ rows.map fun row ↦
      (row.set relation.foreignKey (.literal key)).onto .empty, payload.PlainThroughout := by
    obtain ⟨-, hrows, hkind, -⟩ := h.request mem
    have hgiven := Request.plain_given hrows key
    rwa [Request.given_behind _ (decide_eq_false hkind)] at hgiven
  obtain ⟨target, inner, hregistered, hsome, hplan, hnarrow, rfl⟩ := insertionAfter_eq_ok.1 built
  have hplans : ((query.on target).planned inner true).count.Plans target
      (rows.map fun row ↦ (row.set relation.foreignKey (.literal key)).onto .empty) inner :=
    ⟨rfl, hplan, ⟨none, rfl⟩, rfl, rfl⟩
  have hwritable : ((query.on target).planned inner true).count.Writable := by
    refine writable_of_plans hplans (fun payload hpayload ↦ (hplain payload hpayload).plain)
      (fun hempty ↦ ?_) (framed_of_plain rfl rfl rfl (List.forall_mem_nil _))
    rw [List.length_map]
    exact Nat.le_of_not_lt fun hmany ↦ hnarrow ⟨hempty, hmany⟩
  exact ⟨target, inner, hregistered, ⟨hplans, hplain, by simpa using hsome,
    fun hone ↦ (by cases hone), hwritable, fun hfree ↦ keyed hfree _ _ hregistered,
    fun _ hsettled ↦ (by cases hsettled)⟩, rfl⟩

/-! ## Running -/

/-- A missing key of a returned row is no construction error. -/
theorem returnedKey_one_eq_error {relation : Relation} {row : Option Row} {error : Error}
    (h : returnedKey relation (.one row) = .error error) : error.isConstruction = false ∧
      row.bind (fun found ↦ found.get? relation.primaryKey) = none := by
  simp only [returnedKey, Output.record, bind, Except.bind] at h
  split at h
  · cases h
  · rename_i hnone
    cases h
    exact ⟨rfl, hnone⟩

/-- A missing key of the parent row is no construction error. -/
theorem parentKey_eq_error {result : RowSet} {row : Nat} {relation : Relation} {error : Error}
    (h : parentKey result row relation = .error error) :
    error.isConstruction = false ∧ result.key? row relation = none := by
  unfold parentKey at h
  split at h
  · cases h
  · rename_i hnone
    cases h
    exact ⟨rfl, hnone⟩

/-- Inserting a row in front tells whether it is admitted throughout, if its insertion does. -/
theorem Laid.tells_insertBefore (h : query.Laid obstacle table payloads plan)
    (keyed : ¬obstacle → Catalog.Keyed query.catalog) (answering : Answering surroundings query)
    {row column : Nat} {relation : Relation} {data : Payload}
    (mem : .before row column relation data ∈ query.clauses.related)
    (runs : ∀ insertion target inner, query.insertionBefore relation data = .ok insertion →
      insertion.Laid obstacle target [data.onto .empty] inner →
        insertion.catalog = query.catalog → insertion.runStatements.Tells surroundings
          (¬∀ request ∈ target.requests [data.onto .empty], request.Admitted query.catalog)
            obstacle) :
    (query.insertBefore relation data).Tells surroundings
      (¬(⟨row, relation, [data]⟩ : Request).Admitted query.catalog) obstacle := by
  obtain ⟨hrelation, -, hkind, hinside, -⟩ := h.request mem
  have hprecedes : (⟨row, relation, [data]⟩ : Request).precedes := decide_eq_true hkind
  have hgiven : (⟨row, relation, [data]⟩ : Request).given .null = [data.onto .empty] :=
    Request.given_front _ hprecedes .null
  unfold insertBefore
  cases hbuilt : query.insertionBefore relation data with
  | error error =>
    refine Script.tells_fail ?_
    rw [if_pos (constructs_insertionBefore _ _ _ error hbuilt)]
    rintro ⟨target, hregistered, hreadable, hrows⟩
    have hown := (Table.admitsThroughout_iff.1 (hrows .null)).1
    rw [hgiven] at hown
    obtain ⟨insertion, hother⟩ :=
      exists_insertionBefore.2 ⟨target, hregistered, hreadable hprecedes, hown⟩
    cases hbuilt.symm.trans hother
  | ok insertion =>
    obtain ⟨target, inner, hregistered, hlaid, hcatalog⟩ := h.before keyed mem hbuilt
    obtain ⟨other, hother, hreadable, hown⟩ := exists_insertionBefore.1 ⟨insertion, hbuilt⟩
    cases hother.symm.trans hregistered
    have hkey (memory : σ) (outcome : Outcome) (ended : σ)
        (hyields : insertion.runStatements.Yields surroundings memory outcome ended) :
        (Script.ofExcept (returnedKey relation outcome.output)).Tells surroundings False
          obstacle := by
      obtain ⟨filled, result, hfilled, hfull, rfl⟩ := hlaid.full (fun sent sql memory hissues ↦
        answering sent sql memory (.before mem hbuilt hissues)) ((yields_runStatements _).1 hyields)
      refine Script.tells_ofExcept fun error herror ↦ ?_
      rw [outputOf_insertionBefore hbuilt hfilled] at herror
      obtain ⟨hclass, hmissing⟩ := returnedKey_one_eq_error herror
      refine ⟨hclass, by_contra fun hfree ↦ ?_⟩
      have hrequested := mem_requested_insertionBefore hbuilt (h.keyed hfree relation hrelation).1
      rw [← hfilled.requested] at hrequested
      obtain ⟨key, hfound⟩ := hfull.key? (hfilled.rectangular hlaid.plans.rectangular)
        Nat.zero_lt_one hrequested
      rw [List.head?_eq_getElem?] at hmissing
      cases hfound.symm.trans hmissing
    refine ((runs insertion target inner hbuilt hlaid hcatalog).ahead hkey).of_iff ?_
    rw [← hgiven, ← Request.admitted_iff hregistered (fun _ ↦ hreadable) (hgiven.symm ▸ hown)]

/-- Inserting rows behind a row that came back tells whether they are admitted throughout, if their
insertion does. -/
theorem Laid.tells_insertAfter (h : query.Laid obstacle table payloads plan)
    (keyed : ¬obstacle → Catalog.Keyed query.catalog) {filled : Query} {result : RowSet}
    (fills : query.Filled filled) (full : filled.InFull result) {row : Nat} {relation : Relation}
    {rows : List Payload} (mem : .after row relation rows ∈ query.clauses.related)
    (runs : ∀ key insertion target inner, query.insertionAfter relation rows key = .ok insertion →
      insertion.Laid obstacle target
        (rows.map fun row ↦ (row.set relation.foreignKey (.literal key)).onto .empty) inner →
        insertion.catalog = query.catalog → insertion.runStatements.Tells surroundings
          (¬∀ request ∈ target.requests
            (rows.map fun row ↦ (row.set relation.foreignKey (.literal key)).onto .empty),
              request.Admitted query.catalog) obstacle) :
    (query.insertAfter result row relation rows).Tells surroundings
      (¬(⟨row, relation, rows⟩ : Request).Admitted query.catalog) obstacle := by
  obtain ⟨hrelation, -, hkind, hinside⟩ := h.request mem
  have hbehind : (⟨row, relation, rows⟩ : Request).precedes = false := decide_eq_false hkind
  have hgiven := Request.given_behind ⟨row, relation, rows⟩ hbehind
  have hfound : (Script.ofExcept (parentKey result row relation)).Tells surroundings False
      obstacle := by
    refine Script.tells_ofExcept fun error herror ↦ ?_
    obtain ⟨hclass, hmissing⟩ := parentKey_eq_error herror
    refine ⟨hclass, by_contra fun hfree ↦ ?_⟩
    have hrequested := h.plans.mem_requested mem ((h.keyed hfree relation hrelation).2 hkind)
    rw [← fills.requested] at hrequested
    obtain ⟨key, hkey⟩ := full.key? (fills.rectangular h.plans.rectangular) hinside hrequested
    cases hkey.symm.trans hmissing
  refine hfound.behind fun _ key _ _ ↦ ?_
  cases hbuilt : query.insertionAfter relation rows key with
  | error error =>
    refine Script.tells_fail ?_
    rw [if_pos (constructs_insertionAfter _ _ _ _ error hbuilt)]
    rintro ⟨target, hregistered, -, hrows⟩
    have hown := (Table.admitsThroughout_iff.1 (hrows key)).1
    rw [hgiven] at hown
    obtain ⟨insertion, hother⟩ := exists_insertionAfter.2 ⟨target, hregistered, hown⟩
    cases hbuilt.symm.trans hother
  | ok insertion =>
    obtain ⟨target, inner, hregistered, hlaid, hcatalog⟩ := h.after keyed mem hbuilt
    obtain ⟨other, hother, hown⟩ := exists_insertionAfter.1 ⟨insertion, hbuilt⟩
    cases hother.symm.trans hregistered
    refine ((runs key insertion target inner hbuilt hlaid hcatalog).ahead fun _ _ _ _ ↦
      Script.tells_done not_false).of_iff ?_
    rw [← hgiven, ← Request.admitted_iff hregistered
      (fun hprecedes ↦ absurd hprecedes (by simp [hbehind])) ((hgiven key).symm ▸ hown)]

/-- The own statement of a laid insertion is sent without a fault. -/
theorem Laid.tells_sendStatement (h : query.Laid obstacle table payloads plan)
    (answering : Answering surroundings query) {filled : Query} (fills : query.Filled filled) :
    filled.sendStatement.Tells surroundings False obstacle := by
  obtain ⟨conflict, hverb⟩ := h.plans.verb
  obtain ⟨sql, hsql⟩ := h.writable.filled hverb fills
  refine Script.tells_of_yields fun memory ↦ ?_
  obtain ⟨reply, ended, hsend, -, result, hread⟩ := answering filled sql memory (.own fills) hsql
  exact ⟨result, ended, (yields_sendStatement _).2 ⟨sql, reply, hsql, hsend, hread⟩⟩

/-- Behind a full answer only the rows behind have faults to tell. -/
theorem Laid.tells_proceed (h : query.Laid obstacle table payloads plan) {filled : Query}
    {result : RowSet} (fills : query.Filled filled) (full : filled.InFull result) {fault : Prop}
    (after : (runAfter query result query.clauses.related).Tells surroundings fault obstacle) :
    (query.proceed filled result).Tells surroundings fault obstacle := by
  have hfinish : (query.finish filled result).Tells surroundings fault obstacle := by
    rw [finish, h.plans.checkRowCount h.nonempty h.single fills full]
    exact after.ahead fun _ _ _ _ ↦ Script.tells_done not_false
  have hmatched := h.plans.matchedRows fills full
  have hsome : payloads.length ≠ 0 := by
    rw [ne_eq, List.length_eq_zero_iff]
    exact h.nonempty
  unfold proceed
  split
  · exact hfinish
  · rename_i fallback hfallback
    split
    · rename_i hmany
      have hobstacle : obstacle := by_contra fun hfree ↦ by
        have hone := h.alone hfree (by simp [hfallback])
        omega
      exact Script.tells_fail hobstacle
    · split
      · rename_i hnone
        exact absurd (hmatched.symm.trans hnone) hsome
      · exact hfinish

/-- Running a laid insertion tells whether what its rows ask for is admitted throughout. -/
theorem tells_runStatements {query : Query} {table : Table} {payloads : List Payload}
    {plan : RowPlan} (laid : query.Laid obstacle table payloads plan)
    (keyed : ¬obstacle → Catalog.Keyed query.catalog)
    (answering : Answering surroundings query) :
    query.runStatements.Tells surroundings
      (¬∀ request ∈ table.requests payloads, request.Admitted query.catalog) obstacle := by
  -- The insertions of inner rows are told about by the theorem itself: each asks for fewer writes
  -- than the query does.
  have hbefore : (runBefore query query query.clauses.related).Tells surroundings
      (∃ insert ∈ query.clauses.related, insert.precedes = true ∧
        ¬insert.request.Admitted query.catalog) obstacle := by
    refine tells_runBefore query fun row column relation data hmem ↦ ?_
    refine laid.tells_insertBefore keyed answering hmem
      fun insertion target inner hbuilt hlaid hcatalog ↦ ?_
    have hsmaller := pendingWrites_before_lt hmem hbuilt
    have hruns := tells_runStatements hlaid (hcatalog ▸ keyed) fun sent sql memory hissues ↦
      answering sent sql memory (.before hmem hbuilt hissues)
    rwa [hcatalog] at hruns
  have hafter {filled : Query} {result : RowSet} (fills : query.Filled filled)
      (full : filled.InFull result) :
      (runAfter query result query.clauses.related).Tells surroundings
        (∃ insert ∈ query.clauses.related, insert.precedes = false ∧
          ¬insert.request.Admitted query.catalog) obstacle := by
    refine tells_runAfter result fun row relation rows hmem ↦ ?_
    refine laid.tells_insertAfter keyed fills full hmem
      fun key insertion target inner hbuilt hlaid hcatalog ↦ ?_
    have hsmaller := pendingWrites_after_lt hmem hbuilt
    have hruns := tells_runStatements hlaid (hcatalog ▸ keyed) fun sent sql memory hissues ↦
      answering sent sql memory (.after hmem hbuilt hissues)
    rwa [hcatalog] at hruns
  have hrelated : (∃ insert ∈ query.clauses.related, insert.precedes = true ∧
        ¬insert.request.Admitted query.catalog) ∨
      (∃ insert ∈ query.clauses.related, insert.precedes = false ∧
        ¬insert.request.Admitted query.catalog) ↔
      ¬∀ request ∈ table.requests payloads, request.Admitted query.catalog := by
    rw [← laid.plans.requests, List.forall_mem_map, ← exists_or]
    simp only [← and_or_left, ← or_and_right, Bool.eq_false_or_eq_true, true_and, not_forall,
      exists_prop]
  rw [runStatements_eq]
  refine (hbefore.bind fun start filled between hyields ↦ ?_).of_iff hrelated
  have hfilled : query.Filled filled :=
    filled_of_completesBefore ((yields_runBefore _ _ _).1 hyields) .refl
  exact (laid.tells_sendStatement answering hfilled).behind fun _ result _ hanswer ↦
    laid.tells_proceed hfilled (answering.inFull hfilled ((yields_sendStatement _).1 hanswer))
      (hafter hfilled (answering.inFull hfilled ((yields_sendStatement _).1 hanswer)))
termination_by query.pendingWrites

/-! ## Executing -/

/-- In a scope that can be opened and left, a query ends as its statements do. -/
theorem result_runWithin (query : Query) (scope : Scope) (controls : Controls surroundings)
    (memory : σ) :
    ∃ opened, ((query.runWithin scope).run surroundings memory).result =
      (query.runStatements.run surroundings opened).result := by
  obtain ⟨hopening, hclosing, hundoing⟩ := scope.controlsTransaction
  obtain ⟨rows, opened, hopen⟩ := controls memory scope.opening hopening
  refine ⟨opened, (runWithin_opened hopen).2.trans ?_⟩
  cases (query.runStatements.run surroundings opened).result with
  | ok outcome =>
    obtain ⟨rest, ended, hclose⟩ :=
      controls (query.runStatements.run surroundings opened).memory scope.closing hclosing
    rw [leave, result_send_bind, hclose]
    rfl
  | error error =>
    obtain ⟨rest, ended, hundone⟩ :=
      controls (query.runStatements.run surroundings opened).memory scope.undoing hundoing
    rw [leave, result_send_bind, hundone]
    rfl

/-- Where a query can open the scope that it needs, it tells the faults of its statements. -/
theorem tells_runBetween {session : Session} {fault : Prop} (controls : Controls surroundings)
    (opens : session.inTransaction ∨ session.exclusive)
    (runs : query.runStatements.Tells surroundings fault obstacle) :
    (query.runBetween session).Tells surroundings fault obstacle := by
  obtain ⟨scope, hscope⟩ := exists_scope opens
  cases marked : query.clauses.inTransaction with
  | false =>
    rw [runBetween_alone marked]
    exact runs
  | true =>
    rw [runBetween_scoped marked hscope]
    intro memory
    obtain ⟨opened, hresult⟩ := query.result_runWithin scope controls memory
    exact hresult ▸ runs opened

/-- Executing a laid insertion without hooks tells whether what its rows ask for is admitted
throughout. -/
theorem Laid.tells_exec (h : query.Laid obstacle table payloads plan)
    (keyed : ¬obstacle → Catalog.Keyed query.catalog) (unhooked : query.clauses.hooks = .none)
    {session : Session} (opens : session.inTransaction ∨ session.exclusive)
    (obliging : query.Obliging surroundings) :
    (query.exec session).Tells surroundings
      (¬∀ request ∈ table.requests payloads, request.Admitted query.catalog) obstacle := by
  have hruns := tells_runBetween obliging.controls opens
    (tells_runStatements h keyed obliging.answers)
  rw [exec_eq, hooksBefore_eq_nil unhooked]
  refine hruns.ahead fun memory outcome ended hyields ↦ ?_
  obtain ⟨start, body, closed, hplays, -⟩ :=
    exists_plays_of_between surroundings ⟨hyields, rfl⟩
  obtain ⟨filled, result, -, -, rfl⟩ :=
    h.full obliging.answers ((yields_runStatements _).1 hplays.1)
  simp only [Option.getD_none, hooksAfter_eq_nil unhooked]
  exact Script.tells_done not_false

/-- Where its statements never complete, a query that needs a scope opens it and undoes it. -/
theorem statements_undone {session : Session} {scope : Scope}
    (marked : query.clauses.inTransaction = true) (allowed : Scope.ofSession session = .ok scope)
    (controls : Controls surroundings) (unhooked : query.clauses.hooks = .none)
    (failing : ∀ memory outcome ended, ¬Completes surroundings query memory outcome ended)
    (memory : σ) : ∃ body, ((query.exec session).run surroundings memory).statements =
      scope.opening :: (body ++ [scope.undoing]) := by
  cases @bracketed_exec _ surroundings _ _ _ marked allowed memory with
  | refused refused =>
    rw [hooksBefore_eq_nil unhooked] at refused
    exact absurd rfl (refused memory)
  | @unopened ready _ _ _ opening =>
    obtain ⟨rows, _, hopen⟩ := controls ready scope.opening (scope.controlsTransaction).1
    cases opening.symm.trans hopen
  | @left _ _ _ body last _ _ statements _ leaves closes =>
    have hundone : last = scope.undoing := leaves.resolve_left fun hclosing ↦ by
      obtain ⟨outcome, ended, hcompletes⟩ := closes.1 hclosing
      exact failing _ outcome ended hcompletes
    exact ⟨body, hundone ▸ statements⟩

/-- An insertion of rows without fragments is laid, with what may hinder it as an obstacle. -/
theorem Starts.laid {base : Query} {table : Table} {rows : List Payload}
    (starts : base.Starts rows query) (target : base.clauses.table = some table)
    (framed : query.Framed) (plain : ∀ row ∈ base.overlaid rows, row.PlainThroughout) :
    ∃ plan, query.Laid (¬query.Unhindered table rows.length) table (base.overlaid rows) plan ∧
      query.catalog = base.catalog ∧ query.clauses.hooks = base.clauses.hooks ∧
      (plan.related ≠ [] → query.clauses.inTransaction = true) := by
  have hlength : (base.overlaid rows).length = rows.length := List.length_map _
  have hsingle := starts.single
  obtain ⟨hsome, _, plan, many, htarget, hplan, hnarrow, -, rfl⟩ := starts.exists_planned
  cases target.symm.trans htarget
  have hplans := plans_planned many target hplan
  refine ⟨plan, ⟨hplans, plain, ?_, ?_, ?_, fun hfree ↦ (not_not.1 hfree).own, ?_⟩, rfl, rfl,
    fun hrelated ↦ ?_⟩
  · simpa [overlaid] using hsome
  · rwa [hlength]
  · exact writable_of_plans hplans (fun payload hpayload ↦ (plain payload hpayload).plain)
      (fun hempty ↦ hlength.symm ▸ hnarrow hempty) framed
  · rw [hlength]
    exact fun hfree ↦ (not_not.1 hfree).alone
  · simp [planned, modify, hrelated]

/-- The methods that insert rows report what is amiss with these, and nothing that is amiss with
rows inside of them. Executed in surroundings that oblige it, an insertion of rows without fragments
comes to an output only if its rows are admitted throughout, and to a construction error only if
they are not; this error comes behind the opening of a scope, which is undone. It fails otherwise
only if a key of some relation is not a column as it has to be, or a single row stands in the place
of several. -/
theorem exec_admitted {base : Query} {table : Table} {rows : List Payload}
    (target : base.clauses.table = some table) :
    ((∃ query, base.Starts rows query) ↔ base.clauses.verb = .select ∧
      table.AdmitsRows base.catalog.isSome (base.overlaid rows)) ∧
    ∀ (query : Query) (session : Session) (memory : σ), base.Starts rows query →
      base.clauses.hooks = .none → query.Framed →
      (∀ row ∈ base.overlaid rows, row.PlainThroughout) →
      (session.inTransaction ∨ session.exclusive) → query.Obliging surroundings →
      (∀ output, ((query.exec session).run surroundings memory).result = .ok output →
        table.AdmitsThroughout base.catalog (base.overlaid rows)) ∧
      (∀ error, ((query.exec session).run surroundings memory).result = .error error →
        error.isConstruction →
          ¬table.AdmitsThroughout base.catalog (base.overlaid rows) ∧
          ∃ scope body, Scope.ofSession session = .ok scope ∧
            ((query.exec session).run surroundings memory).statements =
              scope.opening :: (body ++ [scope.undoing])) ∧
      (∀ error, ((query.exec session).run surroundings memory).result = .error error →
        error.isConstruction = false → ¬query.Unhindered table rows.length) := by
  refine ⟨exists_starts target, ?_⟩
  intro query session memory starts unhooked framed plain opens obliging
  obtain ⟨plan, hlaid, hcatalog, hhooks, hmarked⟩ := starts.laid target framed plain
  have hthroughout : table.AdmitsThroughout base.catalog (base.overlaid rows) ↔
      ∀ request ∈ table.requests (base.overlaid rows), request.Admitted query.catalog := by
    rw [Table.admitsThroughout_iff, hcatalog]
    exact and_iff_right ((exists_starts target).1 ⟨query, starts⟩).2
  have hunhooked := hhooks.trans unhooked
  have hkeyed (hfree : ¬¬query.Unhindered table rows.length) : Catalog.Keyed query.catalog :=
    (not_not.1 hfree).catalog
  have hplayed := hlaid.tells_exec hkeyed hunhooked opens obliging memory
  refine ⟨fun output houtput ↦ ?_, fun error herror hconstruction ↦ ?_,
    fun error herror hother ↦ ?_⟩
  · rw [houtput] at hplayed
    exact hthroughout.2 (not_not.1 hplayed)
  · rw [herror] at hplayed
    have hfault := (if_pos hconstruction).mp hplayed
    -- The rows themselves are admitted, so the fault lies with rows that they ask for, and these
    -- are why the query is run in a scope.
    have hrelated : plan.related ≠ [] := fun hnone ↦ hfault fun request hrequest ↦ by
      rw [← RowPlan.requests_related hlaid.plans.planned, hnone] at hrequest
      cases hrequest
    have hruns := tells_runStatements hlaid hkeyed obliging.answers
    obtain ⟨scope, hscope⟩ := exists_scope opens
    obtain ⟨body, hbody⟩ := statements_undone (hmarked hrelated) hscope obliging.controls hunhooked
      (fun _ _ _ hcompletes ↦ hruns.not_fault ((yields_runStatements _).2 hcompletes) hfault) memory
    exact ⟨fun h ↦ hfault (hthroughout.1 h), scope, body, hscope, hbody⟩
  · rw [herror] at hplayed
    exact (if_neg (by simp [hother])).mp hplayed

/-- A post with a new author and a comment is admitted throughout, so that posting it comes to no
construction error. -/
theorem exec_admitted_article :
    Blog.posts.insert Blog.article = .ok (Blog.posts.planned Blog.plan false) ∧
      Blog.post.AdmitsThroughout Blog.posts.catalog [Blog.article] ∧
      (Blog.posts.planned Blog.plan false).Obliging Blog.clerk ∧
      ∀ error, (((Blog.posts.planned Blog.plan false).exec ⟨false, true⟩).run Blog.clerk 1).result =
        .error error → error.isConstruction = false := by
  have hstarts : Blog.posts.Starts [Blog.article] (Blog.posts.planned Blog.plan false) :=
    .insert rfl
  obtain ⟨haccepted, hexec⟩ :=
    @exec_admitted _ Blog.clerk Blog.posts Blog.post [Blog.article] rfl
  have hwell : ∀ payload ∈ [Blog.article], payload.WellFormed Blog.posts.catalog Blog.post :=
    fun payload hpayload ↦ List.mem_singleton.1 hpayload ▸ Blog.wellFormed_article
  have hown : Blog.post.AdmitsRows Blog.posts.catalog.isSome [Blog.article] :=
    (haccepted.1 ⟨_, hstarts⟩).2
  have hthroughout := hown.throughout hwell
  obtain ⟨-, hconstruction, -⟩ := hexec _ ⟨false, true⟩ 1 hstarts rfl
    (hstarts.framed rfl (List.forall_mem_nil _))
    (fun row hrow ↦ List.mem_singleton.1 hrow ▸ Blog.wellFormed_article.plainThroughout)
    (.inr rfl) Blog.obliging_clerk
  refine ⟨rfl, hthroughout, Blog.obliging_clerk, fun error herror ↦ ?_⟩
  by_contra hother
  exact (hconstruction error herror (by simpa using hother)).1 hthroughout

end Query

namespace Blog

/-- A post that asks for a row under a relation that posts do not have. -/
def stray : Payload :=
  (text "title" "Rivers").put "reviews" (.create (text "body" "Deep"))

def newcomer : Payload := (text "name" "Ada").put "posts" (.create stray)

def registration : Query :=
  users.planned ⟨[[.cell "name" (.literal (.text "Ada")), .after posted [stray]]]⟩ false

theorem plainThroughout_text (key content : String) : (text key content).PlainThroughout := by
  refine ⟨fun pair hpair fragment ↦ ?_, fun pair hpair row hrow ↦ ?_⟩
  · rw [List.mem_singleton.1 hpair]
    nofun
  · rw [List.mem_singleton.1 hpair] at hrow
    cases hrow

/-- A text with a row inside holds no fragment if the row does not. -/
theorem plainThroughout_create {key content name : String} {data : Payload}
    (h : data.PlainThroughout) :
    ((text key content).put name (.create data)).PlainThroughout := by
  obtain ⟨hown, hnested⟩ := plainThroughout_text key content
  refine ⟨fun pair hpair ↦ ?_, fun pair hpair ↦ ?_⟩
  · rcases Payload.mem_entries_put hpair with rfl | hpair
    · nofun
    · exact hown pair hpair
  · rcases Payload.mem_entries_put hpair with rfl | hpair
    · exact fun row hrow ↦ List.mem_singleton.1 hrow ▸ h
    · exact hnested pair hpair

theorem refused_stray (key : Literal) :
    registration.insertionAfter posted [stray] key = .error (.unknownRelation "post" "reviews") :=
  rfl

/-- The clerk answers the statement of the user. That of the post is never built. -/
theorem obliging_registration : registration.Obliging clerk := by
  refine ⟨fun key sql hcontrol ↦ ⟨_, _, if_pos hcontrol⟩, fun sent sql key hissues hsql ↦ ?_⟩
  cases hissues with
  | own filled =>
    have hplans : registration.Plans user [newcomer] _ := Query.plans_planned false rfl rfl
    exact clerk_answers hplans filled (by decide) hsql key
  | before asked => exact absurd (List.mem_singleton.1 asked) nofun
  | after asked built =>
    cases List.mem_singleton.1 asked
    cases (refused_stray _).symm.trans built

/-- The statement of the user is sent, and then the post is refused. -/
theorem runStatements_registration :
    registration.runStatements = registration.sendStatement.bind fun result =>
      (Script.ofExcept (registration.checkRowCount (registration.matchedRows result))).bind
        fun () => (Script.ofExcept (Query.parentKey result 0 posted)).bind
        fun _ => .fail (.unknownRelation "post" "reviews") := by
  have hrelated : registration.clauses.related = [.after 0 posted [stray]] := rfl
  have hfallback : registration.clauses.fallback = none := rfl
  rw [Query.runStatements_eq, hrelated, Query.runBefore, Query.runBefore]
  refine congrArg registration.sendStatement.bind (funext fun result ↦ ?_)
  simp only [Query.proceed, hfallback, Query.finish, hrelated, Query.runAfter_after,
    Query.insertAfter, refused_stray, Script.bind_bind]
  rfl

end Blog

namespace Query

/-- Nothing is said about the post when the user is inserted. It is found out behind the statement
of the user. -/
theorem exec_registration :
    Blog.users.insert Blog.newcomer = .ok Blog.registration ∧
      Blog.newcomer.PlainThroughout ∧ Blog.registration.clauses.hooks = .none ∧
      Blog.registration.Obliging Blog.clerk ∧
      ((Blog.registration.exec ⟨false, true⟩).run Blog.clerk 1).result =
        .error (.unknownRelation "post" "reviews") ∧
      (Error.unknownRelation "post" "reviews").isConstruction ∧
      ((Blog.registration.exec ⟨false, true⟩).run Blog.clerk 1).statements =
        ["BEGIN", "INSERT INTO \"user\"(\"name\") VALUES ($1) RETURNING *", "ROLLBACK"] := by
  have hexec : Blog.registration.exec ⟨false, true⟩ =
      (Blog.registration.runWithin .transaction).bind fun outcome =>
      (Script.callAll ((outcome.created.getD Blog.registration).hooksAfter outcome.output)).bind
        fun _ => .done outcome.output := by
    have hmarked : Blog.registration.clauses.inTransaction = true := rfl
    rw [exec_eq, runBetween_scoped hmarked rfl]
    rfl
  rw [hexec, runWithin, Blog.runStatements_registration]
  exact ⟨rfl, Blog.plainThroughout_create (Blog.plainThroughout_create
    (Blog.plainThroughout_text _ _)), rfl, Blog.obliging_registration, rfl, rfl, rfl⟩

end Query

end SqlComposer
