import SqlComposer.Proofs.Nested.AdmittedRows

/-!
# Insertions that are answered in full

Surroundings oblige an insertion if they answer every statement that it may come to: those that
control its transaction succeed, and each insertion gets back one row for every row that it inserts,
with all columns that were requested. An insertion of well-formed payloads then runs to its end. It
sends one statement for its rows and one for each entry that asks for rows, those in front of the
rows that refer to them and those behind the rows that they refer to, and the keys that were handed
back are filled in.
-/

namespace SqlComposer

/-! ## Answers -/

/-- Reading the values of a row as the types of a table keeps its columns. -/
theorem Row.exists_get?_of_decodeText {table : Table} {row read : Row} {column : String}
    (h : row.decodeText table = .ok read) (found : ∃ value, row.get? column = some value) :
    ∃ value, read.get? column = some value := by
  obtain ⟨values, hvalues, hread⟩ := bind_eq_ok.1 h
  cases hread
  have hlength := (forall₂_of_mapM hvalues).length_eq
  obtain ⟨value, hvalue⟩ := found
  unfold Row.get? at hvalue ⊢
  split at hvalue
  · rename_i hcolumn
    have hwidth := (List.getElem?_eq_some_iff.1 hvalue).1
    have hinside : row.columns.idxOf column < values.length := by
      rw [← hlength, List.length_zip]
      exact Nat.lt_min.2 ⟨List.idxOf_lt_length_of_mem hcolumn, hwidth⟩
    exact ⟨_, by rw [if_pos hcolumn]; exact List.getElem?_eq_getElem hinside⟩
  · cases hvalue

namespace Query

/-- The columns that an insertion asks to get back. -/
def requested (query : Query) : List String :=
  let clauses := query.clauses
  if clauses.selection.isEmpty && (clauses.selectsAll || clauses.shape.returnsRows) then
    (clauses.table.map fun table ↦ table.columns.map Column.name).getD []
  else clauses.selection.filterMap SelectItem.outputName? ++ clauses.readBack

/-- A result has one row for each row that an insertion inserts, with the columns that it requests.
-/
structure InFull (query : Query) (result : RowSet) : Prop where
  counted : result.rowCount = query.insertedRows.length
  returned : query.requested ≠ [] → result.rows.length = query.insertedRows.length
  carried : ∀ row ∈ result.rows, ∀ column ∈ query.requested, ∃ value, row.get? column = some value

/-- The insertions that running an insertion may come to: itself with filled cells, and those of its
related rows with any keys. -/
inductive Issues : Query → Query → Prop
  | own {query sent : Query} (filled : query.Filled sent) : Issues query sent
  | before {query insertion sent : Query} {row column : Nat} {relation : Relation} {data : Payload}
      (asked : .before row column relation data ∈ query.clauses.related)
      (built : query.insertionBefore relation data = .ok insertion)
      (inner : Issues insertion sent) : Issues query sent
  | after {query insertion sent : Query} {row : Nat} {relation : Relation} {rows : List Payload}
      {key : Literal} (asked : .after row relation rows ∈ query.clauses.related)
      (built : query.insertionAfter relation rows key = .ok insertion)
      (inner : Issues insertion sent) : Issues query sent

variable {σ : Type}

/-- Every insertion that a query may come to is answered in full, by values that can be read. -/
def Answering (surroundings : Script.Surroundings σ) (query : Query) : Prop :=
  ∀ sent sql memory, query.Issues sent → sent.compile = .ok sql →
    ∃ reply ended, surroundings.send memory sql.text sql.values = (.ok reply, ended) ∧
      sent.InFull reply ∧ ∃ result, sent.decoded reply = .ok result

/-- Surroundings that answer every statement that a query may come to. -/
structure Obliging (surroundings : Script.Surroundings σ) (query : Query) : Prop where
  controls : Controls surroundings
  answers : Answering surroundings query

variable {query filled : Query} {reply result : RowSet}

theorem InFull.decoded (h : query.InFull reply) (read : query.decoded reply = .ok result) :
    query.InFull result := by
  unfold Query.decoded at read
  split at read
  · cases read
    exact h
  · rename_i table _
    obtain ⟨rows, hrows, hresult⟩ := bind_eq_ok.1 read
    cases hresult
    refine ⟨h.counted, fun hsome ↦ ?_, fun row hrow column hcolumn ↦ ?_⟩
    · exact (forall₂_of_mapM hrows).length_eq.symm.trans (h.returned hsome)
    · obtain ⟨before, hbefore, hread⟩ := exists_of_mem_results hrows hrow
      exact Row.exists_get?_of_decodeText hread (h.carried before hbefore column hcolumn)

theorem Filled.requested (h : query.Filled filled) : filled.requested = query.requested := by
  unfold Query.requested
  rw [h.clauses]

/-- The key of a row that was answered in full. -/
theorem InFull.key? {height row : Nat} (h : filled.InFull result)
    (rectangular : filled.Rectangular height) (inside : row < height) {relation : Relation}
    (asked : relation.primaryKey ∈ filled.requested) :
    ∃ key, result.key? row relation = some key := by
  have hlength : row < result.rows.length := by
    rwa [h.returned (List.ne_nil_of_mem asked), rectangular.height]
  obtain ⟨value, hvalue⟩ := h.carried _ (List.getElem_mem hlength) relation.primaryKey asked
  exact ⟨value, by rw [RowSet.key?, List.getElem?_eq_getElem hlength]; exact hvalue⟩

/-! ## Insertions that are ready -/

/-- An insertion of well-formed payloads that can be written and is allowed as many rows as it has.
-/
structure Ready (query : Query) (table : Table) (payloads : List Payload) (plan : RowPlan) :
    Prop where
  plans : query.Plans table payloads plan
  wellFormed : ∀ payload ∈ payloads, payload.WellFormed query.catalog table
  nonempty : payloads ≠ []
  single : query.clauses.shape.expectsOne ∨ query.clauses.fallback.isSome → payloads.length = 1
  writable : query.Writable

variable {table : Table} {payloads : List Payload} {plan : RowPlan}

/-- A full answer has a row for each payload. -/
theorem Plans.matchedRows (h : query.Plans table payloads plan) (fills : query.Filled filled)
    (full : filled.InFull result) : filled.matchedRows result = payloads.length := by
  have hrectangular := fills.rectangular h.rectangular
  obtain ⟨insertion, hverb⟩ := hrectangular.verb
  rw [Query.matchedRows, hverb, Verb.isMutation, if_pos rfl, full.counted, hrectangular.height]

/-- The number of rows of a full answer is one that the insertion allows. -/
theorem Plans.checkRowCount (h : query.Plans table payloads plan) (nonempty : payloads ≠ [])
    (single : query.clauses.shape.expectsOne → payloads.length = 1) (fills : query.Filled filled)
    (full : filled.InFull result) :
    filled.checkRowCount (filled.matchedRows result) = .ok () := by
  have hsome : payloads.length ≠ 0 := by
    rw [ne_eq, List.length_eq_zero_iff]
    exact nonempty
  have hshape : filled.clauses.shape = query.clauses.shape := by rw [fills.clauses]
  simp only [Query.checkRowCount, h.matchedRows fills full, hshape]
  split
  · rename_i hnone
    simp [hsome] at hnone
  · split
    · rename_i hmany
      simp only [Bool.and_eq_true, decide_eq_true_eq] at hmany
      have hone := single hmany.1.1
      omega
    · rfl

/-- A planned insertion requests the keys that rows behind it refer to. -/
theorem Plans.mem_requested (h : query.Plans table payloads plan) {row : Nat} {relation : Relation}
    {rows : List Payload} (mem : .after row relation rows ∈ query.clauses.related)
    (column : table.hasColumn relation.primaryKey) :
    relation.primaryKey ∈ query.requested := by
  unfold Query.requested
  dsimp only
  split
  · obtain ⟨found, hfound⟩ := Option.isSome_iff_exists.1 column
    have hname : found.name = relation.primaryKey := by simpa using List.find?_some hfound
    rw [h.target, Option.map_some, Option.getD_some, ← hname]
    exact List.mem_map_of_mem (List.mem_of_find?_eq_some hfound)
  · rw [h.related] at mem
    refine List.mem_append_right _ ?_
    rw [h.readBack]
    exact RowPlan.mem_readBack mem

/-- The insertion of a row in front requests its key. -/
theorem mem_requested_insertionBefore {insertion : Query} {relation : Relation} {data : Payload}
    (built : query.insertionBefore relation data = .ok insertion)
    (plain : PlainName relation.primaryKey) : relation.primaryKey ∈ insertion.requested := by
  obtain ⟨target, inner, reference, -, -, hreference, rfl⟩ := insertionBefore_eq_ok.1 built
  cases hreference.symm.trans plain.1
  have hname : (SelectItem.ofColumn (.unqualified relation.primaryKey) :
      SelectItem Statement).outputName? = some relation.primaryKey := by
    simp [SelectItem.outputName?, SelectItem.ofColumn, ColumnRef.isStar, ColumnRef.unqualified,
      plain.2]
  have hitems : (((query.on target).planned inner false).selectItems
      [.ofColumn (.unqualified relation.primaryKey)]).take.clauses.selection =
        [.ofColumn (.unqualified relation.primaryKey)] := rfl
  rw [requested, hitems]
  simp [hname]

/-- Well-formed payloads can be planned. -/
theorem exists_plan {catalog : Option Catalog}
    (h : ∀ payload ∈ payloads, payload.WellFormed catalog table) :
    ∃ plan, RowPlan.ofPayloads table catalog.isSome payloads = .ok plan :=
  RowPlan.exists_ofPayloads.2 fun payload hpayload ↦ (h payload hpayload).admits

/-- Each related row of a ready query is well formed and fits its plan. -/
theorem Ready.request (h : query.Ready table payloads plan) {related : RelatedInsert}
    (mem : related ∈ query.clauses.related) : ∃ target,
      related.request.WellFormed query.catalog table target ∧
        related.Fits plan.columns payloads.length := by
  have hrequest : related.request ∈ table.requests payloads :=
    h.plans.requests ▸ List.mem_map_of_mem mem
  obtain ⟨target, hwell⟩ := Table.wellFormed_requests h.wellFormed related.request hrequest
  exact ⟨target, hwell, h.plans.insertedColumns ▸ h.plans.fits related mem⟩

/-- The insertion of a row in front of a ready one is ready, and requests its key. -/
theorem Ready.before (h : query.Ready table payloads plan) {row column : Nat}
    {relation : Relation} {data : Payload}
    (mem : .before row column relation data ∈ query.clauses.related) :
    ∃ insertion target inner, query.insertionBefore relation data = .ok insertion ∧
      insertion.Ready target [data] inner ∧ relation.primaryKey ∈ insertion.requested ∧
      insertion.catalog = query.catalog := by
  obtain ⟨target, hwell, hkind, -⟩ := h.request mem
  obtain ⟨key, hlinks⟩ : ∃ key, Relation.Links query.catalog table key relation target :=
    hwell.links
  have hdata : data.WellFormed query.catalog target := hwell.rows data List.mem_cons_self
  obtain ⟨inner, hplanned⟩ := exists_plan (fun payload (hpayload : payload ∈ [data]) ↦
    List.mem_singleton.1 hpayload ▸ hdata)
  have hbuilt := insertionBefore_eq_ok.2
    ⟨target, inner, _, hlinks.registered, (Payload.onto_empty data).symm ▸ hplanned,
      hlinks.plain.2.1, rfl⟩
  have hplans : (((query.on target).planned inner false).selectItems
      [.ofColumn (.unqualified relation.primaryKey)]).take.Plans target [data] inner :=
    ⟨rfl, hplanned, ⟨none, rfl⟩, rfl, rfl⟩
  refine ⟨_, target, inner, hbuilt, ⟨hplans, ?_, List.cons_ne_nil data [], fun _ ↦ rfl, ?_⟩, ?_,
    rfl⟩
  · exact fun payload hpayload ↦ List.mem_singleton.1 hpayload ▸ hdata
  · exact writable_of_plans hplans (fun payload hpayload ↦
      List.mem_singleton.1 hpayload ▸ hdata.plain) (fun _ ↦ Nat.le_refl 1)
        (framed_of_plain rfl rfl rfl fun item hitem ↦ ⟨_, List.mem_singleton.1 hitem⟩)
  · exact mem_requested_insertionBefore hbuilt hlinks.plain.2

/-- The insertion of rows behind a ready one is ready, whatever the key of their row. -/
theorem Ready.after (h : query.Ready table payloads plan) {row : Nat} {relation : Relation}
    {rows : List Payload} (mem : .after row relation rows ∈ query.clauses.related)
    (key : Literal) :
    ∃ insertion target inner, query.insertionAfter relation rows key = .ok insertion ∧
      insertion.Ready target (rows.map fun row ↦ row.set relation.foreignKey (.literal key)) inner ∧
      insertion.catalog = query.catalog := by
  obtain ⟨target, hwell, hkind, -⟩ := h.request mem
  obtain ⟨name, hlinks⟩ : ∃ name, Relation.Links query.catalog table name relation target :=
    hwell.links
  have hcolumn := (hlinks.columns_behind hkind).1
  have hrows : ∀ payload ∈ rows.map fun row ↦ row.set relation.foreignKey (.literal key),
      payload.WellFormed query.catalog target := by
    intro payload hpayload
    obtain ⟨row, hrow, rfl⟩ := List.mem_map.1 hpayload
    exact (hwell.rows row hrow).set hcolumn key
  have honto : (rows.map fun row ↦ (row.set relation.foreignKey (.literal key)).onto .empty) =
      rows.map fun row ↦ row.set relation.foreignKey (.literal key) :=
    List.map_congr_left fun row hrow ↦ Payload.onto_empty _
  obtain ⟨inner, hinner⟩ := exists_plan hrows
  obtain ⟨first, hfirst⟩ := List.exists_mem_of_ne_nil rows hwell.nonempty
  have hwide : ¬inner.columns.isEmpty := by
    rw [List.isEmpty_iff]
    exact (RowPlan.columns_ne_nil hinner).2 ⟨_, List.mem_map_of_mem hfirst,
      (relation.foreignKey, .value (.literal key)), Payload.mem_entries_set _ _ _,
      by simp [Table.Fills, Table.takesKey, hcolumn]⟩
  have hplanned : RowPlan.ofPayloads target query.catalog.isSome
      (rows.map fun row ↦ (row.set relation.foreignKey (.literal key)).onto .empty) =
        .ok inner := by
    rw [honto]
    exact hinner
  have hnonempty : rows ≠ [] := hwell.nonempty
  have hbuilt := insertionAfter_eq_ok.2
    ⟨target, inner, hlinks.registered, hnonempty, hplanned, fun h ↦ hwide h.1, rfl⟩
  have hplans : ((query.on target).planned inner true).count.Plans target
      (rows.map fun row ↦ row.set relation.foreignKey (.literal key)) inner :=
    ⟨rfl, hinner, ⟨none, rfl⟩, rfl, rfl⟩
  refine ⟨_, target, inner, hbuilt, ⟨hplans, hrows, ?_, ?_, ?_⟩, rfl⟩
  · simpa using hnonempty
  · rintro (hone | hfallback)
    · cases hone
    · cases hfallback
  · exact writable_of_plans hplans (fun payload hpayload ↦ (hrows payload hpayload).plain)
      (fun hempty ↦ absurd hempty hwide) (framed_of_plain rfl rfl rfl (List.forall_mem_nil _))

/-- A ready insertion requests the keys of the rows that others refer to. -/
theorem Ready.requested (h : query.Ready table payloads plan) {row : Nat} {relation : Relation}
    {rows : List Payload} (mem : .after row relation rows ∈ query.clauses.related) :
    relation.primaryKey ∈ query.requested ∧ row < payloads.length := by
  obtain ⟨target, hwell, hkind, hinside⟩ := h.request mem
  obtain ⟨name, hlinks⟩ : ∃ name, Relation.Links query.catalog table name relation target :=
    hwell.links
  exact ⟨h.plans.mem_requested mem (hlinks.columns_behind hkind).2, hinside⟩

/-! ## Running to the end -/

variable {surroundings : Script.Surroundings σ}

/-- The rows in front are inserted if each of their insertions completes and hands back a key. -/
theorem exists_completesBefore {related : List RelatedInsert}
    (h : ∀ row column relation data, .before row column relation data ∈ related →
      ∃ insertion, query.insertionBefore relation data = .ok insertion ∧
        ∀ memory, ∃ outcome key ended, Completes surroundings insertion memory outcome ended ∧
          returnedKey relation outcome.output = .ok key) (filled : Query) (memory : σ) :
    ∃ final ended, CompletesBefore surroundings query filled related memory final ended := by
  induction related generalizing filled memory with
  | nil => exact ⟨filled, memory, .nil⟩
  | cons insert rest ih =>
    have hrest := ih fun row column relation data hmem ↦
      h row column relation data (List.mem_cons_of_mem insert hmem)
    cases insert with
    | before row column relation data =>
      obtain ⟨insertion, hbuilt, hcompletes⟩ := h row column relation data List.mem_cons_self
      obtain ⟨outcome, key, between, hinsert, hhanded⟩ := hcompletes memory
      obtain ⟨final, ended, hothers⟩ := hrest (filled.fillCell row column key) between
      exact ⟨final, ended, .before hbuilt hinsert hhanded hothers⟩
    | after row relation rows =>
      obtain ⟨final, ended, hothers⟩ := hrest filled memory
      exact ⟨final, ended, .after hothers⟩

/-- The rows behind are inserted if their keys came back and each of their insertions completes. -/
theorem exists_completesAfter {related : List RelatedInsert} {result : RowSet}
    (h : ∀ row relation rows, .after row relation rows ∈ related →
      ∃ key insertion, parentKey result row relation = .ok key ∧
        query.insertionAfter relation rows key = .ok insertion ∧
        ∀ memory, ∃ outcome ended, Completes surroundings insertion memory outcome ended)
    (memory : σ) : ∃ ended, CompletesAfter surroundings query result related memory ended := by
  induction related generalizing memory with
  | nil => exact ⟨memory, .nil⟩
  | cons insert rest ih =>
    have hrest := ih fun row relation rows hmem ↦
      h row relation rows (List.mem_cons_of_mem insert hmem)
    cases insert with
    | before row column relation data =>
      obtain ⟨ended, hothers⟩ := hrest memory
      exact ⟨ended, .before hothers⟩
    | after row relation rows =>
      obtain ⟨key, insertion, hkey, hbuilt, hcompletes⟩ := h row relation rows List.mem_cons_self
      obtain ⟨outcome, between, hinsert⟩ := hcompletes memory
      obtain ⟨ended, hothers⟩ := hrest between
      exact ⟨ended, .after hkey hbuilt hinsert hothers⟩

/-- A related insertion asks for fewer insertions than all of them. -/
theorem writes_le_totalWrites {related : RelatedInsert} {all : List RelatedInsert}
    (mem : related ∈ all) : related.writes ≤ RelatedInsert.totalWrites all := by
  induction all with
  | nil => cases mem
  | cons first rest ih =>
    rw [RelatedInsert.totalWrites]
    rcases List.mem_cons.1 mem with rfl | mem
    · exact Nat.le_add_right _ _
    · exact Nat.le_trans (ih mem) (Nat.le_add_left _ _)

/-- The insertion of a row in front of a query asks for fewer insertions than the query. -/
theorem pendingWrites_before_lt {query insertion : Query} {row column : Nat}
    {relation : Relation} {data : Payload}
    (mem : .before row column relation data ∈ query.clauses.related)
    (built : query.insertionBefore relation data = .ok insertion) :
    insertion.pendingWrites < query.pendingWrites := by
  have hwrites := writes_le_totalWrites mem
  rw [RelatedInsert.writes] at hwrites
  have hinner := pendingWrites_insertionBefore_le built
  have hless := totalWrites_related_le query
  omega

/-- The insertion of rows behind a query asks for fewer insertions than the query. -/
theorem pendingWrites_after_lt {query insertion : Query} {row : Nat} {relation : Relation}
    {rows : List Payload} {key : Literal}
    (mem : .after row relation rows ∈ query.clauses.related)
    (built : query.insertionAfter relation rows key = .ok insertion) :
    insertion.pendingWrites < query.pendingWrites := by
  have hwrites := writes_le_totalWrites mem
  rw [RelatedInsert.writes] at hwrites
  have hinner := pendingWrites_insertionAfter_le built
  have hless := totalWrites_related_le query
  omega

/-- A ready insertion whose statements are answered in full runs to its end. -/
theorem exists_completes {query : Query} {table : Table} {payloads : List Payload} {plan : RowPlan}
    (ready : query.Ready table payloads plan) (answering : Answering surroundings query)
    (memory : σ) : ∃ filled result ended,
      Completes surroundings query memory ⟨filled.outputOf result, none⟩ ended ∧
        query.Filled filled ∧ filled.InFull result := by
  obtain ⟨filled, between, hbefore⟩ : ∃ filled between,
      CompletesBefore surroundings query query query.clauses.related memory filled between := by
    refine exists_completesBefore (fun row column relation data hmem ↦ ?_) query memory
    obtain ⟨insertion, target, inner, hbuilt, hready, hrequested, -⟩ := ready.before hmem
    have hsmaller := pendingWrites_before_lt hmem hbuilt
    refine ⟨insertion, hbuilt, fun memory ↦ ?_⟩
    obtain ⟨sent, result, ended, hcompletes, hfilled, hfull⟩ := exists_completes hready
      (fun sent sql memory hissues ↦ answering sent sql memory (.before hmem hbuilt hissues)) memory
    rw [← hfilled.requested] at hrequested
    obtain ⟨key, hkey⟩ := hfull.key? (hfilled.rectangular hready.plans.rectangular)
      Nat.zero_lt_one hrequested
    refine ⟨_, key, ended, hcompletes, ?_⟩
    rw [outputOf_insertionBefore hbuilt hfilled, returnedKey_one_eq_ok, List.head?_eq_getElem?]
    exact hkey
  have hfilled : query.Filled filled := filled_of_completesBefore hbefore .refl
  obtain ⟨conflict, hverb⟩ := ready.plans.verb
  obtain ⟨sql, hsql⟩ := ready.writable.filled hverb hfilled
  obtain ⟨reply, answered, hsend, hfull, result, hread⟩ := answering filled sql between
    (.own hfilled) hsql
  have hresult := hfull.decoded hread
  obtain ⟨ended, hafter⟩ : ∃ ended,
      CompletesAfter surroundings query result query.clauses.related answered ended := by
    refine exists_completesAfter (fun row relation rows hmem ↦ ?_) answered
    obtain ⟨hrequested, hinside⟩ := ready.requested hmem
    rw [← hfilled.requested] at hrequested
    obtain ⟨key, hkey⟩ := hresult.key? (hfilled.rectangular ready.plans.rectangular) hinside
      hrequested
    obtain ⟨insertion, target, inner, hbuilt, hready, -⟩ := ready.after hmem key
    have hsmaller := pendingWrites_after_lt hmem hbuilt
    refine ⟨key, insertion, parentKey_eq_ok.2 hkey, hbuilt, fun memory ↦ ?_⟩
    obtain ⟨sent, result, ended, hcompletes, -⟩ := exists_completes hready
      (fun sent sql memory hissues ↦ answering sent sql memory (.after hmem hbuilt hissues)) memory
    exact ⟨_, ended, hcompletes⟩
  have hown (hfallback : query.clauses.fallback.isSome) : filled.matchedRows result = 1 :=
    (ready.plans.matchedRows hfilled hresult).trans (ready.single (.inr hfallback))
  exact ⟨filled, result, ended, .matching hbefore ⟨sql, reply, hsql, hsend, hread⟩
    (ready.plans.checkRowCount ready.nonempty (fun hone ↦ ready.single (.inl hone)) hfilled hresult)
    hown hafter, hfilled, hresult⟩
termination_by query.pendingWrites

end Query

/-! ## A catalog of posts -/

namespace Blog

def user : Table :=
  { Table.named "user" with
    columns := [.plain "id" .integer, .plain "name" .text]
    relations := [⟨"posts", .hasMany, "post", "authorId", "id"⟩] }

def author : Relation := ⟨"author", .belongsTo, "user", "authorId", "id"⟩

def comments : Relation := ⟨"comments", .hasMany, "comment", "postId", "id"⟩

def posted : Relation := ⟨"posts", .hasMany, "post", "authorId", "id"⟩

def post : Table :=
  { Table.named "post" with
    columns := [.plain "id" .integer, .plain "title" .text, .plain "authorId" .integer]
    relations := [author, comments] }

def comment : Table :=
  { Table.named "comment" with
    columns := [.plain "id" .integer, .plain "body" .text, .plain "postId" .integer] }

def catalog : Catalog := ⟨[user, post, comment]⟩

def posts : Query := ⟨.ofTable post, some catalog, none⟩

def users : Query := ⟨.ofTable user, some catalog, none⟩

def text (key content : String) : Payload := Payload.empty.set key (.literal (.text content))

def article : Payload :=
  ((text "title" "Rivers").put "author" (.create (text "name" "Ada"))).put "comments"
    (.createMany [text "body" "Deep"])

/-- The columns of the rows that come back. -/
def columns : List String := ["id", "name", "title", "authorId", "body", "postId"]

/-- A row that holds a key in all columns. -/
def row (key : Int) : Row := ⟨columns, columns.map fun _ ↦ .int key⟩

/-- Surroundings in which every insertion is answered by one row with the next key. -/
def clerk : Script.Surroundings Int where
  send key sql _ :=
    if ControlsTransaction sql then (.ok .empty, key) else (.ok ⟨1, [row key]⟩, key + 1)
  control key _ := (.ok (), key)
  call key _ := (.ok (), key)

theorem links_author : Relation.Links posts.catalog post "author" author user :=
  ⟨rfl, rfl, rfl, by decide, ⟨by decide +kernel, by decide⟩, by decide +kernel, by decide⟩

theorem links_comments : Relation.Links posts.catalog post "comments" comments comment :=
  ⟨rfl, rfl, rfl, by decide, ⟨by decide +kernel, by decide⟩, by decide +kernel, by decide⟩

theorem wellFormed_text (key content : String) (table : Table) :
    (text key content).WellFormed posts.catalog table := by
  have hentries : (text key content).entries = [(key, .value (.literal (.text content)))] :=
    Payload.entries_set ..
  rw [Payload.wellFormed_iff, hentries, List.forall_mem_singleton]
  exact ⟨List.nodup_nil, fun _ h ↦ (by cases h)⟩

theorem wellFormed_article : article.WellFormed posts.catalog post := by
  have hentries : article.entries =
      [("title", .value (.literal (.text "Rivers"))), ("author", .create (text "name" "Ada")),
        ("comments", .createMany [text "body" "Deep"])] := rfl
  rw [Payload.wellFormed_iff, hentries, List.forall_mem_cons, List.forall_mem_cons,
    List.forall_mem_singleton]
  exact ⟨List.nodup_singleton _, fun _ h ↦ (by cases h),
    ⟨_, _, links_author, wellFormed_text ..⟩,
    ⟨_, _, links_comments, rfl, List.cons_ne_nil _ _, wellFormed_text .., trivial⟩⟩

/-- An insertion of one row that requests known columns is answered in full. -/
theorem clerk_answers {query sent : Query} {table : Table} {payload : Payload} {plan : RowPlan}
    {sql : CompiledSql} (plans : query.Plans table [payload] plan) (filled : query.Filled sent)
    (known : ∀ column ∈ query.requested, column ∈ columns) (compiled : sent.compile = .ok sql)
    (key : Int) : ∃ reply ended, clerk.send key sql.text sql.values = (.ok reply, ended) ∧
      sent.InFull reply ∧ ∃ result, sent.decoded reply = .ok result := by
  have hheight := (filled.rectangular plans.rectangular).height
  refine ⟨_, _, if_neg (Query.not_controlsTransaction_compile compiled),
    ⟨hheight.symm, fun _ ↦ hheight.symm, ?_⟩, ?_⟩
  · intro found hfound column hcolumn
    cases List.mem_singleton.1 hfound
    rw [filled.requested] at hcolumn
    have hknown : column ∈ (row key).columns := known column hcolumn
    refine ⟨.int key, ?_⟩
    rw [Row.get?, if_pos hknown]
    exact List.getElem?_eq_some_iff.2 ⟨List.idxOf_lt_length_of_mem hknown, by simp [row]⟩
  · have hread (table : Table) (column : String) :
        table.decodeText column (.int key) = .ok (.int key) := by
      unfold Table.decodeText
      split <;> simp_all
    unfold Query.decoded
    split
    · exact ⟨_, rfl⟩
    · simp [Row.decodeText, row, columns, hread, bind, Except.bind, pure, Except.pure]

theorem filled_of_issues {query sent : Query} (h : query.Issues sent)
    (alone : query.clauses.related = []) : query.Filled sent := by
  cases h with
  | own filled => exact filled
  | before asked | after asked =>
    rw [alone] at asked
    cases asked

def plan : RowPlan :=
  ⟨[[.cell "title" (.literal (.text "Rivers")), .before author (text "name" "Ada"),
    .after comments [text "body" "Deep"]]]⟩

theorem related_posting : (posts.planned plan false).clauses.related =
    [.before 0 1 author (text "name" "Ada"), .after 0 comments [text "body" "Deep"]] := rfl

/-- The clerk answers all statements of the article. -/
theorem obliging_clerk : (posts.planned plan false).Obliging clerk := by
  refine ⟨fun key sql hcontrol ↦ ⟨_, _, if_pos hcontrol⟩, fun sent sql key hissues hsql ↦ ?_⟩
  cases hissues with
  | own filled =>
    have hplans : (posts.planned plan false).Plans post [article] plan :=
      Query.plans_planned false rfl rfl
    exact clerk_answers hplans filled (by decide) hsql key
  | before asked built inner =>
    rw [related_posting] at asked
    rcases List.mem_cons.1 asked with hasked | hasked
    · cases hasked
      obtain ⟨_, _, reference, htarget, hplan, hparse, rfl⟩ := Query.insertionBefore_eq_ok.1 built
      cases htarget
      cases hplan
      cases hparse.symm.trans links_author.plain.2.1
      obtain ⟨_, _, -, hplans, -⟩ := Query.plans_insertionBefore built
      exact clerk_answers hplans (filled_of_issues inner rfl) (by decide) hsql key
    · cases List.mem_singleton.1 hasked
  | after asked built inner =>
    rw [related_posting] at asked
    rcases List.mem_cons.1 asked with hasked | hasked
    · cases hasked
    · cases List.mem_singleton.1 hasked
      obtain ⟨_, _, htarget, -, hplan, -, rfl⟩ := Query.insertionAfter_eq_ok.1 built
      cases htarget
      cases hplan
      obtain ⟨_, _, -, hplans, -⟩ := Query.plans_insertionAfter built
      exact clerk_answers hplans (filled_of_issues inner rfl) (fun _ hnone ↦ nomatch hnone) hsql key

end Blog

namespace Query

variable {σ : Type} {surroundings : Script.Surroundings σ}

/-! ## Executing -/

end Query

end SqlComposer
