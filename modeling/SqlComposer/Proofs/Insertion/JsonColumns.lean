import SqlComposer.Proofs.Insertion.CopiedQueries
import SqlComposer.Proofs.Insertion.UpdateAssignments

/-!
# JSON objects in JSON columns

A row that is given as a JSON object has the values of the object, each as a literal. A JSON column
turns the literal into JSON again, whatever else the object and the defaults hold and whether the
row is inserted or updated. Null stays null and every other value comes back as it was, but for one
kind: an integer from 2^63 on is held by no literal but a double, and a double is what the column
gets.
-/

namespace SqlComposer

/-- With distinct keys one item alone has the key that it has. -/
theorem filter_key_of_nodup {α : Type} {items : List (String × α)} {key : String} {item : α}
    (distinct : (items.map Prod.fst).Nodup) (mem : (key, item) ∈ items) :
    (items.filter fun other ↦ other.1 = key) = [(key, item)] := by
  obtain ⟨before, after, rfl⟩ := List.append_of_mem mem
  rw [List.map_append, List.map_cons, List.nodup_middle, List.nodup_cons, List.mem_append,
    not_or] at distinct
  have hnone {side : List (String × α)} (hfree : key ∉ side.map Prod.fst) :
      (side.filter fun other ↦ other.1 = key) = [] :=
    List.filter_eq_nil_iff.2 fun other hother h ↦
      hfree (List.mem_map.2 ⟨other, hother, of_decide_eq_true h⟩)
  rw [List.filter_append, hnone distinct.1.1, List.nil_append,
    List.filter_cons_of_pos (by simp), hnone distinct.1.2]

/-! ## One value -/

namespace Json

/-- What a JSON column is to hold for a value. -/
def stored : Json → Literal
  | null => .null
  | value => .json value

/-- What a JSON column is given for a value. -/
def bound : Json → Literal
  | int value => .json (if value < twoTo 63 then int value else ofDouble (.ofInt value))
  | float value => .json (ofDouble value)
  | value => value.stored

/-- Whether a literal keeps a value: an integer has to be below 2^63, and a double one that JSON has
a text for. -/
def isKept : Json → Bool
  | int value => decide (value < twoTo 63)
  | float value => value.isFinite
  | _ => true

/-- A JSON column is given what it is to hold exactly for the values that a literal keeps. -/
theorem bound_eq_stored_iff {value : Json} : value.bound = value.stored ↔ value.isKept := by
  cases value with
  | int value =>
    by_cases hfits : value < twoTo 63
    · simp [bound, stored, isKept, hfits]
    · by_cases hfinite : (Double.ofInt value).isFinite <;>
        simp [bound, stored, isKept, hfits, ofDouble, hfinite]
  | float value =>
    by_cases hfinite : value.isFinite <;> simp [bound, stored, isKept, ofDouble, hfinite]
  | null | bool | text | list | object => simp [bound, stored, isKept]

end Json

theorem ColumnType.encode_ofJson {type : ColumnType} (json : type.isJson) (value : Json) :
    type.encode (.ofJson value) = value.bound := by
  cases value with
  | int value =>
    by_cases hfits : value < twoTo 63 <;>
      simp [Literal.ofJson, encode, json, Literal.toJson, Json.bound, hfits]
  | null | bool | float | text | list | object =>
    simp [Literal.ofJson, encode, json, Literal.toJson, Json.bound, Json.stored]

/-! ## Rows of plain values -/

namespace Payload

def ofMembers (members : List (String × Json)) : Payload :=
  members.foldl (fun payload member ↦ payload.set member.1 (.literal (.ofJson member.2))) .empty

variable {members : List (String × Json)} {key : String} {value : Json} {under : List Payload}
  {row : Payload} {entry : Entry}

/-- An object is read member by member. -/
theorem ofJson_object (members : List (String × Json)) :
    ofJson (.object members) = .ok (ofMembers members) := rfl

theorem entries_ofMembers (members : List (String × Json)) :
    (ofMembers members).entries =
      putEntries (members.map fun member ↦ (member.1, .value (.literal (.ofJson member.2)))) := by
  rw [putEntries, List.foldl_map]
  exact (List.foldl_hom Payload.entries fun payload member ↦
    (entries_set payload member.1 (.literal (.ofJson member.2))).symm).symm

/-- A row that is read from an object holds under a name what the last member of that name has. -/
theorem lookup_entries_ofMembers (members : List (String × Json)) (key : String) :
    (ofMembers members).entries.lookup key =
      (members.reverse.lookup key).map fun value ↦ .value (.literal (.ofJson value)) := by
  rw [entries_ofMembers, lookup_putEntries, ← List.map_reverse, ← lookup_map_snd]

theorem held?_ofMembers (last : members.reverse.lookup key = some value) :
    (ofMembers members).held? under key = some (.value (.literal (.ofJson value))) := by
  rw [held?, given?_eq_lookup, lookup_entries_ofMembers, last]
  rfl

theorem hasNested_ofMembers (members : List (String × Json)) :
    (ofMembers members).hasNested = false := by
  induction members using List.reverseRecOn with
  | nil => rfl
  | append_singleton members last ih =>
    rw [ofMembers, List.foldl_append, List.foldl_cons, List.foldl_nil, ← ofMembers]
    refine List.any_eq_false.2 fun entry hentry ↦ ?_
    rcases mem_entries_put hentry with rfl | hold
    · exact Bool.false_ne_true
    · exact List.any_eq_false.1 ih entry hold

theorem value_of_given (plain : row.hasNested = false) (h : row.given? key = some entry) :
    ∃ term, entry = .value term := by
  obtain ⟨_, _, hsplit, -⟩ := List.lookup_eq_some_iff.1 h
  have hmem : (key, entry) ∈ row.entries := by
    rw [← List.mem_reverse, hsplit]
    exact List.mem_append_right _ List.mem_cons_self
  have hentry := List.any_eq_false.1 plain _ hmem
  cases entry with
  | value term => exact ⟨term, rfl⟩
  | create | createMany => exact absurd rfl hentry

/-- Where neither a row nor what lies below it asks for rows to be created, the row holds values. -/
theorem value_of_held (plain : row.hasNested = false)
    (below : ∀ payload ∈ under, payload.hasNested = false) (h : row.held? under key = some entry) :
    ∃ term, entry = .value term := by
  rw [held?] at h
  rcases Option.or_eq_some_iff.1 h with hown | ⟨-, hunder⟩
  · exact value_of_given plain hown
  · obtain ⟨payload, hpayload, hgiven⟩ := List.exists_of_findSome?_eq_some hunder
    exact value_of_given (below payload (List.mem_reverse.1 hpayload)) hgiven

end Payload

/-- Defaults ask for no rows to be created. -/
theorem Call.plain_defaulting {start query : Query} {calls : List Call}
    (built : calls.foldlM Call.apply start = .ok query) :
    ∀ payload ∈ calls.foldl Call.defaulting [], payload.hasNested = false := by
  induction calls using List.reverseRecOn generalizing query with
  | nil => exact fun payload hpayload ↦ absurd hpayload List.not_mem_nil
  | append_singleton calls last ih =>
    simp only [List.foldlM_append, List.foldlM_cons, List.foldlM_nil, bind_pure,
      bind_eq_ok] at built
    obtain ⟨between, hbetween, hlast⟩ := built
    have hearlier := ih hbetween
    rw [List.foldl_append, List.foldl_cons, List.foldl_nil]
    cases last with
    | defaults data =>
      have hdata : data.hasNested = false := by
        simp only [Call.apply, Query.defaults] at hlast
        split at hlast
        · cases hlast
        · rename_i hplain
          exact Bool.eq_false_iff.2 hplain
      rintro payload hpayload
      rcases List.mem_append.1 hpayload with hold | hnew
      · exact hearlier payload hold
      · exact List.mem_singleton.1 hnew ▸ hdata
    | sibling | json => exact fun payload hpayload ↦ absurd hpayload List.not_mem_nil
    | _ => exact hearlier

namespace Table

variable {table : Table} {under : List Payload} {row : Payload} {key column : String}
  {members : List (String × Json)} {value : Json} {declared : Column}

/-- The value of a member of an object for a JSON column. -/
theorem valueFor?_ofMembers (last : members.reverse.lookup key = some value)
    (known : table.column? key = some declared)
    (json : declared.type.isJson) :
    table.valueFor? under (.ofMembers members) key = some (.literal value.bound) := by
  have htakes : table.takesKey key := by
    simp [takesKey, hasColumn, known]
  have hencoded : table.encodeTerm key (.literal (.ofJson value)) = .literal value.bound := by
    rw [encodeTerm, encode, known]
    exact congrArg Term.literal (ColumnType.encode_ofJson json value)
  rw [valueFor?, Payload.held?_ofMembers last]
  exact (if_pos htakes).trans (congrArg some hencoded)

/-- The values of an object for the columns of a table, among them that for a JSON column. -/
theorem columnValues_ofMembers {purpose : String} {values : List (String × Term)}
    (last : members.reverse.lookup key = some value)
    (known : table.column? key = some declared) (json : declared.type.isJson)
    (h : (Payload.ofMembers members).columnValues table purpose = .ok values) :
    (values.map Prod.fst).Nodup ∧ (key, .literal value.bound) ∈ values := by
  have halone : (Payload.ofMembers members).onto (Payload.layered []) = .ofMembers members :=
    Payload.onto_empty _
  rw [← halone] at h
  rw [columnValues_onto h]
  exact ⟨nodup_valuesFor _ _ _, mem_valuesFor.2 (valueFor?_ofMembers last known json)⟩

theorem exists_columnValues (plain : row.hasNested = false) (table : Table) (purpose : String) :
    ∃ values, row.columnValues table purpose = .ok values := by
  simp only [Payload.columnValues, bind_eq_ok, pure_eq_ok]
  refine Exists.elim (exists_mapM_eq_ok fun entry hentry ↦ ?_) fun options hoptions ↦
    ⟨_, options, hoptions, rfl⟩
  obtain ⟨key, held⟩ := entry
  have hvalue := List.any_eq_false.1 plain _ hentry
  cases held with
  | value term => exact ⟨_, rfl⟩
  | create | createMany => exact absurd rfl hvalue

/-- A row of values has them in its cells. -/
theorem cellFor_of_value {term : Term} (plain : row.hasNested = false)
    (below : ∀ payload ∈ under, payload.hasNested = false)
    (valued : table.valueFor? under row column = some term) :
    table.cellFor under row column = .value term := by
  have hready (key : String) : table.awaitedKey? under row key = none := by
    unfold awaitedKey?
    split
    · rename_i hheld _
      obtain ⟨_, hvalue⟩ := Payload.value_of_held plain below hheld
      cases hvalue
    · rfl
  rw [cellFor, valued, if_neg (by simp [hready])]
  rfl

end Table

/-! ## What is written -/

/-- An insertion of rows writes its columns and the rows of its cells. -/
theorem Clauses.exists_insert_rows {clauses : Clauses Written} {columns : List String}
    {rows : List (List Cell)} {conflict : Option Conflict} {code : Code} (named : columns ≠ [])
    (verb : clauses.verb = .insert ⟨columns, .rows rows, conflict⟩) (h : clauses.code = .ok code) :
    ∃ before codes after, rows.mapM Cell.rowCode = .ok codes ∧
      code = before ++ (Code.parenthesized (Code.nameList columns) ++
        .word " VALUES " :: Code.separated ", " codes) ++ after := by
  obtain ⟨before, source, after, hsource, rfl⟩ := exists_insert_source verb h
  have hsome : columns.isEmpty = false := List.isEmpty_eq_false_iff.2 named
  simp only [Insertion.sourceCode, hsome, Bool.false_eq_true, if_false, bind_eq_ok,
    pure_eq_ok] at hsource
  obtain ⟨codes, hcodes, rfl⟩ := hsource
  exact ⟨before, codes, after, hcodes, rfl⟩

/-- An update writes each of its assignments. -/
theorem Clauses.infix_update {clauses : Clauses Written} {assignments : List Assignment}
    {assignment : Assignment} {item code : Code} (verb : clauses.verb = .update assignments)
    (mem : assignment ∈ assignments) (written : assignment.code = .ok item)
    (h : clauses.code = .ok code) : item <:+: code := by
  obtain ⟨declarations, _, -, hchange, rfl⟩ := code_eq_ok h
  obtain ⟨table, _, returning, -, hupdate, -, rfl⟩ := update_eq_ok verb hchange
  obtain ⟨-, values, formula, hvalues, -, rfl⟩ := updateCode_eq_ok hupdate
  simp only [Assignment.listCode, bind_eq_ok, refusing_eq_ok, pure_eq_ok] at hvalues
  obtain ⟨-, items, hitems, rfl⟩ := hvalues
  obtain ⟨own, hown, hsame⟩ := exists_result_of_mem hitems mem
  cases written.symm.trans hsame
  have hlisted := Code.infix_separated ", "
    (List.mem_append_left (table.updatedAt.map Assignment.stamp).toList hown)
  refine hlisted.trans ⟨declarations ++ .word "UPDATE " :: clauses.targetCode table ++
    [.word " SET "], Code.restriction (restricting false formula) ++ returning, ?_⟩
  simp only [List.append_assoc, List.cons_append, List.nil_append]

namespace Query

variable {query next start inserted : Query} {calls : List Call} {rows : List Payload}
  {table : Table} {members : List (String × Json)} {key column : String} {value : Json}
  {declared : Column} {row : Nat} {literal : Literal}

/-- A query inserts rows with a literal in the cell of a column, where it is bound. -/
structure Stores (query : Query) (row : Nat) (column : String) (literal : Literal) : Prop where
  cell : query.cell? row column = some (.value (.literal literal))
  written : ∀ code, query.statement.code = .ok code → ∃ before rows cells after,
    code = before ++ (Code.parenthesized (Code.nameList query.insertedColumns) ++
      .word " VALUES " :: Code.separated ", " rows) ++ after ∧
    rows[row]? = some (Code.parenthesized (Code.separated ", " cells)) ∧
    cells[query.insertedColumns.idxOf column]? = some [.bind literal]

theorem Stores.of_cell (named : column ∈ query.insertedColumns)
    (cell : query.cell? row column = some (.value (.literal literal))) :
    query.Stores row column literal := by
  refine ⟨cell, fun code hcode ↦ ?_⟩
  obtain ⟨cells, hcells, hcell⟩ := Option.bind_eq_some_iff.1 cell
  obtain ⟨columns, rows, conflict, hverb⟩ : ∃ columns rows conflict,
      query.clauses.verb = .insert ⟨columns, .rows rows, conflict⟩ := by
    unfold insertedRows at hcells
    split at hcells
    · exact ⟨_, _, _, ‹_›⟩
    · cases hcells
  have hcolumns : query.insertedColumns = columns := by rw [insertedColumns, hverb]
  have hrows : query.insertedRows = rows := by rw [insertedRows, hverb]
  rw [hcolumns] at named hcell ⊢
  rw [hrows] at hcells
  have hfolded : (Statement.foldClauses Clauses.code query.clauses).verb =
      .insert ⟨columns, .rows rows, conflict⟩ := by
    rw [Statement.verb_fold, hverb]
    simp only [Statement.foldVerb, Statement.foldInsertion, Statement.foldInsertSource]
  rw [Statement.code, statement, Statement.fold] at hcode
  obtain ⟨before, codes, after, hcodes, rfl⟩ :=
    Clauses.exists_insert_rows (List.ne_nil_of_mem named) hfolded hcode
  obtain ⟨rowCode, hrow, hwritten⟩ := exists_getElem?_of_forall₂ (forall₂_of_mapM hcodes) hcells
  simp only [Cell.rowCode, bind_eq_ok, pure_eq_ok] at hwritten
  obtain ⟨cellCodes, hcellCodes, rfl⟩ := hwritten
  obtain ⟨cellCode, hat, hbound⟩ := exists_getElem?_of_forall₂ (forall₂_of_mapM hcellCodes) hcell
  cases hbound
  exact ⟨before, codes, cellCodes, after, rfl, hrow, hat⟩

/-- An update goes on behind what a query assigned before, and what it adds assigns one literal to a
column, where it is bound. -/
structure Sets (query next : Query) (column : String) (literal : Literal) : Prop where
  assigned : ∃ earlier added, next.clauses.verb = .update (earlier ++ added) ∧
    (query.clauses.verb = .update earlier ∨ query.clauses.verb = .select ∧ earlier = []) ∧
    (added.filter fun assignment ↦ assignment.column? = some column) =
      [.set column (.literal literal)]
  written : ∀ code, next.statement.code = .ok code →
    [.name column, .word " = ", .bind literal] <:+: code

/-- A new insertion stores the value that a plain row gives to the column. -/
theorem Stores.of_starts (new : start.IsNew) (built : calls.foldlM Call.apply start = .ok query)
    (target : query.clauses.table = some table) (inserts : query.Starts rows inserted)
    {data : Payload} (mem : rows[row]? = some data) (plain : data.hasNested = false)
    (valued : ∀ under, table.valueFor? under data column = some (.literal literal)) :
    inserted.Stores row column literal := by
  obtain ⟨-, found, plan, many, hfound, hplan, -, -, rfl⟩ := inserts.exists_planned
  cases Option.some.inj (hfound.symm.trans target)
  rw [(new.carried.foldlM built).defaults inserts.select] at hplan
  have hmatrix := (plans_planned many target hplan).matrix
  have hvalue := valued (calls.foldl Call.defaulting [])
  have hnamed : column ∈ (query.planned plan many).insertedColumns :=
    (hmatrix.filled column).2 ⟨data, List.mem_of_getElem? mem, .inl (by rw [hvalue]; rfl)⟩
  refine .of_cell hnamed ?_
  rw [hmatrix.cells row data mem column hnamed,
    Table.cellFor_of_value plain (Call.plain_defaulting built) hvalue]

/-- An update goes on with the values of a payload for all columns but the stamped one. -/
theorem exists_of_update {data : Payload} (done : query.update data = .ok next)
    (target : query.clauses.table = some table) :
    ∃ values earlier, data.columnValues table "update" = .ok values ∧
      next.clauses.verb = .update (earlier ++
        (values.filter fun value ↦ table.updatedAt != some value.1).map
          fun value ↦ .set value.1 value.2) ∧
      (query.clauses.verb = .update earlier ∨ query.clauses.verb = .select ∧ earlier = []) := by
  obtain ⟨found, values, hfound, hvalues, hpushed⟩ := update_eq_ok done
  cases Option.some.inj ((Clauses.requireTable_eq_ok.1 hfound).symm.trans target)
  obtain ⟨-, earlier, hnext, hquery⟩ := exists_of_pushUpdate hpushed
  exact ⟨values, earlier, hvalues, hnext, hquery⟩

/-- An update sets the column to the value of its payload, if the table does not stamp it. -/
theorem Sets.of_update {data : Payload} (done : query.update data = .ok next)
    (target : query.clauses.table = some table)
    (valued : ∀ values, data.columnValues table "update" = .ok values →
      (values.map Prod.fst).Nodup ∧ (column, .literal literal) ∈ values)
    (free : table.updatedAt ≠ some column) : query.Sets next column literal := by
  obtain ⟨values, earlier, hvalues, hnext, hquery⟩ := exists_of_update done target
  obtain ⟨hdistinct, hmem⟩ := valued values hvalues
  have hset : (column, Term.literal literal) ∈
      values.filter fun value ↦ table.updatedAt != some value.1 :=
    List.mem_filter.2 ⟨hmem, by simpa using free⟩
  refine ⟨⟨earlier, _, hnext, hquery, ?_⟩, fun code hcode ↦ ?_⟩
  · calc
      _ = ((values.filter fun value ↦ table.updatedAt != some value.1).filter
            fun value ↦ value.1 = column).map fun value ↦ Assignment.set value.1 value.2 := by
        rw [List.filter_map]
        simp only [Function.comp_def, Assignment.column?, Option.some.injEq]
      _ = [.set column (.literal literal)] := by
        rw [filter_key_of_nodup (hdistinct.sublist (List.filter_sublist.map _)) hset]
        rfl
  · rw [Statement.code, statement, Statement.fold] at hcode
    refine Clauses.infix_update (by rw [Statement.verb_fold, hnext, Statement.foldVerb])
      (List.mem_append_right earlier (List.mem_map_of_mem hset)) rfl hcode

/-- A row of values can be inserted into the table of a selection. -/
theorem exists_insert {data : Payload} (built : calls.foldlM Call.apply start = .ok query)
    (new : start.IsNew) (target : query.clauses.table = some table)
    (select : query.clauses.verb = .select) (plain : data.hasNested = false) :
    ∃ inserted, query.insert data = .ok inserted := by
  have hdefaults := (new.carried.foldlM built).defaults select
  have hparts : ∃ parts, (data.onto query.clauses.defaults).entries.mapM
      (RowPart.ofEntry table query.catalog.isSome) = .ok parts := by
    rw [hdefaults]
    refine exists_mapM_eq_ok fun entry hentry ↦ ?_
    obtain ⟨key, held⟩ := entry
    obtain ⟨term, rfl⟩ := Payload.value_of_held plain (Call.plain_defaulting built)
      (Payload.held?_of_mem hentry)
    exact ⟨_, rfl⟩
  obtain ⟨parts, hparts⟩ := hparts
  refine ⟨query.planned ⟨[parts]⟩ false, insertRows_eq_ok.2 ⟨table, ⟨[parts]⟩, target, ?_, ?_,
    select, rfl⟩⟩
  · simp [RowPlan.ofPayloads, hparts]
  · simp

/-- A guarded query that selects or updates can be updated with values. -/
theorem exists_update {data : Payload} (target : query.clauses.table = some table)
    (guarded : query.clauses.isGuarded)
    (turns : query.clauses.verb = .select ∨ ∃ earlier, query.clauses.verb = .update earlier)
    (plain : data.hasNested = false) : ∃ next, query.update data = .ok next := by
  obtain ⟨values, hvalues⟩ := Table.exists_columnValues plain table "update"
  have htable (purpose : String) : query.clauses.requireTable purpose = .ok table :=
    Clauses.requireTable_eq_ok.2 target
  have hguarded : query.clauses.checkGuarded "update" = .ok () := by
    rw [Clauses.checkGuarded, if_pos guarded]
  have hpushed (assignments : List Assignment) :
      ∃ next, query.pushUpdate assignments = .ok next := by
    unfold pushUpdate
    rw [htable, hguarded]
    rcases turns with hverb | ⟨earlier, hverb⟩ <;> rw [hverb] <;> exact ⟨_, rfl⟩
  obtain ⟨next, hnext⟩ := hpushed _
  exact ⟨next, bind_eq_ok.2 ⟨table, htable _, bind_eq_ok.2 ⟨values, hvalues, hnext⟩⟩⟩

/-- What becomes of a literal for a column when a row that has it is inserted, alone or with others,
is inserted behind what another query selects, is set by an update, or is set in a conflict. -/
structure Takes (query : Query) (table : Table) (data : Payload) (column : String)
    (literal : Literal) : Prop where
  inserted : ∀ rows next row, query.Starts rows next → rows[row]? = some data →
    next.Stores row column literal
  copied : ∀ source next, query.insertFrom source data = .ok next → ∃ names values,
    next.clauses.verb =
      .insert ⟨names ++ values.map Prod.fst, .query ⟨source.extended values⟩, none⟩ ∧
    (values.filter fun value ↦ value.1 = column) = [(column, .literal literal)]
  updated : table.updatedAt ≠ some column → ∀ next, query.update data = .ok next →
    query.Sets next column literal
  stamped : table.updatedAt = some column → ∀ next, query.update data = .ok next →
    ∃ earlier added, next.clauses.verb = .update (earlier ++ added) ∧
      (query.clauses.verb = .update earlier ∨ query.clauses.verb = .select ∧ earlier = []) ∧
      ∀ assignment ∈ added, assignment.column? ≠ some column
  merged : ∀ target next, (Call.setConflict target data).apply query = .ok next →
    ∃ insertion values, query.clauses.verb = .insert insertion ∧
      next.clauses.verb =
        .insert { insertion with conflict := some ⟨target, .merge (.values values)⟩ } ∧
      (values.filter fun value ↦ value.1 = column) = [(column, .literal literal)]

/-- A JSON column is written for the member of its name in an object that is inserted or updated
(the last one, should several have it), whatever else the object, the rows beside it and the
defaults hold. It is given the value itself, or null for null, exactly if a literal keeps the
value. -/
theorem takes_member (new : start.IsNew) (built : calls.foldlM Call.apply start = .ok query)
    (target : query.clauses.table = some table)
    (last : members.reverse.lookup key = some value) (known : table.column? key = some declared)
    (json : declared.type.isJson) :
    ∃ data, Payload.ofJson (.object members) = .ok data ∧
      (query.clauses.verb = .select → ∃ next, query.insert data = .ok next) ∧
      (query.clauses.isGuarded →
        query.clauses.verb = .select ∨ (∃ earlier, query.clauses.verb = .update earlier) →
        ∃ next, query.update data = .ok next) ∧
      query.Takes table data key value.bound ∧ (value.bound = value.stored ↔ value.isKept) := by
  have hplain := Payload.hasNested_ofMembers members
  have hvalued {purpose : String} (values : List (String × Term))
      (h : (Payload.ofMembers members).columnValues table purpose = .ok values) :=
    Table.columnValues_ofMembers last known json h
  refine ⟨.ofMembers members, Payload.ofJson_object members,
    fun select ↦ exists_insert built new target select hplain,
    fun guarded turns ↦ exists_update target guarded turns hplain, ?_,
    Json.bound_eq_stored_iff⟩
  refine ⟨fun rows next row inserts held ↦ ?_, fun source next copies ↦ ?_,
    fun free next done ↦ ?_, fun stamped next done ↦ ?_, fun conflict next done ↦ ?_⟩
  · exact .of_starts new built target inserts held hplain fun under ↦
      Table.valueFor?_ofMembers last known json
  · obtain ⟨found, names, values, hfound, -, -, -, -, hvalues, hselect, hnext⟩ :=
      exists_of_insertFrom copies
    cases Option.some.inj (hfound.symm.trans target)
    rw [(new.carried.foldlM built).defaults hselect] at hvalues
    have hwritten := Table.columnValues_onto hvalues
    refine ⟨names, values, hnext, filter_key_of_nodup ?_ ?_⟩
    · rw [hwritten]
      exact Table.nodup_valuesFor _ _ _
    · rw [hwritten]
      exact Table.mem_valuesFor.2 (Table.valueFor?_ofMembers last known json)
  · exact .of_update done target hvalued free
  · obtain ⟨values, earlier, -, hnext, hquery⟩ := exists_of_update done target
    refine ⟨earlier, _, hnext, hquery, fun assignment hassignment hcolumn ↦ ?_⟩
    obtain ⟨value, hvalue, rfl⟩ := List.mem_map.1 hassignment
    have hother := (List.mem_filter.1 hvalue).2
    rw [stamped, ← hcolumn] at hother
    simp [Assignment.column?] at hother
  · obtain ⟨pending, hpending, hset⟩ := bind_eq_ok.1 done
    unfold onConflict at hpending
    split at hpending <;> cases hpending
    rename_i insertion hverb
    simp only [PendingConflict.set, bind_eq_ok, refusing_eq_ok, pure_eq_ok] at hset
    obtain ⟨-, found, hfound, values, hvalues, rfl⟩ := hset
    cases Option.some.inj ((Clauses.requireTable_eq_ok.1 hfound).symm.trans target)
    obtain ⟨hdistinct, hmem⟩ := hvalued values hvalues
    exact ⟨insertion, values, hverb, rfl, filter_key_of_nodup hdistinct hmem⟩

end Query

/-! ## Users with JSON data -/

namespace Profile

def user : Table :=
  { Table.named "user" with columns := [.plain "name" .text, .plain "data" .jsonb] }

def start : Query := ⟨.ofTable user, none, none⟩

def members (data : Json) : List (String × Json) := [("name", .text "Ada"), ("data", data)]

/-- The greatest integer that JSON holds. -/
def tally : Json := .int 18446744073709551615

/-- A user whose data has such an integer inside is inserted with it. -/
theorem stores_tally : ∃ data inserted sql,
    Payload.ofJson (.object (members (.list [tally]))) = .ok data ∧
    start.insert data = .ok inserted ∧ inserted.Stores 0 "data" (.json (.list [tally])) ∧
    inserted.compile = .ok sql ∧
    sql.text = "INSERT INTO \"user\"(\"name\", \"data\") VALUES ($1, $2) RETURNING *" ∧
    sql.values = [.text "Ada", .json (.list [tally])] := by
  have hbuilt : ([] : List Call).foldlM Call.apply start = .ok start := rfl
  have hlast : (members (.list [tally])).reverse.lookup "data" = some (.list [tally]) := rfl
  have hknown : user.column? "data" = some (.plain "data" .jsonb) := rfl
  obtain ⟨data, hread, hinserted, -, htakes, -⟩ :=
    Query.takes_member (.ofTable user none none) hbuilt rfl hlast hknown rfl
  cases hread
  obtain ⟨inserted, hinserted⟩ := hinserted rfl
  have hstored := htakes.inserted [_] inserted 0 (.insert hinserted) rfl
  cases hinserted
  exact ⟨_, _, _, rfl, rfl, hstored, rfl, by decide +kernel, rfl⟩

/-- The same integer by itself is inserted as a double. -/
theorem loses_tally : ∃ data inserted sql, Payload.ofJson (.object (members tally)) = .ok data ∧
    start.insert data = .ok inserted ∧ inserted.compile = .ok sql ∧
    sql.values = [.text "Ada", .json (.ofDouble (.ofInt 18446744073709551615))] ∧
    sql.values ≠ [.text "Ada", .json tally] := by
  refine ⟨_, _, _, rfl, rfl, rfl, rfl, fun h ↦ ?_⟩
  have hkept : tally.bound = tally.stored := (List.cons.inj (List.cons.inj h).2).1
  exact absurd (Json.bound_eq_stored_iff.1 hkept) (by decide)

end Profile
end SqlComposer
