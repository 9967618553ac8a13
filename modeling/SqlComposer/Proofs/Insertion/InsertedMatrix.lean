import Mathlib.Data.List.Nodup
import SqlComposer.Proofs.Insertion.LayeredPayloads
import SqlComposer.Proofs.Nested.AnsweredInsertions

/-!
# The matrix of an insertion

An insertion of rows that lie over defaults names every column once, in the order in which the
columns are first met when the rows are read one after the other, and has one cell for each of them
in each row. A cell holds the value that its row holds under the name of the column, waits for a
row that is created before, or is left to the database. A created row takes the place of a value in
front of it. What a row holds under a key is its own entry, even when that asks for rows to be
created and the defaults have a value there.
-/

namespace SqlComposer

/-- In a list without duplicates the items that stand behind one are those of higher index. -/
theorem idxOf_lt_idxOf_iff {before after : List String} {item other : String}
    (distinct : (before ++ item :: after).Nodup) (mem : other ∈ before ++ item :: after) :
    (before ++ item :: after).idxOf item < (before ++ item :: after).idxOf other ↔
      other ∈ after := by
  rw [List.nodup_append', List.nodup_cons] at distinct
  obtain ⟨-, ⟨hitem, -⟩, hapart⟩ := distinct
  have hnew : item ∉ before := fun h ↦ hapart h List.mem_cons_self
  rw [List.idxOf_append_of_notMem hnew, List.idxOf_cons_self]
  rcases List.mem_append.1 mem with hbefore | hbehind
  · rw [List.idxOf_append_of_mem hbefore]
    have hinside := List.idxOf_lt_length_of_mem hbefore
    have houtside : other ∉ after := fun h ↦ hapart hbefore (List.mem_cons_of_mem item h)
    exact ⟨fun h ↦ by omega, fun h ↦ absurd h houtside⟩
  · rw [List.idxOf_append_of_notMem fun h ↦ hapart h hbehind]
    rcases List.mem_cons.1 hbehind with rfl | hafter
    · rw [List.idxOf_cons_self]
      exact ⟨fun h ↦ by omega, fun h ↦ absurd h hitem⟩
    · have hother : item ≠ other := fun h ↦ hitem (h ▸ hafter)
      rw [List.idxOf_cons_ne _ hother]
      exact ⟨fun _ ↦ hafter, fun _ ↦ by omega⟩

/-- Behind an item of a list without repeats stand the items after it. -/
theorem exists_behind_iff {before after : List String} {item : String} {P : String → Prop}
    (distinct : (before ++ item :: after).Nodup) :
    (∃ other ∈ before ++ item :: after, P other ∧
      (before ++ item :: after).idxOf item < (before ++ item :: after).idxOf other) ↔
      ∃ other ∈ after, P other := by
  constructor
  · rintro ⟨other, hother, hholds, hlater⟩
    exact ⟨other, (idxOf_lt_idxOf_iff distinct hother).1 hlater, hholds⟩
  · rintro ⟨other, hother, hholds⟩
    have hread := List.mem_append_right before (List.mem_cons_of_mem item hother)
    exact ⟨other, hread, hholds, (idxOf_lt_idxOf_iff distinct hread).2 hother⟩

/-! ## Cells of a row -/

namespace Table

section

variable (table : Table) (under : List Payload) (row : Payload)

/-- The value that a row has for a column: what it holds under the name of the column, if that is a
plain value and the table knows the column, prepared for the type of the column. -/
def valueFor? (column : String) : Option Term :=
  match row.held? under column with
  | some (.value term) =>
    if table.takesKey column then some (table.encodeTerm column term) else none
  | _ => none

/-- The foreign key for which a row holds, under some key, a row that is created before. -/
def awaitedKey? (key : String) : Option String :=
  match row.held? under key, table.relation? key with
  | some (.create _), some relation =>
    if relation.kind = .belongsTo then some relation.foreignKey else none
  | _, _ => none

/-- The column that a key of a row fills. -/
def columnFor? (key : String) : Option String :=
  if (table.valueFor? under row key).isSome then some key else table.awaitedKey? under row key

/-- The cell of a row in a column. It waits for a created row unless the row has a value for the
column that is read behind everything that is created for it. -/
def cellFor (column : String) : Cell :=
  if ∃ key ∈ row.readKeys under, table.awaitedKey? under row key = some column ∧
      ((table.valueFor? under row column).isSome →
        (row.readKeys under).idxOf column < (row.readKeys under).idxOf key) then .pending
  else ((table.valueFor? under row column).map Cell.value).getD .default

/-- The cell that a key of a row fills, behind its column. -/
def filled? (key : String) : Option (String × Cell) :=
  match table.valueFor? under row key with
  | some value => some (key, .value value)
  | none => (table.awaitedKey? under row key).map fun column ↦ (column, .pending)

end

variable {table : Table} {catalogued : Bool} {under : List Payload} {row : Payload}
  {column key : String}

theorem map_fst_filled? :
    (table.filled? under row key).map Prod.fst = table.columnFor? under row key := by
  unfold filled? columnFor?
  cases table.valueFor? under row key with
  | some value => rfl
  | none => cases table.awaitedKey? under row key <;> rfl

/-- A part that an entry of a row comes to fills the cell of its key. -/
theorem cell?_of_held {entry : Entry} {part : RowPart} (held : row.held? under key = some entry)
    (planned : RowPart.ofEntry table catalogued (key, entry) = .ok part) :
    part.cell? = table.filled? under row key := by
  unfold filled? valueFor? awaitedKey?
  rw [held]
  cases RowPart.ofEntry_eq_ok.1 planned with
  | cell taken | skipped taken => simp [taken, RowPart.cell?]
  | before _ found kind | after _ found kind => simp [RowPart.cell?, found, kind]
  | many => rfl

theorem mem_readKeys {entry : Entry} (held : row.held? under key = some entry) :
    key ∈ row.readKeys under := by
  rw [← Payload.lookup_onto_layered] at held
  obtain ⟨before, after, hsplit, -⟩ := List.lookup_eq_some_iff.1 held
  rw [← Payload.keys_onto_layered, ← Payload.map_fst_entries, hsplit, List.map_append,
    List.map_cons]
  exact List.mem_append_right _ List.mem_cons_self

theorem mem_readKeys_of_value {value : Term} (h : table.valueFor? under row key = some value) :
    key ∈ row.readKeys under := by
  unfold valueFor? at h
  split at h
  · rename_i hheld
    exact mem_readKeys hheld
  · cases h

theorem mem_readKeys_of_awaited (h : table.awaitedKey? under row key = some column) :
    key ∈ row.readKeys under := by
  unfold awaitedKey? at h
  split at h
  · rename_i hheld _
    exact mem_readKeys hheld
  · cases h

theorem valueFor?_of_awaited (h : table.awaitedKey? under row key = some column) :
    table.valueFor? under row key = none := by
  unfold awaitedKey? at h
  split at h
  · rename_i hheld _
    rw [valueFor?, hheld]
  · cases h

theorem columnFor?_eq_some :
    table.columnFor? under row key = some column ↔
      key = column ∧ (table.valueFor? under row column).isSome ∨
        table.awaitedKey? under row key = some column := by
  unfold columnFor?
  split
  · rename_i hvalue
    have hready : table.awaitedKey? under row key ≠ some column := fun h ↦ by
      rw [valueFor?_of_awaited h] at hvalue
      cases hvalue
    simp only [Option.some.injEq, hready, or_false]
    exact ⟨fun h ↦ ⟨h, h ▸ hvalue⟩, fun h ↦ h.1⟩
  · rename_i hvalue
    refine ⟨.inr, fun h ↦ h.elim (fun h ↦ ?_) id⟩
    exact absurd (h.1 ▸ h.2) hvalue

/-- A key fills the cell of a column with the value of the row for it or leaves it pending. -/
theorem filled?_eq_some {cell : Cell} :
    table.filled? under row key = some (column, cell) ↔
      key = column ∧ (∃ value, table.valueFor? under row column = some value ∧
        cell = .value value) ∨
      table.awaitedKey? under row key = some column ∧ cell = .pending := by
  unfold filled?
  cases hvalue : table.valueFor? under row key with
  | some value =>
    have hready : table.awaitedKey? under row key ≠ some column := fun h ↦ by
      rw [valueFor?_of_awaited h] at hvalue
      cases hvalue
    simp only [Option.some.injEq, Prod.mk.injEq, hready, false_and, or_false]
    constructor
    · rintro ⟨rfl, rfl⟩
      exact ⟨rfl, value, hvalue, rfl⟩
    · rintro ⟨rfl, other, hother, rfl⟩
      rw [hvalue, Option.some.injEq] at hother
      exact ⟨rfl, by rw [hother]⟩
  | none =>
    simp only [Option.map_eq_some_iff, Prod.mk.injEq]
    constructor
    · rintro ⟨foreign, hforeign, rfl, rfl⟩
      exact .inr ⟨hforeign, rfl⟩
    · rintro (⟨rfl, value, hother, -⟩ | ⟨hforeign, rfl⟩)
      · rw [hvalue] at hother
        cases hother
      · exact ⟨column, hforeign, rfl, rfl⟩

theorem mem_filled {keys : List String} :
    column ∈ (keys.filterMap (table.filled? under row)).map Prod.fst ↔
      ∃ key ∈ keys, table.columnFor? under row key = some column := by
  simp only [List.map_filterMap, map_fst_filled?, List.mem_filterMap]

end Table

/-! ## Plans -/

namespace RowPlan

variable {table : Table} {catalogued : Bool} {under rows : List Payload} {row : Payload}
  {plan : RowPlan} {column : String}

/-- What stands behind decides about a column that it fills. -/
theorem cellAt_append (cells more : List (String × Cell)) :
    cellAt column (cells ++ more) =
      if column ∈ more.map Prod.fst then cellAt column more else cellAt column cells := by
  have hlookup (cells : List (String × Cell)) :
      cellAt column cells = (cells.reverse.lookup column).getD .default := by
    unfold cellAt
    induction cells.reverse with
    | nil => rfl
    | cons cell rest ih =>
      obtain ⟨name, cell⟩ := cell
      by_cases hname : name = column
      · simp [hname]
      · have hother : (column == name) = false := beq_eq_false_iff_ne.2 (Ne.symm hname)
        rw [List.find?_cons_of_neg (by simpa using hname), List.lookup_cons, hother]
        exact ih
  rw [hlookup, hlookup, hlookup, List.reverse_append, List.lookup_append]
  by_cases hfilled : column ∈ more.map Prod.fst
  · have hfound : (more.reverse.lookup column).isSome := by
      obtain ⟨cell, hcell, hname⟩ := List.mem_map.1 hfilled
      exact List.lookup_isSome_iff.2
        ⟨cell, List.mem_reverse.2 hcell, beq_iff_eq.2 hname.symm⟩
    obtain ⟨cell, hcell⟩ := Option.isSome_iff_exists.1 hfound
    rw [if_pos hfilled, hcell]
    rfl
  · have hnone : more.reverse.lookup column = none := by
      refine List.lookup_eq_none_iff.2 fun cell hcell ↦ ?_
      exact bne_iff_ne.2 fun hname ↦
        hfilled (hname ▸ List.mem_map_of_mem (List.mem_reverse.1 hcell))
    rw [if_neg hfilled, hnone, Option.none_or]

theorem cellAt_of_not_mem {cells : List (String × Cell)} (h : column ∉ cells.map Prod.fst) :
    cellAt column cells = .default := by
  rw [← List.nil_append cells, cellAt_append, if_neg h]
  rfl

/-- The parts of a row fill the cells of its keys. -/
theorem filterMap_cell? {parts : List RowPart}
    (h : List.Forall₂ (fun entry part ↦ RowPart.ofEntry table catalogued entry = .ok part)
      (row.onto (Payload.layered under)).entries parts) :
    parts.filterMap RowPart.cell? = (row.readKeys under).filterMap (table.filled? under row) :=
  Payload.filterMap_results _ _ (fun _ _ _ ↦ Table.cell?_of_held) h

/-- The columns of rows that lie over defaults are those that their keys fill, in reading order. -/
theorem columns_eq
    (h : ofPayloads table catalogued (rows.map fun row ↦ row.onto (Payload.layered under)) =
      .ok plan) :
    plan.columns =
      (rows.flatMap fun row ↦
        (row.readKeys under).filterMap (table.columnFor? under row)).eraseDups := by
  have hrows := List.forall₂_map_left_iff.1 (rows_ofPayloads h)
  have hparts : plan.rows.flatten.filterMap RowPart.cell? =
      rows.flatMap fun row ↦ (row.readKeys under).filterMap (table.filled? under row) := by
    generalize plan.rows = planned at hrows
    clear h
    induction hrows with
    | nil => rfl
    | cons hparts _ ih =>
      rw [List.flatten_cons, List.filterMap_append, ih, filterMap_cell? hparts, List.flatMap_cons]
  unfold columns
  rw [hparts, List.map_flatMap]
  simp only [List.map_filterMap, Table.map_fst_filled?]

/-- Where no value is filled in, a column that is filled at all is pending. -/
theorem cellAt_pending {keys : List String}
    (unset : ∀ key ∈ keys, key = column → table.valueFor? under row column = none)
    (awaited : ∃ key ∈ keys, table.awaitedKey? under row key = some column) :
    cellAt column (keys.filterMap (table.filled? under row)) = .pending := by
  obtain ⟨key, hkey, hawaited⟩ := awaited
  have hmem : (column, .pending) ∈ keys.filterMap (table.filled? under row) :=
    List.mem_filterMap.2 ⟨key, hkey, Table.filled?_eq_some.2 (.inr ⟨hawaited, rfl⟩)⟩
  refine cellAt_eq hmem fun cell hcell ↦ ?_
  obtain ⟨other, hother, hfilled⟩ := List.mem_filterMap.1 hcell
  rcases Table.filled?_eq_some.1 hfilled with ⟨hname, value, hvalue, -⟩ | ⟨-, hpending⟩
  · rw [unset other hother hname] at hvalue
    cases hvalue
  · exact hpending

/-- A value stands in its column unless some key behind it asks for a row there. -/
theorem cellAt_valued {before after : List String} {value : Term}
    (distinct : (before ++ column :: after).Nodup)
    (valued : table.valueFor? under row column = some value) :
    cellAt column ((before ++ column :: after).filterMap (table.filled? under row)) =
      if ∃ key ∈ after, table.awaitedKey? under row key = some column then .pending
      else .value value := by
  have hown : table.filled? under row column = some (column, .value value) :=
    Table.filled?_eq_some.2 (.inl ⟨rfl, value, valued, rfl⟩)
  have hfresh : column ∉ after := by
    rw [List.nodup_middle, List.nodup_cons, List.mem_append, not_or] at distinct
    exact distinct.1.2
  have hunset : ∀ key ∈ after, key = column → table.valueFor? under row column = none :=
    fun key hkey h ↦ absurd (h ▸ hkey) hfresh
  rw [List.filterMap_append, List.filterMap_cons_some hown, List.append_cons, cellAt_append]
  by_cases hawaited : ∃ key ∈ after, table.awaitedKey? under row key = some column
  · have hfilled := Table.mem_filled.2 (hawaited.imp fun key h ↦
      ⟨h.1, Table.columnFor?_eq_some.2 (.inr h.2)⟩)
    rw [if_pos hfilled, if_pos hawaited, cellAt_pending hunset hawaited]
  · have hleft : column ∉ (after.filterMap (table.filled? under row)).map Prod.fst := by
      rw [Table.mem_filled]
      rintro ⟨key, hkey, hfilled⟩
      rcases Table.columnFor?_eq_some.1 hfilled with ⟨hname, hsome⟩ | hkeyed
      · rw [hunset key hkey hname] at hsome
        cases hsome
      · exact hawaited ⟨key, hkey, hkeyed⟩
    rw [if_neg hleft, if_neg hawaited, cellAt_append, if_pos (by simp)]
    simp [cellAt]

/-- The last cell that the keys of a row fill in a column. -/
theorem cellAt_filled :
    cellAt column ((row.readKeys under).filterMap (table.filled? under row)) =
      table.cellFor under row column := by
  unfold Table.cellFor
  cases hvalue : table.valueFor? under row column with
  | none =>
    by_cases hawaited : ∃ key ∈ row.readKeys under, table.awaitedKey? under row key = some column
    · rw [cellAt_pending (fun _ _ _ ↦ hvalue) hawaited, if_pos (by simpa using hawaited)]
    · rw [cellAt_of_not_mem, if_neg (by simpa using hawaited)]
      · rfl
      · rw [Table.mem_filled]
        rintro ⟨key, hkey, hfilled⟩
        rcases Table.columnFor?_eq_some.1 hfilled with ⟨-, hsome⟩ | hkeyed
        · rw [hvalue] at hsome
          cases hsome
        · exact hawaited ⟨key, hkey, hkeyed⟩
  | some value =>
    have hdistinct : (row.readKeys under).Nodup := nodup_eraseDups _
    obtain ⟨before, after, hsplit⟩ := List.append_of_mem (Table.mem_readKeys_of_value hvalue)
    rw [hsplit] at hdistinct ⊢
    rw [cellAt_valued hdistinct hvalue]
    simp only [Option.isSome_some, forall_const, exists_behind_iff hdistinct, Option.map_some,
      Option.getD_some]

end RowPlan

/-! ## Insertions -/

namespace Query

/-- A query inserts rows over defaults: every column once, in the order in which the rows fill
them, and in every row a cell for each of them. -/
structure Matrix (query : Query) (table : Table) (under rows : List Payload) : Prop where
  stored : ∃ conflict, query.clauses.verb =
    .insert ⟨query.insertedColumns, .rows query.insertedRows, conflict⟩
  columns : query.insertedColumns =
    (rows.flatMap fun row ↦ (row.readKeys under).filterMap (table.columnFor? under row)).eraseDups
  distinct : query.insertedColumns.Nodup
  filled : ∀ column, column ∈ query.insertedColumns ↔ ∃ row ∈ rows,
    (table.valueFor? under row column).isSome ∨
      ∃ key, table.awaitedKey? under row key = some column
  height : query.insertedRows.length = rows.length
  width : ∀ cells ∈ query.insertedRows, cells.length = query.insertedColumns.length
  cells : ∀ (index : Nat) row, rows[index]? = some row → ∀ column ∈ query.insertedColumns,
    query.cell? index column = some (table.cellFor under row column)

variable {query start inserted : Query} {calls : List Call} {rows : List Payload}

theorem Starts.select (h : query.Starts rows inserted) : query.clauses.verb = .select := by
  cases h with
  | insert h =>
    obtain ⟨_, _, -, -, -, hselect, -⟩ := insertRows_eq_ok.1 h
    exact hselect
  | insertMany h =>
    unfold Query.insertMany at h
    split at h
    · cases h
    · obtain ⟨_, _, -, -, -, hselect, -⟩ := insertRows_eq_ok.1 h
      exact hselect

/-- Rows that a plan takes over defaults are inserted cell by cell as they are read. -/
theorem Plans.matrix {table : Table} {under : List Payload} {plan : RowPlan}
    (h : query.Plans table (rows.map fun row ↦ row.onto (Payload.layered under)) plan) :
    query.Matrix table under rows := by
  have hcolumns := RowPlan.columns_eq h.planned
  have hrectangular := h.rectangular
  refine ⟨?_, h.insertedColumns.trans hcolumns, ?_, fun column ↦ ?_, ?_, hrectangular.width,
    fun index row hrow column hcolumn ↦ ?_⟩
  · rw [h.insertedColumns, h.insertedRows]
    exact h.verb
  · rw [h.insertedColumns]
    exact nodup_eraseDups _
  · rw [h.insertedColumns, hcolumns, List.mem_eraseDups, List.mem_flatMap]
    refine exists_congr fun row ↦ and_congr_right fun _ ↦ ?_
    simp only [List.mem_filterMap, Table.columnFor?_eq_some]
    constructor
    · rintro ⟨key, -, ⟨rfl, hvalue⟩ | hawaited⟩
      · exact .inl hvalue
      · exact .inr ⟨key, hawaited⟩
    · rintro (hvalue | ⟨key, hawaited⟩)
      · obtain ⟨value, hheld⟩ := Option.isSome_iff_exists.1 hvalue
        exact ⟨column, Table.mem_readKeys_of_value hheld, .inl ⟨rfl, hvalue⟩⟩
      · exact ⟨key, Table.mem_readKeys_of_awaited hawaited, .inr hawaited⟩
  · rw [hrectangular.height, List.length_map]
  · have hrows := List.forall₂_map_left_iff.1 (RowPlan.rows_ofPayloads h.planned)
    obtain ⟨parts, hparts, hentries⟩ := exists_getElem?_of_forall₂ hrows hrow
    rw [h.insertedColumns] at hcolumn
    rw [h.cell?_eq hparts hcolumn, ← RowPlan.cellAt_filled, ← RowPlan.filterMap_cell? hentries]

/-- The rows that a selection is asked to insert, after calls that may have given it defaults, make
up a matrix over these defaults. -/
theorem matrix_inserted (new : start.IsNew) (built : calls.foldlM Call.apply start = .ok query)
    (inserts : query.Starts rows inserted) :
    ∃ table, query.clauses.table = some table ∧
      inserted.Matrix table (calls.foldl Call.defaulting []) rows ∧
      ∀ key, table.takesKey key ↔
        table.columns = [] ∨ ∃ column ∈ table.columns, column.name = key := by
  obtain ⟨-, table, plan, many, htable, hplan, -, -, rfl⟩ := inserts.exists_planned
  have hdefaults := (new.carried.foldlM built).defaults inserts.select
  rw [hdefaults] at hplan
  refine ⟨table, htable, (plans_planned many htable hplan).matrix, fun key ↦ ?_⟩
  simp only [Table.takesKey, Bool.or_eq_true, List.isEmpty_iff, Table.hasColumn, Table.column?,
    List.find?_isSome, beq_iff_eq]

end Query

/-! ## Posts over defaults -/

namespace Blog

/-- What posts are given where they say nothing else. -/
def draft : Payload := (text "title" "Draft").set "authorId" (.literal (.int 7))

/-- The author of the defaults is written for a post that has no author of its own, and a post with
a new author waits for it. -/
theorem matrix_drafts : ∃ query inserted,
    [.defaults draft].foldlM Call.apply posts = .ok query ∧
    query.Starts [article, text "title" "Lakes"] inserted ∧
    inserted.Matrix post [draft] [article, text "title" "Lakes"] ∧
    inserted.insertedColumns = ["title", "authorId"] ∧
    inserted.insertedRows =
      [[.value (.literal (.text "Rivers")), .pending],
        [.value (.literal (.text "Lakes")), .value (.literal (.int 7))]] := by
  obtain ⟨query, hbuilt⟩ : ∃ query, [.defaults draft].foldlM Call.apply posts = .ok query :=
    ⟨_, rfl⟩
  obtain ⟨inserted, hinserted⟩ : ∃ inserted,
      query.insertMany [article, text "title" "Lakes"] = .ok inserted := by
    cases hbuilt
    exact ⟨_, rfl⟩
  obtain ⟨table, htable, hmatrix, -⟩ :=
    Query.matrix_inserted (.ofTable post (some catalog) none) hbuilt (.insertMany hinserted)
  cases hbuilt
  cases hinserted
  cases htable
  exact ⟨_, _, rfl, .insertMany rfl, hmatrix, rfl, rfl⟩

/-- Posts that can be signed under the name of the relation to their author. -/
def signed : Table := { post with columns := post.columns ++ [.plain "author" .text] }

/-- A signature that all posts are given is written for no post with a new author. -/
theorem unwritten_signature : ∃ query inserted row,
    [.defaults (text "author" "Ada")].foldlM Call.apply ⟨.ofTable signed, some catalog, none⟩ =
      .ok query ∧
    query.Starts [row] inserted ∧ (∀ term, row.given? "author" ≠ some (.value term)) ∧
    (text "author" "Ada").given? "author" = some (.value (.literal (.text "Ada"))) ∧
    signed.takesKey "author" ∧ inserted.insertedColumns = ["authorId"] := by
  refine ⟨_, _, Payload.empty.put "author" (.create (text "name" "Ada")), rfl, .insert rfl, ?_, rfl,
    by decide, rfl⟩
  intro term h
  cases h

end Blog
end SqlComposer
