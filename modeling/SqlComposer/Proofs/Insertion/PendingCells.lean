import SqlComposer.Proofs.Insertion.RowPlans

/-!
# Pending cells

A cell of a row is pending until the row that it refers to has been inserted and has handed back its
key. Every pending cell of a planned insertion is addressed by a related row that is inserted
before, so that filling in the keys of all of them leaves no cell pending.
-/

namespace SqlComposer

variable {Sub : Type}

/-- The cell in a row and a column of the rows that are inserted is pending. -/
def Clauses.PendingAt (clauses : Clauses Sub) (row column : Nat) : Prop :=
  ∃ insertion rows cells, clauses.verb = .insert insertion ∧ insertion.source = .rows rows ∧
    rows[row]? = some cells ∧ cells[column]? = some .pending

/-- Every pending cell is to be filled by a row that is inserted before. -/
def Clauses.Awaits (clauses : Clauses Sub) : Prop :=
  ∀ row column, clauses.PendingAt row column →
    ∃ relation data, .before row column relation data ∈ clauses.related

theorem Clauses.Awaits.congr {clauses other : Clauses Sub} (h : clauses.Awaits)
    (verb : other.verb = clauses.verb) (related : other.related = clauses.related) :
    other.Awaits := by
  unfold Awaits PendingAt
  rw [verb, related]
  exact h

/-- Without rows of cells nothing is pending. -/
theorem Clauses.awaits_of_verb {clauses : Clauses Sub}
    (h : ∀ insertion rows, clauses.verb = .insert insertion → insertion.source ≠ .rows rows) :
    clauses.Awaits := by
  rintro row column ⟨insertion, rows, cells, hverb, hsource, -⟩
  exact absurd hsource (h insertion rows hverb)

/-! ## Plans -/

theorem nodup_eraseDups {α : Type} [BEq α] [LawfulBEq α] :
    ∀ items : List α, items.eraseDups.Nodup
  | [] => List.nodup_nil
  | first :: rest => by
    rw [List.eraseDups_cons, List.nodup_cons, List.mem_eraseDups, List.mem_filter]
    exact ⟨by simp, nodup_eraseDups (rest.filter fun other ↦ !other == first)⟩
termination_by items => items.length
decreasing_by exact Nat.lt_succ_of_le (List.length_filter_le _ _)

namespace RowPlan

variable {plan : RowPlan}

/-- A related row that a part of a row asks for is one of the plan. -/
theorem mem_relatedFrom_of_part {columns : List String} {row index : Nat}
    {rows : List (List RowPart)} {parts : List RowPart} {part : RowPart} {related : RelatedInsert}
    (held : rows[index]? = some parts) (mem : part ∈ parts)
    (asks : part.related? columns (row + index) = some related) :
    related ∈ relatedFrom columns row rows := by
  induction rows generalizing row index with
  | nil => cases held
  | cons first rest ih =>
    rw [relatedFrom, List.mem_append]
    cases index with
    | zero =>
      cases held
      exact .inl (List.mem_filterMap.2 ⟨part, mem, asks⟩)
    | succ index =>
      refine .inr (ih held ?_)
      rw [← asks]
      congr 1
      omega

/-- A cell is taken from one of the cells that belong to its column, or is the default. -/
theorem mem_of_cellAt {column : String} {cell : Cell} {cells : List (String × Cell)}
    (h : cellAt column cells = cell) (given : cell ≠ .default) : (column, cell) ∈ cells := by
  unfold cellAt at h
  split at h
  · rename_i name found hfound
    have hname := List.find?_some hfound
    have hin := List.mem_of_find?_eq_some hfound
    rw [beq_iff_eq] at hname
    cases hname
    cases h
    exact List.mem_reverse.1 hin
  · exact absurd h.symm given

/-- The pending cells of a plan are to be filled by its related rows. -/
theorem exists_before {row column : Nat} {cells : List Cell} (held : plan.cells[row]? = some cells)
    (pending : cells[column]? = some .pending) :
    ∃ relation data, .before row column relation data ∈ plan.related := by
  unfold RowPlan.cells at held
  rw [List.getElem?_map] at held
  obtain ⟨parts, hparts, rfl⟩ := Option.map_eq_some_iff.1 held
  rw [rowCells, List.getElem?_map] at pending
  obtain ⟨name, hname, hcell⟩ := Option.map_eq_some_iff.1 pending
  obtain ⟨part, hpart, hfilled⟩ := List.mem_filterMap.1 (mem_of_cellAt hcell (by simp))
  cases part with
  | skipped | cell | after => cases hfilled
  | before relation data =>
    cases hfilled
    obtain ⟨hinside, hat⟩ := List.getElem?_eq_some_iff.1 hname
    have hplace : plan.columns.idxOf relation.foreignKey = column := by
      rw [← hat]
      exact (nodup_eraseDups _).idxOf_getElem column hinside
    refine ⟨relation, data, mem_relatedFrom_of_part hparts hpart ?_⟩
    rw [RowPart.related?, hplace, Nat.zero_add]

end RowPlan

namespace Query

variable {query next : Query}

/-- The pending cells of a planned insertion are to be filled by the rows of its plan. -/
theorem awaits_planned (query : Query) (plan : RowPlan) (many : Bool) :
    (query.planned plan many).clauses.Awaits := by
  rintro row column ⟨insertion, rows, cells, hverb, hsource, hcells, hpending⟩
  cases hverb
  cases hsource
  exact RowPlan.exists_before hcells hpending

theorem awaits_insertRows {rows : List Payload} {many : Bool}
    (h : query.insertRows rows many = .ok next) : next.clauses.Awaits := by
  obtain ⟨table, plan, -, -, -, -, rfl⟩ := insertRows_eq_ok.1 h
  exact awaits_planned query plan many

/-! ## Filling -/

/-- Filling a cell makes no cell pending, and the filled one is not. -/
theorem pendingAt_fillCell {row column other place : Nat} {key : Literal}
    (h : (query.fillCell row column key).clauses.PendingAt other place) :
    query.clauses.PendingAt other place ∧ ¬(other = row ∧ place = column) := by
  obtain ⟨insertion, rows, cells, hverb, hsource, hcells, hpending⟩ := h
  rw [verb_fillCell] at hverb
  cases hown : query.clauses.verb with
  | insert before =>
    obtain ⟨columns, source, conflict⟩ := before
    rw [hown] at hverb
    cases hverb
    cases source with
    | rows before =>
      cases hsource
      rw [List.getElem?_modify] at hcells
      obtain ⟨earlier, hearlier, hchanged⟩ := Option.map_eq_some_iff.1 hcells
      split at hchanged
      · rename_i hrow
        subst hchanged
        by_cases hplace : place = column
        · subst hplace
          rw [List.getElem?_set] at hpending
          simp at hpending
        · rw [List.getElem?_set_ne (Ne.symm hplace)] at hpending
          exact ⟨⟨⟨columns, .rows before, conflict⟩, before, earlier, hown, rfl, hearlier,
            hpending⟩, fun h ↦ hplace h.2⟩
      · rename_i hrow
        subst hchanged
        exact ⟨⟨⟨columns, .rows before, conflict⟩, before, earlier, hown, rfl, hearlier, hpending⟩,
          fun h ↦ hrow h.1.symm⟩
    | raw fragment => cases hsource
    | query sub => cases hsource
  | _ =>
    rw [hown] at hverb
    cases hverb

theorem Filled.of_fillCell {final : Query} {row column : Nat} {key : Literal}
    (h : (query.fillCell row column key).Filled final) : query.Filled final := by
  induction h with
  | refl => exact .fill .refl row column key
  | fill _ other place later ih => exact .fill ih other place later

end Query
end SqlComposer
