import SqlComposer.Proofs.Insertion.RowPlans
import SqlComposer.Proofs.Statement.WrittenChanges

/-!
# Insertions that can be written

What it takes for an insertion to be written: the tables declared in front of it can be, the cells
of its rows, the reaction to conflicts and what it hands back. Keys are written in every cell, so an
insertion can still be written when some of its cells are filled.
-/

namespace SqlComposer

/-! ## Cells -/

namespace Cell

def Writable (cell : Cell) : Prop := ∃ code, cell.code = .ok code

theorem writable_default : Writable default := ⟨_, rfl⟩

theorem writable_pending : Writable pending := ⟨_, rfl⟩

theorem writable_literal (value : Literal) : Writable (.value (.literal value)) := ⟨_, rfl⟩

/-- A value that is no fragment can be written. -/
theorem writable_value {term : Term} (h : ∀ fragment, term ≠ .raw fragment) :
    Writable (.value term) := by
  cases term with
  | literal value => exact ⟨_, rfl⟩
  | raw fragment => exact absurd rfl (h fragment)
  | column reference => exact ⟨_, rfl⟩

theorem exists_rowCode {row : List Cell} :
    (∃ code, rowCode row = .ok code) ↔ ∀ cell ∈ row, cell.Writable := by
  simp only [rowCode, bind_eq_ok, pure_eq_ok]
  constructor
  · rintro ⟨_, codes, hcodes, -⟩ cell hcell
    obtain ⟨code, -, hcode⟩ := exists_result_of_mem hcodes hcell
    exact ⟨code, hcode⟩
  · intro h
    obtain ⟨codes, hcodes⟩ := exists_mapM_eq_ok h
    exact ⟨_, codes, hcodes, rfl⟩

end Cell

namespace Insertion

variable {columns : List String} {rows : List (List Cell)} {conflict : Option Conflict}

/-- Rows can be written if their cells can; without columns there is at most one. -/
theorem exists_sourceCode :
    (∃ code, (⟨columns, .rows rows, conflict⟩ : Insertion Written).sourceCode = .ok code) ↔
      if columns.isEmpty then rows.length ≤ 1
      else ∀ cells ∈ rows, ∀ cell ∈ cells, cell.Writable := by
  simp only [sourceCode]
  split
  · by_cases hmany : 1 < rows.length
    · simp [hmany, throw, throwThe, MonadExceptOf.throw, Functor.map, Except.map]
    · simp [hmany, Nat.le_of_not_lt hmany, pure, Except.pure]
  · simp only [bind_eq_ok, pure_eq_ok, ← Cell.exists_rowCode]
    constructor
    · rintro ⟨_, codes, hcodes, -⟩ cells hcells
      obtain ⟨code, -, hcode⟩ := exists_result_of_mem hcodes hcells
      exact ⟨code, hcode⟩
    · intro h
      obtain ⟨codes, hcodes⟩ := exists_mapM_eq_ok h
      exact ⟨_, codes, hcodes, rfl⟩

/-- The reaction of an insertion to conflicts; without one it takes no filter. -/
def reactionCode (insertion : Insertion Written) (filter : Filter Written)
    (qualifier : Qualifier) : Written :=
  match insertion.conflict with
  | some conflict => conflict.code insertion.columns filter qualifier
  | none => if filter.isSet then throw .conditionOnInsert else pure []

/-- An insertion writes its target, its rows and its reaction to conflicts. -/
theorem code_eq (insertion : Insertion Written) (target : Code) (filter : Filter Written)
    (qualifier : Qualifier) :
    insertion.code target filter qualifier = (do
      let source ← insertion.sourceCode
      let reaction ← insertion.reactionCode filter qualifier
      return .word "INSERT INTO " :: target ++ source ++ reaction) := by
  unfold code reactionCode
  cases insertion.conflict with
  | some conflict => rfl
  | none => cases filter.isSet <;> rfl

end Insertion

/-! ## Statements -/

namespace Clauses

/-- What an insertion writes around its rows can be written: the tables that it declares, its
reaction to conflicts, and what it hands back. -/
structure Framed (clauses : Clauses Written) : Prop where
  declarations : ∃ code, CommonTable.declarations clauses.commonTables = .ok code
  reaction : ∀ insertion, clauses.verb = .insert insertion →
    ∃ code, insertion.reactionCode clauses.filter clauses.qualifier = .ok code
  returning : ∃ code, clauses.returningCode = .ok code

/-- An insertion can be written if all its parts can. -/
theorem exists_code_insert {clauses : Clauses Written} {insertion : Insertion Written}
    (verb : clauses.verb = .insert insertion) :
    (∃ code, clauses.code = .ok code) ↔
      clauses.Framed ∧ (∃ table, clauses.table = some table) ∧
        ∃ code, insertion.sourceCode = .ok code := by
  simp only [Clauses.code, verbCode, verb, Insertion.code_eq, bind_eq_ok, pure_eq_ok,
    requireTable_eq_ok]
  constructor
  · rintro ⟨_, declarations, hdeclarations, _, ⟨table, htable, _, ⟨source, hsource, reaction,
      hreaction, -⟩, returning, hreturning, -⟩, -⟩
    refine ⟨⟨⟨declarations, hdeclarations⟩, fun other hother ↦ ?_, ⟨returning, hreturning⟩⟩,
      ⟨table, htable⟩, ⟨source, hsource⟩⟩
    cases verb.symm.trans hother
    exact ⟨reaction, hreaction⟩
  · rintro ⟨⟨⟨declarations, hdeclarations⟩, hreacts, ⟨returning, hreturning⟩⟩,
      ⟨table, htable⟩, ⟨source, hsource⟩⟩
    obtain ⟨reaction, hreaction⟩ := hreacts insertion verb
    exact ⟨_, declarations, hdeclarations, _, ⟨table, htable, _, ⟨source, hsource, reaction,
      hreaction, rfl⟩, returning, hreturning, rfl⟩, rfl⟩

end Clauses

namespace Query

def Writable (query : Query) : Prop := ∃ sql, query.compile = .ok sql

/-- What an insertion writes around its rows can be written. -/
def Framed (query : Query) : Prop := (Statement.foldClauses Clauses.code query.clauses).Framed

variable {query : Query}

/-- An insertion of rows with its sub-queries in code. -/
theorem writable_iff {columns : List String} {rows : List (List Cell)}
    {conflict : Option Conflict}
    (verb : query.clauses.verb = .insert ⟨columns, .rows rows, conflict⟩) :
    query.Writable ↔
      query.Framed ∧ (∃ table, query.clauses.table = some table) ∧
        if columns.isEmpty then rows.length ≤ 1
        else ∀ cells ∈ rows, ∀ cell ∈ cells, cell.Writable := by
  have hverb : (Statement.foldClauses Clauses.code query.clauses).verb =
      .insert ⟨columns, .rows rows, conflict⟩ := by
    rw [Statement.foldClauses_eq, verb]
    rfl
  have htable : (Statement.foldClauses Clauses.code query.clauses).table =
      query.clauses.table := by
    rw [Statement.foldClauses_eq]
  have hcompile : query.Writable ↔
      ∃ code, (Statement.foldClauses Clauses.code query.clauses).code = .ok code := by
    simp only [Writable, compile, Statement.compile, map_eq_ok]
    constructor
    · rintro ⟨_, code, hcode, -⟩
      exact ⟨code, hcode⟩
    · rintro ⟨code, hcode⟩
      exact ⟨_, code, hcode, rfl⟩
  rw [hcompile, Clauses.exists_code_insert hverb, Insertion.exists_sourceCode, htable]
  rfl

/-- Filling a cell leaves what stands around the rows. -/
theorem Framed.fillCell (h : query.Framed) {columns : List String} {rows : List (List Cell)}
    {conflict : Option Conflict}
    (verb : query.clauses.verb = .insert ⟨columns, .rows rows, conflict⟩) (row column : Nat)
    (key : Literal) : (query.fillCell row column key).Framed := by
  have hverb : (query.fillCell row column key).clauses.verb = .insert ⟨columns, .rows (rows.modify
      row fun cells ↦ cells.set column (.value (.literal key))), conflict⟩ := by
    rw [verb_fillCell, verb]
    rfl
  have hsame : (query.fillCell row column key).clauses = { query.clauses with
      verb := .insert ⟨columns, .rows (rows.modify row fun cells ↦
        cells.set column (.value (.literal key))), conflict⟩ } := by
    rw [clauses_fillCell, hverb]
  have hfolded : (Statement.foldClauses Clauses.code query.clauses).verb =
      .insert ⟨columns, .rows rows, conflict⟩ := by
    rw [Statement.foldClauses_eq, verb]
    rfl
  obtain ⟨hdeclarations, hreacts, hreturning⟩ := h
  have hreaction := hreacts _ hfolded
  unfold Framed
  rw [hsame, Statement.foldClauses_eq]
  rw [Statement.foldClauses_eq] at hdeclarations hreaction hreturning
  refine ⟨hdeclarations, fun insertion hinsertion ↦ ?_, ?_⟩
  · cases hinsertion
    exact hreaction
  · simpa [Clauses.returningCode, Clauses.returnsAll, verb, Statement.foldVerb, Clauses.qualifier,
      Clauses.aliasName] using hreturning

/-- An insertion can still be written when a cell is filled. -/
theorem Writable.fillCell (h : query.Writable) {columns : List String} {rows : List (List Cell)}
    {conflict : Option Conflict}
    (verb : query.clauses.verb = .insert ⟨columns, .rows rows, conflict⟩) (row column : Nat)
    (key : Literal) : (query.fillCell row column key).Writable := by
  have hverb : (query.fillCell row column key).clauses.verb = .insert ⟨columns, .rows (rows.modify
      row fun cells ↦ cells.set column (.value (.literal key))), conflict⟩ := by
    rw [verb_fillCell, verb]
    rfl
  have htable : (query.fillCell row column key).clauses.table = query.clauses.table := by
    rw [clauses_fillCell]
  obtain ⟨hframed, hsome, hcells⟩ := (writable_iff verb).1 h
  rw [writable_iff hverb, htable]
  refine ⟨hframed.fillCell verb row column key, hsome, ?_⟩
  split at hcells
  · rename_i hempty
    rw [if_pos hempty, List.length_modify]
    exact hcells
  · rename_i hwide
    rw [if_neg hwide]
    intro cells hcells' cell hcell
    obtain ⟨index, hindex⟩ := List.mem_iff_getElem?.1 hcells'
    rw [List.getElem?_modify] at hindex
    obtain ⟨before, hbefore, rfl⟩ := Option.map_eq_some_iff.1 hindex
    have hall := hcells before (List.mem_of_getElem? hbefore)
    split at hcell
    · rcases List.mem_or_eq_of_mem_set hcell with hold | rfl
      · exact hall cell hold
      · exact Cell.writable_literal key
    · exact hall cell hcell

/-- Filling keys keeps an insertion writable. -/
theorem Writable.filled {filled : Query} {columns : List String} {rows : List (List Cell)}
    {conflict : Option Conflict} (h : query.Writable)
    (verb : query.clauses.verb = .insert ⟨columns, .rows rows, conflict⟩)
    (fills : query.Filled filled) : filled.Writable := by
  suffices hboth : filled.Writable ∧
      ∃ rows, filled.clauses.verb = .insert ⟨columns, .rows rows, conflict⟩ from hboth.1
  induction fills with
  | refl => exact ⟨h, rows, verb⟩
  | fill _ row column key ih =>
    obtain ⟨hwritable, others, hverb⟩ := ih
    exact ⟨hwritable.fillCell hverb row column key, _, by rw [verb_fillCell, hverb]; rfl⟩

end Query

/-! ## Planned rows -/

/-- A payload without fragments. -/
def Payload.Plain (payload : Payload) : Prop :=
  ∀ key term, (key, Entry.value term) ∈ payload.entries → ∀ fragment, term ≠ .raw fragment

/-- The cells of a plan can be written if no payload holds a fragment. -/
theorem RowPlan.writable_cells {table : Table} {catalogued : Bool} {payloads : List Payload}
    {plan : RowPlan} (h : ofPayloads table catalogued payloads = .ok plan)
    (plain : ∀ payload ∈ payloads, payload.Plain) :
    ∀ cells ∈ plan.cells, ∀ cell ∈ cells, cell.Writable := by
  intro cells hcells cell hcell
  obtain ⟨parts, hparts, rfl⟩ := List.mem_map.1 hcells
  obtain ⟨column, -, rfl⟩ := List.mem_map.1 hcell
  obtain ⟨planned, hplanned, hplan⟩ := bind_eq_ok.1 h
  cases hplan
  obtain ⟨payload, hpayload, hentries⟩ := exists_of_mem_results hplanned hparts
  unfold cellAt
  split
  · rename_i name found hfound
    have hmem := List.mem_reverse.1 (List.mem_of_find?_eq_some hfound)
    obtain ⟨part, hpart, hfilled⟩ := List.mem_filterMap.1 hmem
    obtain ⟨⟨key, entry⟩, hentry, hof⟩ := exists_of_mem_results hentries hpart
    cases part with
    | skipped | after => cases hfilled
    | before relation data =>
      cases hfilled
      exact Cell.writable_pending
    | cell column value =>
      cases hfilled
      cases RowPart.ofEntry_eq_ok.1 hof with
      | @cell _ term =>
        refine Cell.writable_value fun fragment hfragment ↦ ?_
        have hraw := plain payload hpayload _ term hentry
        cases term with
        | raw other => exact hraw other rfl
        | literal | column => cases hfragment
  · exact Cell.writable_default

namespace Query

/-- An insertion that hands back columns, declares nothing and reacts to nothing can be written
around its rows. -/
theorem framed_of_plain {query : Query} {columns : List String} {source : InsertSource Statement}
    (verb : query.clauses.verb = .insert ⟨columns, source, none⟩)
    (filter : query.clauses.filter = .unset) (commonTables : query.clauses.commonTables = [])
    (selection : ∀ item ∈ query.clauses.selection, ∃ reference, item = .ofColumn reference) :
    query.Framed := by
  have hitems (items : List (SelectItem Statement))
      (h : ∀ item ∈ items, ∃ reference, item = .ofColumn reference) (qualifier : Qualifier) :
      ∃ codes, SelectItem.codes qualifier (Statement.foldItems Clauses.code items) = .ok codes := by
    induction items with
    | nil => exact ⟨[], rfl⟩
    | cons item rest ih =>
      rw [List.forall_mem_cons] at h
      obtain ⟨reference, rfl⟩ := h.1
      obtain ⟨others, hothers⟩ := ih h.2
      exact ⟨_, mapM_eq_ok_cons.2 ⟨_, others, rfl, hothers, rfl⟩⟩
  unfold Framed
  rw [Statement.foldClauses_eq, verb, filter, commonTables]
  refine ⟨⟨_, rfl⟩, fun other hother ↦ ?_, ?_⟩
  · cases hother
    exact ⟨_, rfl⟩
  · unfold Clauses.returningCode
    split
    · exact ⟨_, rfl⟩
    · obtain ⟨codes, hcodes⟩ := hitems query.clauses.selection selection
        (Statement.foldClauses Clauses.code query.clauses).qualifier
      simp only [Statement.foldClauses_eq, verb, filter, commonTables] at hcodes ⊢
      rw [hcodes]
      simp only [bind, Except.bind, pure, Except.pure]
      split <;> exact ⟨_, rfl⟩

/-- What stands around the rows can be written where they are inserted by a query that declares
nothing and selects columns. -/
theorem Starts.framed {query inserted : Query} {rows : List Payload}
    (h : query.Starts rows inserted) (commonTables : query.clauses.commonTables = [])
    (selection : ∀ item ∈ query.clauses.selection, ∃ reference, item = .ofColumn reference) :
    inserted.Framed := by
  obtain ⟨-, table, plan, many, -, -, -, -, rfl⟩ := h.exists_planned
  refine framed_of_plain rfl rfl commonTables fun item hitem ↦ ?_
  simp only [planned, modify] at hitem
  split at hitem
  · cases hitem
  · exact selection item hitem

/-- A planned insertion can be written if what it writes around its rows can be, and no payload
holds a fragment. -/
theorem writable_of_plans {query : Query} {table : Table} {payloads : List Payload}
    {plan : RowPlan} (plans : query.Plans table payloads plan)
    (plain : ∀ payload ∈ payloads, payload.Plain)
    (narrow : plan.columns.isEmpty → payloads.length ≤ 1) (framed : query.Framed) :
    query.Writable := by
  obtain ⟨conflict, hverb⟩ := plans.verb
  refine (writable_iff hverb).2 ⟨framed, ⟨table, plans.target⟩, ?_⟩
  split
  · rename_i hempty
    rw [RowPlan.cells, List.length_map, ← (RowPlan.rows_ofPayloads plans.planned).length_eq]
    exact narrow hempty
  · exact RowPlan.writable_cells plans.planned plain

end Query

end SqlComposer
