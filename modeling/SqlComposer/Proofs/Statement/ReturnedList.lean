import SqlComposer.Proofs.Statement.FoldedClauses
import SqlComposer.Proofs.Statement.WrittenChanges

/-!
# What a statement hands back

A selection hands back its SELECT list, a change its RETURNING list. Either is a star or a list of
items; without a selection, it depends on the table, on what is read and on the statement which of
them it is. The list stands behind SELECT or behind all else, and it is written from the clauses
alone, whatever the sub-queries in them are.
-/

namespace SqlComposer

variable {Sub Other : Type}

/-- What a SELECT list or a RETURNING list consists of. -/
inductive Listing (Sub : Type) where
  /-- All columns, written as a star. -/
  | all
  | items (items : List (SelectItem Sub))

namespace Listing

def map (f : SelectItem Sub → SelectItem Other) : Listing Sub → Listing Other
  | all => all
  | items selected => items (selected.map f)

end Listing

namespace Clauses

/-- The visible columns, which stand for an empty selection if the table hides some. -/
def visible? (clauses : Clauses Sub) : Option (List String) :=
  match clauses.table, clauses.source with
  | some table, .table => if clauses.selectsAll then none else table.defaultSelection
  | _, _ => none

/-- What a selection hands back. -/
def selected (clauses : Clauses Sub) : Listing Sub :=
  if clauses.selection.isEmpty then
    match clauses.visible? with
    | some columns => .items (columns.map fun column ↦ .ofColumn (.unqualified column))
    | none => .all
  else .items clauses.selection

/-- What a change hands back besides the columns that related rows refer to, `rows` being whether
it hands back rows anyway. -/
def returned (clauses : Clauses Sub) (rows : Bool) : Listing Sub :=
  if clauses.selection.isEmpty && (clauses.selectsAll || rows) then .all
  else .items clauses.selection

/-- What a statement hands back. -/
def listing (clauses : Clauses Sub) : Listing Sub :=
  match clauses.verb with
  | .select => clauses.selected
  | .insert _ => clauses.returned clauses.shape.returnsRows
  | .update _ | .delete => clauses.returned false
  | .truncate _ | .copy _ | .describe _ => .items []

/-! ## The text of the list -/

/-- All columns of a selection, written. -/
def starCode (clauses : Clauses Written) : Code :=
  match clauses.qualifier with
  | some qualifier => [qualifier, .word ".*"]
  | none => [.word "*"]

/-- The SELECT list of a selection, written. -/
def selectedCode (clauses : Clauses Written) : Listing Written → Written
  | .all => .ok clauses.starCode
  | .items items => do return Code.separated ", " (← SelectItem.codes clauses.qualifier items)

/-- The RETURNING list of a change, written, with the columns that related rows refer to. -/
def returnedCode (clauses : Clauses Written) : Listing Written → Written
  | .all => .ok [.word " RETURNING *"]
  | .items items => do
    let items ← SelectItem.codes clauses.qualifier items
    let columns := clauses.readBack.map fun column ↦
      (ColumnRef.unqualified column).code clauses.qualifier
    if items.isEmpty && columns.isEmpty then return []
    return [.word " RETURNING ", .itemsThenMissing items columns]

/-- What a statement hands back, written. -/
def listCode (clauses : Clauses Written) (listing : Listing Written) : Written :=
  if clauses.verb.isMutation then clauses.returnedCode listing else clauses.selectedCode listing

theorem codes_columns (qualifier : Qualifier) (columns : List String) :
    SelectItem.codes qualifier (columns.map fun column ↦ .ofColumn (.unqualified column)) =
      .ok (columns.map fun column ↦ (ColumnRef.unqualified column).code qualifier) := by
  induction columns with
  | nil => rfl
  | cons column rest ih =>
    refine mapM_eq_ok_cons.2 ⟨(ColumnRef.unqualified column).code qualifier, _, ?_, ih, rfl⟩
    simp [SelectItem.code, SelectItem.ofColumn, SelectItem.writtenName?, SelectItem.expressionCode,
      bind, Except.bind, pure, Except.pure]

/-- Without items, the visible columns are listed, or the star stands for all. -/
theorem defaultProjection_eq (clauses : Clauses Written) :
    clauses.defaultProjection = match clauses.visible? with
      | some columns => ColumnRef.listCode (columns.map ColumnRef.unqualified) clauses.qualifier
      | none => clauses.starCode := by
  unfold defaultProjection visible? starCode
  generalize clauses.qualifier = qualifier
  cases clauses.table with
  | none => cases qualifier <;> rfl
  | some table =>
    cases clauses.source with
    | body body => cases qualifier <;> rfl
    | table =>
      dsimp only
      generalize (if clauses.selectsAll then none else table.defaultSelection) = visible
      cases visible <;> cases qualifier <;> rfl

theorem projectionCode_eq (clauses : Clauses Written) :
    clauses.projectionCode = clauses.selectedCode clauses.selected := by
  unfold projectionCode selected
  split
  · rw [defaultProjection_eq]
    cases clauses.visible? with
    | none => rfl
    | some columns =>
      simp only [selectedCode, codes_columns, ColumnRef.listCode, List.map_map]
      rfl
  · rfl

theorem returningCode_eq (clauses : Clauses Written) (mutation : clauses.verb.isMutation) :
    clauses.returningCode = clauses.returnedCode clauses.listing := by
  have hrows (rows : Bool) (h : clauses.returnsAll =
      (clauses.selection.isEmpty && (clauses.selectsAll || rows))) :
      clauses.returningCode = clauses.returnedCode (clauses.returned rows) := by
    unfold returningCode returned
    rw [h]
    split <;> rfl
  unfold listing
  cases hverb : clauses.verb with
  | insert insertion => exact hrows _ (by simp [returnsAll, hverb])
  | update assignments => exact hrows false (by simp [returnsAll, hverb])
  | delete => exact hrows false (by simp [returnsAll, hverb])
  | _ => simp [hverb, Verb.isMutation] at mutation

/-- The code in front of and behind what a statement hands back. A whole SELECT list stands between
SELECT and what is read from, a whole RETURNING list behind all else. Statements that neither select
nor change rows have no list. -/
inductive Around (clauses : Clauses Written) (list : Code) : Code → Code → Prop
  | selection {declarations source rest : Code} (verb : clauses.verb = .select)
      (declared : CommonTable.declarations clauses.commonTables = .ok declarations)
      (projected : clauses.projectionCode = .ok list) (read : clauses.sourceCode = .ok source) :
      Around clauses list (declarations ++ .word "SELECT " :: clauses.distinctCode) (source ++ rest)
  | change {before : Code} (verb : clauses.verb.isMutation)
      (returned : clauses.returningCode = .ok list) : Around clauses list before []
  | other {before : Code} (verb : clauses.verb ≠ .select) (unchanged : ¬clauses.verb.isMutation)
      (empty : list = []) : Around clauses list before []

/-- What a statement hands back is the whole list in its code. -/
theorem exists_around_list {clauses : Clauses Written} {code : Code}
    (h : clauses.code = .ok code) : ∃ before list after : Code,
      clauses.listCode clauses.listing = .ok list ∧ clauses.Around list before after ∧
        code = before ++ list ++ after := by
  obtain ⟨declarations, change, hdeclared, hchange, rfl⟩ := code_eq_ok h
  have hreturned {code returning : Code} (mutation : clauses.verb.isMutation)
      (hreturning : clauses.returningCode = .ok returning) (hcode : change = code ++ returning) :
      ∃ before list after : Code, clauses.listCode clauses.listing = .ok list ∧
        clauses.Around list before after ∧ declarations ++ change = before ++ list ++ after := by
    refine ⟨declarations ++ code, returning, [], ?_, .change mutation hreturning, by simp [hcode]⟩
    rw [listCode, if_pos mutation, ← returningCode_eq clauses mutation, hreturning]
  cases hverb : clauses.verb with
  | select =>
    simp only [verbCode, hverb, selectCode, bind_eq_ok, pure_eq_ok] at hchange
    obtain ⟨list, hprojection, source, hsource, _, -, _, -, _, -, _, -, _, -, _, -, _, -, _, -,
      rfl⟩ := hchange
    have hlist : clauses.listCode clauses.listing = .ok list := by
      rw [listCode, hverb, listing, hverb, ← hprojection, projectionCode_eq]
      rfl
    simp only [List.append_assoc, List.cons_append]
    exact ⟨_, list, _, hlist, .selection hverb hdeclared hprojection hsource, by
      simp only [List.append_assoc, List.cons_append]; rfl⟩
  | insert insertion =>
    obtain ⟨_, _, _, -, -, hreturning, hcode⟩ := insert_eq_ok hverb hchange
    exact hreturned (by rw [hverb]; rfl) hreturning hcode
  | update assignments =>
    obtain ⟨_, _, _, -, -, hreturning, hcode⟩ := update_eq_ok hverb hchange
    exact hreturned (by rw [hverb]; rfl) hreturning hcode
  | delete =>
    obtain ⟨_, _, _, -, -, hreturning, hcode⟩ := delete_eq_ok hverb hchange
    exact hreturned (by rw [hverb]; rfl) hreturning hcode
  | truncate | copy | describe =>
    refine ⟨declarations ++ change, [], [], ?_, .other (by simp [hverb])
      (by simp [hverb, Verb.isMutation]) rfl, by simp⟩
    simp [listCode, listing, hverb, Verb.isMutation, selectedCode, SelectItem.codes,
      Code.separated]

/-- Folding replaces the sub-queries of what is handed back. -/
theorem listing_fold {Result : Type} (step : Clauses Result → Result)
    (clauses : Clauses Statement) : (Statement.foldClauses step clauses).listing =
      clauses.listing.map (Statement.foldItem step) := by
  have hvisible : (Statement.foldClauses step clauses).visible? = clauses.visible? := by
    simp only [visible?, Statement.table_fold, Statement.source_fold, Statement.selectsAll_fold]
    cases clauses.table <;> cases clauses.source <;> rfl
  have hselected : (Statement.foldClauses step clauses).selected =
      clauses.selected.map (Statement.foldItem step) := by
    simp only [selected, hvisible, Statement.selection_fold, List.isEmpty_map]
    split
    · cases clauses.visible? with
      | none => rfl
      | some columns => simp [Listing.map, SelectItem.ofColumn, Statement.foldItem,
          Statement.foldExpr]
    · rfl
  have hreturned (rows : Bool) : (Statement.foldClauses step clauses).returned rows =
      (clauses.returned rows).map (Statement.foldItem step) := by
    simp only [returned, Statement.selection_fold, List.isEmpty_map, Statement.selectsAll_fold]
    split <;> rfl
  simp only [listing, Statement.verb_fold, hselected, hreturned, Statement.shape_fold]
  cases clauses.verb <;> rfl

end Clauses
end SqlComposer
