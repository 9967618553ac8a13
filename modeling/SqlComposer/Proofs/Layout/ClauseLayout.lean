import SqlComposer.Proofs.Insertion.EmbeddedInsertions
import SqlComposer.Proofs.Layout.ConditionLayout

/-!
# Clauses that are laid out

Clauses are laid out if the statements in them are, and their lists have elements but for four: the
columns on which an insertion may be in conflict, the values that a merge sets, the columns of an
insertion from a fragment, and the tables that a lock is for. These are written as they are given.
-/

namespace SqlComposer

open Code (Laid Element Whole)

variable {full : Prop} {top : Bool} {owner : Option String} {code : Code}

/-! ## Names -/

namespace Code

theorem laid_aliased (label : String) : Laid full top (aliased label) := .plains rfl

theorem laid_renamed (name : String) (label : Option String) :
    Laid full top (renamed name label) := by
  unfold renamed
  split
  · split
    · exact .nil
    · exact laid_aliased _
  · exact .nil

theorem element_table (schema : Option String) (name : String) :
    Element full top (table schema name) := by
  cases schema with
  | none => exact .name name
  | some schema => exact .cons rfl rfl (.plains rfl)

/-- Names in brackets, if there are any. -/
theorem laid_columns (columns : List String) : Laid full top
    (if columns.isEmpty then [] else parenthesized (nameList columns)) := by
  split
  · exact .nil
  · rename_i hsome
    have hnames : Element full false (nameList columns) :=
      .nameList fun _ ↦ by simpa using hsome
    exact hnames.bracketed.laid

end Code

/-! ## Sources -/

/-- The body of a declared table is an element. -/
theorem Body.element {body : Body Written} (fills : ∀ fragment, body = .raw fragment →
      fragment.Fills full) (whole : ∀ sub, body = .query sub → Whole full sub)
    (h : body.code = .ok code) : Element full false code := by
  cases body with
  | query sub => exact whole sub rfl code h
  | raw fragment => exact fragment.element (fills fragment rfl) h

theorem JoinTarget.element {target : JoinTarget Written}
    (whole : ∀ sub label, target = .query sub label → Whole full sub)
    (h : target.code = .ok code) : Element full top code := by
  cases target with
  | table name schema label =>
    cases h
    exact (Code.element_table schema name).append (Code.laid_renamed name label)
  | query sub label =>
    obtain ⟨inner, hinner, hcode⟩ := bind_eq_ok.1 h
    rw [← pure_eq_ok.1 hcode]
    exact (whole sub label rfl inner hinner).bracketed.append (Code.laid_aliased label)

/-- A join is laid out. -/
theorem Join.laid {join : Join Written}
    (checked : join.condition.Checked (Fragment.Fills full) fun _ ↦ True)
    (target : ∀ sub label, join.target = .query sub label → Whole full sub)
    (on : join.kind ≠ .cross → ∀ sub, join.condition.Embeds sub → Whole full sub)
    (h : join.code = .ok code) : Laid full top code := by
  obtain ⟨kind, joined, condition⟩ := join
  have hspaced {written behind : Code} (hwritten : joined.code = .ok written)
      (hbehind : Laid full top behind) :
      Laid full top (.word kind.toSql :: .word " " :: written ++ behind) :=
    .word (by cases kind <;> decide) (.word (by decide)
      ((JoinTarget.element target hwritten).laid.append hbehind))
  simp only [Join.code] at h
  by_cases hcross : kind = .cross
  · subst hcross
    simp only [↓reduceIte, bind_eq_ok, pure_bind, pure_eq_ok] at h
    obtain ⟨written, hwritten, rfl⟩ := h
    exact hspaced hwritten .nil
  · simp only [hcross, ↓reduceIte, Condition.code?, Join.qualifier, bind_assoc, bind_eq_ok,
      pure_bind, pure_eq_ok] at h
    obtain ⟨written, hwritten, formula, hformula, rfl⟩ := h
    have hwhole : formula.Whole full := Condition.whole_formula
      (some joined.aliasName) checked (on hcross) hformula
    refine hspaced hwritten (.word (by decide) ?_)
    cases hcode : formula.code? with
    | none => exact .plains rfl
    | some condition => exact (hwhole.element hcode).laid

namespace CommonTable

/-- A declared table is an element. -/
theorem element {declared : CommonTable Written}
    (fills : ∀ fragment, declared.body = .raw fragment → fragment.Fills full)
    (whole : ∀ sub, declared.body = .query sub → Whole full sub)
    (h : declared.code = .ok code) : Element full top code := by
  simp only [CommonTable.code, bind_eq_ok, pure_eq_ok] at h
  obtain ⟨inner, hinner, rfl⟩ := h
  have hbody : Laid full top (Code.parenthesized inner) :=
    (Body.element fills whole hinner).bracketed.laid
  rw [List.append_assoc, List.cons_append]
  refine .cons rfl rfl ((Code.laid_columns declared.columns).append
    (.word (by decide) (Laid.append ?_ hbody)))
  split <;> exact .plains rfl

/-- The declarations are laid out. -/
theorem laid_declarations {declared : List (CommonTable Written)}
    (fills : ∀ table ∈ declared, ∀ fragment, table.body = .raw fragment → fragment.Fills full)
    (whole : ∀ table ∈ declared, ∀ sub, table.body = .query sub → Whole full sub)
    (h : declarations declared = .ok code) : Laid full top code := by
  simp only [declarations] at h
  split at h
  · cases h
    exact .nil
  · rename_i hsome
    obtain ⟨codes, hcodes, hcode⟩ := bind_eq_ok.1 h
    rw [← pure_eq_ok.1 hcode]
    have hitems : Element full top (Code.separated ", " codes) :=
      .mapM (fun _ ↦ by simpa using hsome)
        (fun table htable _ ↦ element (fills table htable) (whole table htable))
        (bind_eq_ok.2 ⟨codes, hcodes, rfl⟩)
    have hmarked : Element full top
        ((if declared.any CommonTable.recursive then [Piece.word "RECURSIVE "] else []) ++
          Code.separated ", " codes) := by
      split
      · exact ⟨hitems.list (by decide), fun _ ↦ rfl⟩
      · exact hitems
    exact (hmarked.list (by decide)).append (.plains rfl)

/-- The declarations are nothing, or start an element. -/
theorem begins_declarations {declared : List (CommonTable Written)} {rest : Code}
    (h : declarations declared = .ok code) (begins : rest.begins) : (code ++ rest).begins := by
  simp only [declarations] at h
  split at h
  · cases h
    exact begins
  · obtain ⟨codes, -, hcode⟩ := bind_eq_ok.1 h
    rw [← pure_eq_ok.1 hcode]
    rfl

end CommonTable

/-- A combination is laid out. -/
theorem Combination.laid {combination : Combination Written}
    (fills : ∀ fragment, combination.operand = .raw fragment → fragment.Fills full)
    (whole : ∀ sub, combination.operand = .query sub → Whole full sub)
    (h : combination.code = .ok code) : Laid full false code := by
  simp only [Combination.code, bind_eq_ok, pure_eq_ok] at h
  obtain ⟨operand, hoperand, rfl⟩ := h
  have helement := Body.element fills whole hoperand
  refine (Laid.operation (Code.operation_mem _)).append (.word (by decide) ?_)
  split
  · exact helement.bracketed.laid
  · exact helement.laid

/-! ## Selected items -/

/-- A selected item is an element. -/
theorem SelectItem.element {item : SelectItem Written} (owner : Option String)
    (checked : item.expression.Checked (Fragment.Fills full) fun _ ↦ True)
    (whole : ∀ sub, item.expression = .query sub → Whole full sub)
    (h : item.code (owner.map .name) = .ok code) : Element full top code := by
  simp only [SelectItem.code, bind_eq_ok, pure_eq_ok] at h
  obtain ⟨written, hwritten, rfl⟩ := h
  refine Element.append ?_ ?_
  · cases hexpression : item.expression with
    | column reference =>
      rw [hexpression] at hwritten
      cases hwritten
      exact reference.element owner
    | raw fragment =>
      rw [hexpression] at checked hwritten
      exact fragment.element checked hwritten
    | query sub =>
      rw [hexpression] at hwritten
      obtain ⟨inner, hinner, hcode⟩ := bind_eq_ok.1 hwritten
      rw [← pure_eq_ok.1 hcode]
      exact (whole sub hexpression inner hinner).bracketed
    | json expression =>
      rw [hexpression] at hwritten
      cases hwritten
      exact expression.element owner
    | term value =>
      rw [hexpression] at checked hwritten
      exact Term.element owner checked hwritten
    | count argument =>
      rw [hexpression] at hwritten
      cases hwritten
      exact .call (by decide) (ColumnRef.laid_argument argument owner (.plains rfl))
    | window call =>
      rw [hexpression] at checked hwritten
      exact WindowCall.element checked hwritten
  · split
    · exact Code.laid_aliased _
    · exact .nil

/-! ## Changes -/

theorem Assignment.element {assignment : Assignment}
    (checked : assignment.Checked (Fragment.Fills full)) (h : assignment.code = .ok code) :
    Element full top code := by
  have hto {word : String} {term : Term} (plain : Code.isPlainWord word)
      (checked : term.Checked (Fragment.Fills full)) {written : Code}
      (hwritten : term.code none = .ok written) : Laid full top (.word word :: written) :=
    .word plain (Term.element none checked hwritten).laid
  cases assignment with
  | raw fragment => exact fragment.element checked h
  | set column value =>
    obtain ⟨written, hwritten, hcode⟩ := bind_eq_ok.1 h
    rw [← pure_eq_ok.1 hcode]
    exact .cons rfl rfl (hto (by decide) checked hwritten)
  | increment column amount | decrement column amount =>
    obtain ⟨written, hwritten, hcode⟩ := bind_eq_ok.1 h
    rw [← pure_eq_ok.1 hcode]
    exact .cons rfl rfl (.word (by decide) (.cons rfl (hto (by decide) checked hwritten)))

/-- An update sets something: an empty list is refused. -/
theorem Assignment.element_list {assignments : List Assignment} {stamped : Option String}
    (checked : ∀ assignment ∈ assignments, assignment.Checked (Fragment.Fills full))
    (h : listCode assignments stamped = .ok code) : Element full top code := by
  simp only [listCode, refusing_eq_ok, bind_eq_ok, pure_eq_ok] at h
  obtain ⟨hsome, items, hitems, rfl⟩ := h
  refine .commas (fun _ hnone ↦ hsome ?_) fun code hcode ↦ ?_
  · rw [List.append_eq_nil_iff] at hnone
    obtain ⟨rfl, hstamp⟩ := hnone
    have hlength := (forall₂_of_mapM hitems).length_eq
    cases stamped with
    | none => simpa using hlength
    | some column => cases hstamp
  · rcases List.mem_append.1 hcode with hcode | hcode
    · obtain ⟨assignment, hassignment, hwritten⟩ := exists_of_mem_results hitems hcode
      exact element (checked assignment hassignment) hwritten
    · obtain ⟨column, -, rfl⟩ := Option.map_eq_some_iff.1 (Option.mem_toList.1 hcode)
      exact .cons rfl rfl (.plains rfl)

theorem Cell.element {cell : Cell} (checked : cell.Checked (Fragment.Fills full))
    (h : cell.code = .ok code) : Element full top code := by
  cases cell with
  | value term => exact Term.element none checked h
  | default | pending =>
    cases h
    exact .cons (by decide) (by decide) .nil

theorem Cell.element_row {row : List Cell} (some : full → row ≠ [])
    (checked : ∀ cell ∈ row, cell.Checked (Fragment.Fills full))
    (h : rowCode row = .ok code) : Element full top code := by
  obtain ⟨codes, hcodes, hcode⟩ := bind_eq_ok.1 h
  rw [← pure_eq_ok.1 hcode]
  have hcells : Element full false (Code.separated ", " codes) :=
    .mapM some (fun cell hcell _ ↦ element (checked cell hcell))
      (bind_eq_ok.2 ⟨codes, hcodes, rfl⟩)
  exact hcells.bracketed

/-! ## Lists that are written as they are given -/

def ConflictTarget.isHollow : ConflictTarget → Bool
  | .columns names => names.isEmpty
  | .raw _ | .inferred => false

def MergeSpec.isHollow : MergeSpec → Bool
  | .values assigned => assigned.isEmpty
  | .inserted | .columns _ | .raw _ => false

def Conflict.isHollow (conflict : Conflict) : Bool :=
  conflict.target.isHollow ||
    match conflict.action with
    | .ignore => false
    | .merge spec => spec.isHollow

/-- Whether a list of an insertion that is written as it was given is empty. -/
def Insertion.isHollow {Sub : Type} (insertion : Insertion Sub) : Bool :=
  (match insertion.source with
    | .raw _ => insertion.columns.isEmpty
    | .rows _ | .query _ => false) ||
  insertion.conflict.any Conflict.isHollow

def RowLock.isHollow (lock : RowLock) : Bool :=
  match lock.tables with
  | some (.names tables) => tables.isEmpty
  | some (.raw _) | none => false

/-- The target of a conflict is laid out, if it lists something. -/
theorem ConflictTarget.laid {target : ConflictTarget}
    (checked : target.Checked (Fragment.Fills full)) (given : full → target.isHollow = false)
    (h : target.code = .ok code) : Laid full top code := by
  cases target with
  | columns names =>
    cases h
    have hnames : Element full false (Code.nameList names) :=
      .nameList fun hfull ↦ by simpa [isHollow] using given hfull
    exact .word (by decide) hnames.bracketed.laid
  | raw fragment =>
    obtain ⟨written, hwritten, hcode⟩ := bind_eq_ok.1 h
    rw [← pure_eq_ok.1 hcode]
    exact .word (by decide) (fragment.element checked hwritten).laid
  | inferred =>
    cases h
    exact .nil

namespace MergeSpec

/-- A merge of inserted columns that names none is refused. -/
private theorem element_inserted {columns : List String} (h : insertedCode columns = .ok code) :
    Element full top code := by
  unfold insertedCode at h
  split at h
  · cases h
  · rename_i hsome
    cases h
    refine .commas (fun _ hnone ↦ hsome (by simpa using hnone)) fun code hcode ↦ ?_
    obtain ⟨column, -, rfl⟩ := List.mem_map.1 hcode
    exact .cons rfl rfl (.plains rfl)

/-- The list of what a merge sets is an element, if it sets something. -/
theorem element {spec : MergeSpec} {inserted : List String}
    (checked : spec.Checked (Fragment.Fills full)) (given : full → spec.isHollow = false)
    (h : spec.code inserted = .ok code) : Element full top code := by
  cases spec with
  | inserted => exact element_inserted h
  | columns names => exact element_inserted h
  | values assigned =>
    refine .mapM (fun hfull ↦ by simpa [isHollow] using given hfull)
      (fun value hvalue written hwritten ↦ ?_) h
    obtain ⟨term, hterm, hcode⟩ := bind_eq_ok.1 hwritten
    rw [← pure_eq_ok.1 hcode]
    exact .cons rfl rfl (.word (by decide)
      (Term.element none (checked value hvalue) hterm).laid)
  | raw fragment => exact fragment.element checked h

end MergeSpec

/-- The reaction to a conflict is laid out. -/
theorem Conflict.laid {conflict : Conflict} {inserted : List String} {filter : Filter Written}
    (checked : conflict.Checked (Fragment.Fills full))
    (restricts : filter.condition.Checked (Fragment.Fills full) fun _ ↦ True)
    (whole : ∀ sub, filter.condition.Embeds sub → Whole full sub)
    (given : full → conflict.isHollow = false)
    (h : conflict.code inserted filter (owner.map .name) = .ok code) : Laid full top code := by
  obtain ⟨target, action⟩ := conflict
  have hon {written rest : Code} (hwritten : target.code = .ok written)
      (hrest : Laid full top rest) : Laid full top (.word " ON CONFLICT" :: written ++ rest) := by
    refine .word (by decide) (.append ?_ hrest)
    refine ConflictTarget.laid checked.1 (fun hfull ↦ ?_) hwritten
    have hconflict := given hfull
    rw [isHollow, Bool.or_eq_false_iff] at hconflict
    exact hconflict.1
  cases action with
  | ignore =>
    simp only [Conflict.code, bind_eq_ok, refusing_eq_ok, pure_eq_ok] at h
    obtain ⟨written, hwritten, _, rfl⟩ := h
    exact hon hwritten (.plains rfl)
  | merge spec =>
    simp only [Conflict.code, Filter.code?, Condition.code?, bind_assoc, bind_eq_ok, pure_bind,
      pure_eq_ok] at h
    obtain ⟨written, hwritten, values, hvalues, formula, hformula, rfl⟩ := h
    have hspec : Element full top values := by
      refine MergeSpec.element checked.2 (fun hfull ↦ ?_) hvalues
      have hconflict := given hfull
      rw [isHollow, Bool.or_eq_false_iff] at hconflict
      exact hconflict.2
    have hwhole := Condition.whole_formula owner restricts whole hformula
    rw [List.append_assoc]
    refine hon hwritten ((hspec.list (by decide)).append ?_)
    split
    · rename_i condition hcode
      exact .word (by decide) (hwhole.element hcode).laid
    · exact .nil

namespace Insertion

/-- The lists that an insertion brings along itself have elements: a row has a cell for every
column, and the columns of a query have names. -/
structure Regular {Sub : Type} (insertion : Insertion Sub) : Prop where
  width : ∀ {rows}, insertion.source = .rows rows →
    ∀ cells ∈ rows, cells.length = insertion.columns.length
  sourced : ∀ {sub}, insertion.source = .query sub → insertion.columns ≠ []

variable {insertion : Insertion Written}

/-- The source of a regular insertion is laid out. -/
theorem laid_source (checked : insertion.source.Checked (Fragment.Fills full) fun _ ↦ True)
    (whole : ∀ sub, insertion.source = .query sub → Whole full sub)
    (regular : full → insertion.Regular) (given : full → insertion.isHollow = false)
    (h : insertion.sourceCode = .ok code) : Laid full false code := by
  obtain ⟨columns, source, conflict⟩ := insertion
  have hcolumns (some : full → columns ≠ []) :
      Laid full false (Code.parenthesized (Code.nameList columns)) :=
    (Element.nameList some).bracketed.laid
  cases source with
  | rows rows =>
    simp only [sourceCode] at h
    split at h
    · simp only [refusing_eq_ok, pure_eq_ok] at h
      obtain ⟨_, rfl⟩ := h
      exact .plains rfl
    · rename_i hsome
      have hsome : columns ≠ [] := by simpa using hsome
      obtain ⟨written, hwritten, hcode⟩ := bind_eq_ok.1 h
      rw [← pure_eq_ok.1 hcode]
      refine (hcolumns fun _ ↦ hsome).append (.word (by decide)
        (.separated (by decide) fun code hcode ↦ ?_))
      obtain ⟨row, hrow, hcells⟩ := exists_of_mem_results hwritten hcode
      refine (Cell.element_row (fun hfull hnone ↦ hsome ?_) (checked row hrow) hcells).laid
      have hwidth := (regular hfull).width rfl row hrow
      rw [hnone] at hwidth
      exact List.length_eq_zero_iff.1 hwidth.symm
  | raw fragment =>
    simp only [sourceCode, bind_eq_ok, pure_eq_ok] at h
    obtain ⟨written, hwritten, rfl⟩ := h
    refine (hcolumns fun hfull ↦ ?_).append
      (.word (by decide) (fragment.element checked hwritten).laid)
    have hinsertion := given hfull
    rw [isHollow, Bool.or_eq_false_iff] at hinsertion
    simpa using hinsertion.1
  | query sub =>
    simp only [sourceCode, bind_eq_ok, pure_eq_ok] at h
    obtain ⟨written, hwritten, rfl⟩ := h
    exact (hcolumns fun hfull ↦ (regular hfull).sourced rfl).append
      (.word (by decide) (whole sub rfl written hwritten).laid)

/-- A regular insertion is an element. -/
theorem element {filter : Filter Written} {target : Code} (owner : Option String)
    (checked : insertion.Checked (Fragment.Fills full) fun _ ↦ True)
    (restricts : filter.condition.Checked (Fragment.Fills full) fun _ ↦ True)
    (source : ∀ sub, insertion.source = .query sub → Whole full sub)
    (filters : ∀ sub, filter.condition.Embeds sub → Whole full sub)
    (regular : full → insertion.Regular) (given : full → insertion.isHollow = false)
    (htarget : Laid full false target)
    (h : insertion.code target filter (owner.map .name) = .ok code) :
    Element full false code := by
  unfold Insertion.code at h
  obtain ⟨written, hwritten, h⟩ := bind_eq_ok.1 h
  have hinto {behind : Code} (hbehind : Laid full false behind) :
      Element full false (.word "INSERT INTO " :: target ++ written ++ behind) :=
    .cons (by decide) rfl
      ((htarget.append (laid_source checked.1 source regular given hwritten)).append hbehind)
  split at h
  · rename_i conflict hconflict
    obtain ⟨reaction, hreaction, hcode⟩ := bind_eq_ok.1 h
    rw [← pure_eq_ok.1 hcode]
    refine hinto (Conflict.laid (checked.2 conflict hconflict) restricts filters
      (fun hfull ↦ ?_) hreaction)
    have hinsertion := given hfull
    rw [isHollow, Bool.or_eq_false_iff, hconflict] at hinsertion
    exact hinsertion.2
  · simp only [refusing_eq_ok, pure_bind, pure_eq_ok] at h
    obtain ⟨_, rfl⟩ := h
    exact hinto .nil

end Insertion

/-! ## Locks -/

/-- What a lock does about rows that are locked already. -/
def RowLock.waitCode (wait : Option LockWait) : Code :=
  match wait with
  | some wait => [.word " ", .word wait.toSql]
  | none => []

theorem RowLock.laid_wait (wait : Option LockWait) : Laid full top (waitCode wait) := by
  rcases wait with _ | _ | _ <;> exact .plains rfl

theorem RowLock.laid {lock : RowLock} (checked : lock.Checked (Fragment.Fills full))
    (given : full → lock.isHollow = false) (h : lock.code = .ok code) : Laid full top code := by
  obtain ⟨strength, tables, wait⟩ := lock
  have hlock {named : Code} (hnamed : Laid full top named) :
      Laid full top (.word "FOR " :: .word strength.toSql :: named ++ waitCode wait) :=
    .word (by decide) (.word (by cases strength <;> decide) (hnamed.append (laid_wait wait)))
  have hof : " OF " ∈ Code.listWords := by decide
  match tables with
  | none =>
    simp only [RowLock.code, pure_bind, pure_eq_ok] at h
    rw [← h]
    exact hlock .nil
  | some (.names tables) =>
    simp only [RowLock.code, pure_bind, pure_eq_ok] at h
    rw [← h]
    have hnames : Element full top (Code.nameList tables) :=
      .nameList fun hfull ↦ by simpa [isHollow] using given hfull
    exact hlock (.list hof hnames.laid hnames.begins)
  | some (.raw fragment) =>
    simp only [RowLock.code, bind_eq_ok, pure_bind, pure_eq_ok] at h
    obtain ⟨inner, hinner, rfl⟩ := h
    have hinner : Element full top inner := fragment.element checked hinner
    exact hlock (.list hof hinner.laid hinner.begins)

/-! ## Bulk statements -/

theorem TruncateOptions.laid (options : TruncateOptions) {table : Code}
    (htable : Laid full top table) : Laid full top (options.code table) := by
  refine ((Laid.word (by decide) htable).append ?_).append ?_ <;>
  · split
    · exact .plains rfl
    · exact .nil

namespace CopyOptions

private theorem element_text (name : String) (plain : Code.isPlainWord name)
    (begins : Code.begins [.word name]) (value : Option String) :
    ∀ code ∈ textOption name value, Element full false code := by
  cases value with
  | none => exact nofun
  | some value => exact List.forall_mem_singleton.2 (.cons plain begins (.plains rfl))

private theorem element_word (name : String) (plain : Code.isPlainWord name)
    (begins : Code.begins [.word name]) {value : Option String}
    (h : ∀ word ∈ value, Laid full false [.word word]) :
    ∀ code ∈ wordOption name value, Element full false code := by
  cases value with
  | none => exact nofun
  | some value =>
    exact List.forall_mem_singleton.2 (.cons plain begins (.word (by decide) (h value rfl)))

private theorem element_columns (name : String) (plain : Code.isPlainWord name)
    (begins : Code.begins [.word name]) (columns : List String) :
    ∀ code ∈ columnsOption name columns, Element full false code := by
  cases columns with
  | nil => exact nofun
  | cons column rest =>
    have hnames : Element full false (Code.nameList (column :: rest)) :=
      .nameList fun _ ↦ List.cons_ne_nil column rest
    exact List.forall_mem_singleton.2
      (.cons plain begins (.word (by decide) hnames.bracketed.laid))

private theorem element_items {options : CopyOptions} (checked : options.Checked) :
    ∀ code ∈ options.items, Element full false code := by
  have hfreeze : ∀ word ∈ options.freeze.map flagWord, Laid full false [.word word] := by
    intro word hword
    obtain ⟨value, -, rfl⟩ := Option.map_eq_some_iff.1 hword
    cases value <;> exact .plains rfl
  have hheader : ∀ word ∈ options.header.map headerWord, Laid full false [.word word] := by
    intro word hword
    obtain ⟨header, -, rfl⟩ := Option.map_eq_some_iff.1 hword
    rcases header with (_ | _) | _ <;> exact .plains rfl
  simp only [items, List.forall_mem_append]
  refine ⟨⟨⟨⟨⟨⟨⟨⟨⟨⟨?_, ?_⟩, ?_⟩, ?_⟩, ?_⟩, ?_⟩, ?_⟩, ?_⟩, ?_⟩, ?_⟩, ?_⟩
  · exact element_word "FORMAT" (by decide) (by decide) fun word hword ↦
      .format (checked word hword)
  · exact element_word "FREEZE" (by decide) (by decide) hfreeze
  · exact element_text "DELIMITER" (by decide) (by decide) _
  · exact element_text "NULL" (by decide) (by decide) _
  · exact element_word "HEADER" (by decide) (by decide) hheader
  · exact element_text "QUOTE" (by decide) (by decide) _
  · exact element_text "ESCAPE" (by decide) (by decide) _
  · exact element_columns "FORCE_QUOTE" (by decide) (by decide) _
  · exact element_columns "FORCE_NOT_NULL" (by decide) (by decide) _
  · exact element_columns "FORCE_NULL" (by decide) (by decide) _
  · exact element_text "ENCODING" (by decide) (by decide) _

theorem laid {options : CopyOptions} {table : Code} (checked : options.Checked)
    (htable : Laid full top table) : Laid full top (options.code table) := by
  have htarget : Laid full top options.targetCode := by
    unfold targetCode
    split <;> exact .plains rfl
  refine .word (by decide) (((htable.append (Code.laid_columns options.columns)).append
    (.word (by cases options.direction <;> decide) htarget)).append ?_)
  split
  · exact .nil
  · rename_i hsome
    have hitems : Element full false (Code.separated ", " options.items) :=
      .commas (fun _ ↦ by simpa using hsome) (element_items checked)
    exact .word (by decide) hitems.bracketed.laid

end CopyOptions

theorem Clauses.laid_describe (table : Table) (column : Option String) :
    Laid full top (describeCode table column) := by
  refine ((Laid.plains rfl).append ?_).append ?_
  · split <;> exact .plains rfl
  · split
    · exact .plains rfl
    · exact .nil

end SqlComposer
