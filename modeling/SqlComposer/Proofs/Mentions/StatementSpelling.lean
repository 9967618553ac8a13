import SqlComposer.Proofs.Mentions.ClauseSpelling

/-!
# Spelling of statements

The code of a checked statement spells what the statement mentions, in order and to the last value.
-/

namespace SqlComposer

open Statement (foldClauses foldSource foldVerb foldItem foldJoin foldFilter foldCommonTable
  foldCombination)

variable {raw : Fragment → Prop} {code : Code} {mentions : List Mention}

namespace Clauses

variable {clauses : Clauses Statement}

/-! ## Parts of a selection -/

/-- The target of a change spells the table and its alias. -/
theorem spells_target (clauses : Clauses Statement) (table : Table) :
    Spells raw ((foldClauses Clauses.code clauses).targetCode table)
      ((foldClauses Clauses.mentions clauses).targetMentions table) := by
  unfold targetCode targetMentions
  rw [Statement.label_fold, Statement.label_fold]
  exact table.spells.followed (Code.follows_renamed table.name clauses.label)

/-- A word with the code of a formula, if there is any. -/
private theorem follows_formula {formula : Formula} {word : String} (known : word ∈ Code.vocabulary)
    (lead : Code.led [.word word]) (h : formula.Spelled raw mentions)
    (hcode : (match formula.code? with
      | some condition => pure (.word word :: condition)
      | none => pure []) = (.ok code : Written)) : Follows raw code mentions := by
  have hclause := h.clause fun condition hcondition ↦ Follows.word known lead hcondition
  cases hformula : formula.code? with
  | none =>
    rw [hformula] at hcode hclause
    rwa [← pure_eq_ok.1 hcode]
  | some condition =>
    rw [hformula] at hcode hclause
    rwa [← pure_eq_ok.1 hcode]

/-- The restriction spells the mentions of the filter. -/
theorem follows_filter (checked : clauses.filter.Checked raw (Statement.Spelled raw))
    (h : (foldClauses Clauses.code clauses).filterCode = .ok code) :
    Follows raw code (foldClauses Clauses.mentions clauses).filterMentions := by
  simp only [filterCode, filterMentions, Statement.filter_fold, Statement.qualifier_fold,
    Statement.aliasName_fold, Filter.code?, Condition.code?, bind_assoc, bind_eq_ok, pure_bind]
    at h ⊢
  obtain ⟨formula, hformula, hcode⟩ := h
  exact follows_formula (by simp [Code.vocabulary, Code.selectionWords]) rfl
    (Filter.spelled checked hformula) hcode

/-- The restriction of groups spells the mentions of its conditions. -/
theorem follows_having (checked : clauses.having.Checked raw (Statement.Spelled raw))
    (h : (foldClauses Clauses.code clauses).havingCode = .ok code) :
    Follows raw code
      ((foldFilter Clauses.mentions clauses.having).mentions clauses.aliasName) := by
  simp only [havingCode, Statement.having_fold, Statement.qualifier_fold, Filter.code?,
    Condition.code?, bind_assoc, bind_eq_ok, pure_bind] at h
  obtain ⟨formula, hformula, hcode⟩ := h
  exact follows_formula (by simp [Code.vocabulary, Code.selectionWords]) rfl
    (Filter.spelled checked hformula) hcode

/-- What is selected stands behind what makes the rows differ. -/
theorem spells_distinct (clauses : Clauses Statement) (h : Spells raw code mentions) :
    Spells raw ((foldClauses Clauses.code clauses).distinctCode ++ code)
      ((clauses.distinct.getD []).flatMap (ColumnRef.mentions clauses.aliasName) ++ mentions) := by
  unfold distinctCode
  rw [Statement.distinct_fold, Statement.qualifier_fold]
  match clauses.distinct with
  | none => exact h
  | some [] => exact .word (by simp [Code.vocabulary, Code.selectionWords]) h
  | some (column :: rest) =>
    have hcolumns : Spells raw _ _ := (ColumnRef.spells_list (column :: rest)
      clauses.aliasName).parenthesized
    have hall := hcolumns.glued " " h (by simp [Code.vocabulary, Code.punctuation]) rfl
    rw [List.cons_append, List.append_assoc]
    exact .word (by simp [Code.vocabulary, Code.selectionWords]) hall

private theorem spells_visible (visible : Option (List String)) (owner : Option String) :
    Spells raw
      (match visible, owner.map Piece.name with
        | some columns, qualifier =>
          ColumnRef.listCode (columns.map ColumnRef.unqualified) qualifier
        | none, some qualifier => [qualifier, .word ".*"]
        | none, none => [.word "*"])
      (match visible with
        | some columns =>
          columns.flatMap fun column ↦ (ColumnRef.unqualified column).mentions owner
        | none => owner.toList.map .name) := by
  match visible, owner with
  | some columns, owner =>
    have hcolumns : Spells raw _ _ :=
      ColumnRef.spells_list (columns.map ColumnRef.unqualified) owner
    rwa [List.flatMap_map] at hcolumns
  | none, some owner =>
    exact .name rfl (.word (by simp [Code.vocabulary, Code.punctuation]) .nil)
  | none, none => exact .word (by simp [Code.vocabulary, Code.punctuation]) .nil

private theorem spells_default (clauses : Clauses Statement) :
    Spells raw (foldClauses Clauses.code clauses).defaultProjection
      (foldClauses Clauses.mentions clauses).defaultMentions := by
  unfold defaultProjection defaultMentions
  simp only [Statement.table_fold, Statement.source_fold, Statement.selectsAll_fold,
    Statement.qualifier_fold, Statement.aliasName_fold]
  cases clauses.table with
  | none => exact spells_visible none clauses.aliasName
  | some table =>
    cases clauses.source with
    | table => exact spells_visible _ clauses.aliasName
    | body body => exact spells_visible none clauses.aliasName

/-- The selected list spells its mentions. -/
theorem spells_projection
    (checked : ∀ item ∈ clauses.selection, item.expression.Checked raw (Statement.Spelled raw))
    (h : (foldClauses Clauses.code clauses).projectionCode = .ok code) :
    Spells raw code (foldClauses Clauses.mentions clauses).projectionMentions := by
  unfold projectionCode at h
  unfold projectionMentions
  simp only [Statement.selection_fold, Statement.qualifier_fold, Statement.aliasName_fold,
    List.isEmpty_map, List.flatMap_map] at h ⊢
  split at h
  · rename_i hempty
    rw [if_pos hempty, ← Except.ok.inj h]
    exact spells_default clauses
  · rename_i hsome
    rw [if_neg hsome]
    rw [SelectItem.codes, List.mapM_map] at h
    exact Spells.list h fun item hitem _ hcode ↦ SelectItem.spells (checked item hitem) hcode

/-- What is selected from spells its mentions. -/
theorem follows_source (checked : clauses.source.Checked raw (Statement.Spelled raw))
    (h : (foldClauses Clauses.code clauses).sourceCode = .ok code) :
    Follows raw code (foldClauses Clauses.mentions clauses).sourceMentions := by
  unfold sourceCode at h
  unfold sourceMentions
  simp only [Statement.table_fold, Statement.source_fold, Statement.label_fold,
    Statement.aliasName_fold] at h ⊢
  have hfrom : " FROM " ∈ Code.vocabulary := by simp [Code.vocabulary, Code.selectionWords]
  cases hsource : clauses.source with
  | table =>
    simp only [hsource, foldSource] at h ⊢
    cases htable : clauses.table with
    | none =>
      rw [htable] at h
      rw [← Except.ok.inj h]
      exact .nil
    | some table =>
      rw [htable] at h
      rw [← Except.ok.inj h, Option.toList_some, List.flatMap_singleton]
      exact .word hfrom rfl (spells_target clauses table)
  | body inner =>
    cases inner with
    | query sub =>
      rw [hsource] at checked
      simp only [hsource, foldSource, Statement.foldBody] at h ⊢
      cases hlabel : clauses.aliasName with
      | none =>
        rw [hlabel] at h
        exact absurd h (by simp)
      | some label =>
        rw [hlabel] at h
        obtain ⟨inner, hinner, hcode⟩ := bind_eq_ok.1 h
        rw [pure_eq_ok] at hcode
        rw [← hcode]
        exact .word hfrom rfl
          ((checked inner hinner).parenthesized.followed (Code.follows_aliased label))
    | raw fragment =>
      rw [hsource] at checked
      simp only [hsource, foldSource, Statement.foldBody, bind_eq_ok, pure_eq_ok] at h ⊢
      obtain ⟨inner, hinner, rfl⟩ := h
      exact .word hfrom rfl
        ((Fragment.spells checked hinner).followed (SelectItem.follows_name clauses.label))

/-! ## Lists of clauses -/

/-- Clauses behind blanks. -/
theorem follows_spaced {codes : List Code} (h : SpellsEach raw codes mentions) :
    Follows raw (spaced codes) mentions := by
  obtain ⟨parts, rfl, rfl, hparts⟩ := h
  induction parts with
  | nil => exact .nil
  | cons part rest ih =>
    rw [List.forall_mem_cons] at hparts
    have hfirst : Follows raw (.word " " :: part.1) part.2 :=
      .word (by simp [Code.vocabulary, Code.punctuation]) rfl hparts.1
    exact hfirst.append (ih hparts.2)

/-- The joins spell their mentions in order. -/
theorem follows_joins {codes : List Code}
    (checked : ∀ join ∈ clauses.joins, join.Checked raw (Statement.Spelled raw))
    (h : (foldClauses Clauses.code clauses).joins.mapM Join.code = .ok codes) :
    Follows raw (spaced codes)
      ((foldClauses Clauses.mentions clauses).joins.flatMap Join.mentions) := by
  rw [Statement.joins_fold, List.mapM_map] at h
  rw [Statement.joins_fold, List.flatMap_map]
  exact follows_spaced (SpellsEach.mapM h fun join hjoin _ hcode ↦
    Join.spells (checked join hjoin) hcode)

/-- The combinations spell the mentions of their operands in order. -/
theorem follows_combinations {codes : List Code}
    (checked : ∀ combination ∈ clauses.combinations,
      combination.operand.Checked raw (Statement.Spelled raw))
    (h : (foldClauses Clauses.code clauses).combinations.mapM Combination.code = .ok codes) :
    Follows raw (spaced codes) ((foldClauses Clauses.mentions clauses).combinations.flatMap
      fun combination ↦ combination.operand.mentions) := by
  rw [Statement.combinations_fold, List.mapM_map] at h
  rw [Statement.combinations_fold, List.flatMap_map]
  exact follows_spaced (SpellsEach.mapM h fun combination hcombination _ hcode ↦
    Combination.spells (checked combination hcombination) hcode)

/-- The groups spell their mentions in order. -/
theorem follows_groups (checked : ∀ item ∈ clauses.groups, item.Checked raw)
    (h : (foldClauses Clauses.code clauses).groupsCode = .ok code) :
    Follows raw code (clauses.groups.flatMap (GroupItem.mentions clauses.aliasName)) := by
  simp only [groupsCode, Statement.groups_fold, Statement.qualifier_fold] at h
  obtain ⟨hempty, rfl⟩ | ⟨-, items, hitems, rfl⟩ := omitting_eq_ok.1 h
  · rw [hempty]
    exact .nil
  · exact .word (by simp [Code.vocabulary, Code.selectionWords]) rfl
      (Spells.list hitems fun item hitem _ hcode ↦ GroupItem.spells (checked item hitem) hcode)

/-- The declared windows spell their mentions. -/
theorem follows_windows (checked : ∀ declared ∈ clauses.windows, declared.2.Checked raw)
    (h : (foldClauses Clauses.code clauses).windowsCode = .ok code) :
    Follows raw code (foldClauses Clauses.mentions clauses).windowMentions := by
  simp only [windowsCode, windowMentions, Statement.windows_fold, Statement.qualifier_fold,
    Statement.aliasName_fold] at h ⊢
  obtain ⟨hempty, rfl⟩ | ⟨-, items, hitems, rfl⟩ := omitting_eq_ok.1 h
  · rw [hempty]
    exact .nil
  · refine .word (by simp [Code.vocabulary, Code.selectionWords]) rfl
      (Spells.list hitems fun declared hdeclared written hwritten ↦ ?_)
    obtain ⟨window, hwindow, hcode⟩ := bind_eq_ok.1 hwritten
    rw [pure_eq_ok] at hcode
    rw [← hcode]
    exact .name rfl (.word (by simp [Code.vocabulary, Code.punctuation])
      (Window.spells (checked declared hdeclared) hwindow))

/-- The order spells its mentions. -/
theorem follows_order (checked : ∀ item ∈ clauses.order, item.Checked raw)
    (h : (foldClauses Clauses.code clauses).orderCode = .ok code) :
    Follows raw code (clauses.order.flatMap (OrderItem.mentions clauses.aliasName)) := by
  simp only [orderCode, Statement.order_fold, Statement.qualifier_fold] at h
  obtain ⟨hempty, rfl⟩ | ⟨-, items, hitems, rfl⟩ := omitting_eq_ok.1 h
  · rw [hempty]
    exact .nil
  · exact .word (by simp [Code.vocabulary, Code.selectionWords]) rfl
      (OrderItem.spells_list checked hitems)

/-- A bound number spells its literal. -/
theorem follows_number (keyword : String) (known : keyword ∈ Code.vocabulary)
    (lead : Code.led [.word keyword]) (number : Option Int) :
    Follows raw (numberCode keyword number) (numberMentions number) := by
  cases number with
  | none => exact .nil
  | some number => exact .word known lead (.value rfl .nil)

/-- The row lock spells the tables it names. -/
theorem follows_lock (checked : ∀ lock ∈ clauses.lock, lock.Checked raw)
    (h : (foldClauses Clauses.code clauses).lockCode = .ok code) :
    Follows raw code (clauses.lock.toList.flatMap RowLock.mentions) := by
  simp only [lockCode, Statement.lock_fold] at h
  cases hlock : clauses.lock with
  | none =>
    rw [hlock] at h
    rw [← Except.ok.inj h]
    exact .nil
  | some lock =>
    rw [hlock] at h
    obtain ⟨written, hwritten, hcode⟩ := bind_eq_ok.1 h
    rw [pure_eq_ok] at hcode
    rw [← hcode, Option.toList_some, List.flatMap_singleton]
    exact .word (by simp [Code.vocabulary, Code.punctuation]) rfl
      (RowLock.spells (checked lock hlock) hwritten)

/-! ## Selections -/

private theorem limit_eq (clauses : Clauses Statement) :
    (foldClauses Clauses.code clauses).writtenLimit =
      (foldClauses Clauses.mentions clauses).rowLimit := by
  simp [writtenLimit, rowLimit]

/-- A selection spells its mentions, clause by clause. -/
theorem spells_select (checked : clauses.Checked raw (Statement.Spelled raw))
    (h : (foldClauses Clauses.code clauses).selectCode = .ok code) :
    Spells raw code (foldClauses Clauses.mentions clauses).selectMentions := by
  simp only [selectCode, bind_eq_ok, pure_eq_ok] at h
  obtain ⟨projection, hprojection, source, hsource, joins, hjoins, filter, hfilter, groups, hgroups,
    having, hhaving, windows, hwindows, combinations, hcombinations, order, horder, lock, hlock,
    rfl⟩ := h
  have hselected := spells_distinct clauses (spells_projection checked.selection hprojection)
  have hfiltered := ((hselected.followed (follows_source checked.source hsource)).followed
    (follows_joins checked.joins hjoins)).followed (follows_filter checked.filter hfilter)
  have hgrouped := ((hfiltered.followed (follows_groups checked.groups hgroups)).followed
    (follows_having checked.having hhaving)).followed (follows_windows checked.windows hwindows)
  have hordered := (hgrouped.followed
    (follows_combinations checked.combinations hcombinations)).followed
    (follows_order checked.order horder)
  have hlimited := (hordered.followed (follows_number " LIMIT "
    (by simp [Code.vocabulary, Code.selectionWords]) rfl
    (foldClauses Clauses.mentions clauses).rowLimit)).followed (follows_number " OFFSET "
    (by simp [Code.vocabulary, Code.selectionWords]) rfl
    (foldClauses Clauses.mentions clauses).offset)
  have hall := hlimited.followed (follows_lock checked.lock hlock)
  have hselect : "SELECT " ∈ Code.vocabulary := by simp [Code.vocabulary, Code.selectionWords]
  have hwritten := Spells.word hselect hall
  unfold selectMentions
  simp only [limit_eq, Statement.distinct_fold, Statement.aliasName_fold, Statement.groups_fold,
    Statement.having_fold, Statement.order_fold, Statement.offset_fold, Statement.lock_fold,
    List.cons_append] at hwritten ⊢
  exact hwritten

/-! ## What a change hands back -/

end Clauses

/-! ### Columns among the items -/

private theorem ColumnRef.last_inj {column other : ColumnRef} :
    (if column.isStar then Piece.word "*" else .name column.name) =
      (if other.isStar then Piece.word "*" else .name other.name) ↔ column.name = other.name := by
  simp only [ColumnRef.isStar, beq_iff_eq]
  split <;> split <;> grind

/-- References to columns are written alike exactly if they refer to the same column. -/
theorem ColumnRef.code_inj {column other : ColumnRef} {owner : Option String} :
    column.code (owner.map .name) = other.code (owner.map .name) ↔
      column.table.or owner = other.table.or owner ∧ column.name = other.name := by
  rw [← ColumnRef.last_inj]
  obtain ⟨table, name⟩ := column
  obtain ⟨table', name'⟩ := other
  cases table <;> cases table' <;> cases owner <;> simp [ColumnRef.code]

theorem ColumnRef.not_foreign (column : ColumnRef) (owner : Option String) :
    (column.code (owner.map .name)).any Piece.isForeign = false := by
  obtain ⟨table, name⟩ := column
  cases table <;> cases owner <;> simp only [ColumnRef.code, Option.map_none, Option.map_some] <;>
    split <;> rfl

private theorem Fragment.expand_foreign (read text : List Char) (values : List Literal) :
    ∀ piece ∈ Fragment.expand read text values, piece.isForeign := by
  have hspliced (read : List Char) : ∀ piece ∈ Fragment.spliced read, piece.isForeign := by
    unfold Fragment.spliced
    split <;> simp [Piece.isForeign]
  induction read, text, values using Fragment.expand.induct with
  | case1 read values => exact hspliced read
  | case2 read rest values ih => rwa [Fragment.expand]
  | case3 read rest single ih => rwa [Fragment.expand]; exact single
  | case4 read rest value values single ih =>
    rw [Fragment.expand]
    · exact List.forall_mem_append.2 ⟨hspliced read, List.forall_mem_cons.2 ⟨rfl, ih⟩⟩
    · exact single
  | case5 read c rest values notDoubled notLast notMark ih =>
    rw [Fragment.expand]
    · exact ih
    all_goals assumption

theorem Fragment.foreign {fragment : Fragment} (sound : fragment.fault? = none) :
    fragment.pieces.any Piece.isForeign := by
  have hvalues := Spells.values_pieces sound
  unfold Fragment.pieces at hvalues ⊢
  split
  · rfl
  · rename_i hsome
    rw [if_neg hsome] at hvalues
    cases hpieces : Fragment.expand [] fragment.sql.toList fragment.values with
    | nil =>
      rw [hpieces] at hvalues
      exact absurd (List.isEmpty_iff.2 hvalues.symm) hsome
    | cons piece rest =>
      have hpiece := Fragment.expand_foreign [] fragment.sql.toList fragment.values piece
        (by rw [hpieces]; exact List.mem_cons_self)
      rw [List.any_cons, hpiece, Bool.true_or]

theorem Fragment.foreign_code {fragment : Fragment} (h : fragment.code = .ok code) :
    code.any Piece.isForeign := by
  unfold Fragment.code at h
  split at h
  · exact absurd h (by simp)
  · rename_i sound
    rw [← Except.ok.inj h]
    exact Fragment.foreign sound

theorem WindowCall.foreign_code {call : WindowCall} {qualifier : Qualifier}
    (h : call.code qualifier = .ok code) : code.any Piece.isForeign := by
  obtain ⟨function, argument, place⟩ := call
  cases place with
  | named name =>
    simp only [WindowCall.code, pure_bind, pure_eq_ok] at h
    rw [← h]
    simp [Code.parenthesized, Piece.isForeign]
  | window given =>
    simp only [WindowCall.code, bind_eq_ok, pure_eq_ok] at h
    obtain ⟨window, _, rfl⟩ := h
    simp [Code.parenthesized, Piece.isForeign]

/-- The code of an item that hands back a column is a reference to it; the code of any other item
refers to another column or cannot be confused with a reference. -/
theorem SelectItem.apart {item : SelectItem Statement} {owner : Option String}
    (h : (Statement.foldItem Clauses.code item).code (owner.map .name) = .ok code) :
    (∃ column : ColumnRef, code = column.code (owner.map .name) ∧
      ∀ name, item.handsBack owner name =
        (column.table.or owner == owner && column.name == name)) ∨
    (code.any Piece.isForeign ∧ ∀ name, item.handsBack owner name = false) := by
  obtain ⟨expression, label⟩ := item
  simp only [SelectItem.code, Statement.foldItem, bind_eq_ok, pure_eq_ok] at h
  obtain ⟨written, hwritten, rfl⟩ := h
  have hnamed (name : String) : (written ++ Code.aliased name).any Piece.isForeign := by
    simp [Code.aliased, Piece.isForeign]
  have hunnamed (hforeign : written.any Piece.isForeign) : (written ++ []).any Piece.isForeign := by
    rwa [List.append_nil]
  cases label with
  | some label => exact .inr ⟨hnamed label, fun _ ↦ rfl⟩
  | none =>
    cases expression with
    | column reference =>
      left
      refine ⟨reference, ?_, fun _ ↦ rfl⟩
      rw [← Except.ok.inj hwritten]
      exact List.append_nil _
    | json expression => exact .inr ⟨hnamed expression.root.name, fun _ ↦ rfl⟩
    | raw fragment => exact .inr ⟨hunnamed (Fragment.foreign_code hwritten), fun _ ↦ rfl⟩
    | query sub =>
      right
      obtain ⟨inner, _, hcode⟩ := bind_eq_ok.1 hwritten
      rw [pure_eq_ok] at hcode
      refine ⟨hunnamed ?_, fun _ ↦ rfl⟩
      rw [← hcode]
      simp [Code.parenthesized, Piece.isForeign]
    | term value =>
      cases value with
      | literal value =>
        right
        refine ⟨hunnamed ?_, fun _ ↦ rfl⟩
        rw [← Except.ok.inj hwritten]
        rfl
      | raw fragment => exact .inr ⟨hunnamed (Fragment.foreign_code hwritten), fun _ ↦ rfl⟩
      | column reference =>
        left
        refine ⟨reference, ?_, fun _ ↦ rfl⟩
        rw [← Except.ok.inj hwritten]
        exact List.append_nil _
    | count argument =>
      right
      refine ⟨hunnamed ?_, fun _ ↦ rfl⟩
      rw [← Except.ok.inj hwritten]
      simp [Code.parenthesized, Piece.isForeign]
    | window call => exact .inr ⟨hunnamed (WindowCall.foreign_code hwritten), fun _ ↦ rfl⟩

theorem SelectItem.handsBack_fold {Result : Type} (step : Clauses Result → Result)
    (owner : Option String) (column : String) (item : SelectItem Statement) :
    (Statement.foldItem step item).handsBack owner column = item.handsBack owner column := by
  obtain ⟨expression, label⟩ := item
  cases label with
  | some label => rfl
  | none =>
    cases expression with
    | term value => cases value <;> rfl
    | _ => rfl

namespace Clauses

private theorem returnsStar_fold (clauses : Clauses Statement) :
    (foldClauses Clauses.mentions clauses).returnsStar =
      (foldClauses Clauses.code clauses).returnsAll := by
  unfold returnsStar returnsAll
  simp only [Statement.selection_fold, Statement.selectsAll_fold, Statement.verb_fold,
    Statement.shape_fold, List.isEmpty_map]
  cases clauses.verb <;> rfl

/-- A column that related rows refer to is written behind the items exactly if no item hands it
back. -/
private theorem missing_iff {items : List (SelectItem Statement)} {codes : List Code}
    {owner : Option String}
    (h : items.mapM (fun item ↦ (foldItem Clauses.code item).code (owner.map .name)) = .ok codes)
    (column : String) :
    (!items.any (SelectItem.handsBack owner column)) = true ↔
      Code.ofColumn owner column ∉ codes := by
  rw [Bool.not_eq_true', ← Bool.not_eq_true, not_iff_not, List.any_eq_true]
  constructor
  · rintro ⟨item, hitem, hback⟩
    obtain ⟨code, hcode, hwritten⟩ := exists_result_of_mem h hitem
    rcases SelectItem.apart hwritten with ⟨reference, rfl, hreference⟩ | ⟨_, hnot⟩
    · rw [hreference, Bool.and_eq_true, beq_iff_eq, beq_iff_eq] at hback
      have hsame : Code.ofColumn owner column = reference.code (owner.map .name) :=
        ColumnRef.code_inj.2 ⟨by simpa [ColumnRef.unqualified] using hback.1.symm, hback.2.symm⟩
      rwa [hsame]
    · rw [hnot] at hback
      exact absurd hback Bool.false_ne_true
  · intro hmem
    obtain ⟨item, hitem, hwritten⟩ := exists_of_mem_results h hmem
    refine ⟨item, hitem, ?_⟩
    rcases SelectItem.apart hwritten with ⟨reference, hcode, hreference⟩ | ⟨hforeign, _⟩
    · have hsame := ColumnRef.code_inj.1 hcode
      rw [hreference, Bool.and_eq_true, beq_iff_eq, beq_iff_eq]
      exact ⟨by simpa [ColumnRef.unqualified] using hsame.1.symm, hsame.2.symm⟩
    · rw [Code.ofColumn, ColumnRef.not_foreign] at hforeign
      exact absurd hforeign Bool.false_ne_true

/-- What a change hands back spells its mentions. -/
theorem follows_returning
    (checked : ∀ item ∈ clauses.selection, item.expression.Checked raw (Statement.Spelled raw))
    (h : (foldClauses Clauses.code clauses).returningCode = .ok code) :
    Follows raw code (foldClauses Clauses.mentions clauses).returningMentions := by
  unfold returningCode at h
  unfold returningMentions
  rw [returnsStar_fold]
  split at h
  · rename_i hall
    rw [if_pos hall, ← Except.ok.inj h]
    exact .word (by simp [Code.vocabulary, Code.changeWords]) rfl .nil
  · rename_i hnot
    rw [if_neg hnot]
    simp only [SelectItem.codes, Statement.selection_fold, Statement.qualifier_fold,
      Statement.readBack_fold, Statement.aliasName_fold, extraColumns, List.mapM_map,
      List.flatMap_map, List.any_map, Function.comp_def, SelectItem.handsBack_fold, bind_eq_ok]
      at h ⊢
    obtain ⟨codes, hcodes, hcode⟩ := h
    have hitems := SpellsEach.mapM hcodes fun item hitem _ hwritten ↦
      SelectItem.spells (checked item hitem) hwritten
    split at hcode
    · rename_i hempty
      rw [Bool.and_eq_true, List.isEmpty_iff, List.isEmpty_iff, List.map_eq_nil_iff] at hempty
      have hnone : clauses.selection = [] := by
        refine List.eq_nil_iff_forall_not_mem.2 fun item hitem ↦ ?_
        obtain ⟨written, hwritten, _⟩ := exists_result_of_mem hcodes hitem
        rw [hempty.1] at hwritten
        exact List.not_mem_nil hwritten
      rw [← pure_eq_ok.1 hcode, hnone, hempty.2]
      exact .nil
    · rw [← pure_eq_ok.1 hcode]
      refine .word (by simp [Code.vocabulary, Code.changeWords]) rfl ?_
      obtain ⟨parts, rfl, hmentions, hparts⟩ := hitems
      rw [hmentions]
      have hapart : ∀ part ∈ parts,
          (∃ column : ColumnRef, part.1 = column.code (clauses.aliasName.map .name)) ∨
            part.1.any Piece.isForeign := by
        intro part hpart
        obtain ⟨item, _, hwritten⟩ := exists_of_mem_results hcodes (List.mem_map_of_mem hpart)
        rcases SelectItem.apart hwritten with ⟨column, hcolumn, _⟩ | ⟨hforeign, _⟩
        · exact .inl ⟨column, hcolumn⟩
        · exact .inr hforeign
      have hreturned := Spells.returned hparts hapart
        (fun column (_ : column ∈ clauses.readBack) ↦ missing_iff hcodes column) rfl .nil
      rwa [List.append_nil] at hreturned

/-! ## Changes -/

/-- The assignments spell their mentions, the time column last. -/
private theorem spells_assignments {assignments : List Assignment} {stamped : Option String}
    (checked : ∀ assignment ∈ assignments, assignment.Checked raw)
    (h : Assignment.listCode assignments stamped = .ok code) :
    Spells raw code (assignments.flatMap Assignment.mentions ++ stamped.toList.map .name) := by
  simp only [Assignment.listCode, refusing_eq_ok, bind_eq_ok, pure_eq_ok] at h
  obtain ⟨_, codes, hcodes, rfl⟩ := h
  refine SpellsEach.commas (SpellsEach.append (SpellsEach.mapM hcodes fun assignment hassignment _
    hwritten ↦ Assignment.spells (checked assignment hassignment) hwritten) ?_)
  cases stamped with
  | none => exact .nil
  | some column =>
    exact .single (.name rfl (.word (by simp [Code.vocabulary, Code.changeWords]) .nil))

/-- An update spells its mentions. -/
theorem spells_update {table : Table} {assignments : List Assignment}
    (checked : ∀ assignment ∈ assignments, assignment.Checked raw)
    (hfilter : clauses.filter.Checked raw (Statement.Spelled raw))
    (h : (foldClauses Clauses.code clauses).updateCode table assignments = .ok code) :
    Spells raw code ((foldClauses Clauses.mentions clauses).updateMentions table assignments) := by
  simp only [updateCode, bind_eq_ok, refusing_eq_ok, pure_eq_ok] at h
  obtain ⟨_, _, _, values, hvalues, filter, hfiltered, rfl⟩ := h
  have hset : Follows raw (.word " SET " :: values) _ :=
    .word (by simp [Code.vocabulary, Code.changeWords]) rfl (spells_assignments checked hvalues)
  have hall := ((spells_target clauses table).followed hset).followed
    (follows_filter hfilter hfiltered)
  unfold updateMentions
  rw [List.append_assoc (targetMentions _ table)]
  exact .word (by simp [Code.vocabulary, Code.changeWords]) hall

private theorem follows_separated {separator word : String} {codes : List Code}
    (hseparator : separator ∈ Code.vocabulary) (lead : Code.led [.word separator])
    (hword : word ∈ Code.vocabulary) (hlead : Code.led [.word word])
    (h : SpellsEach raw codes mentions) :
    Follows raw
      (if codes.isEmpty then [] else .word word :: Code.separated separator codes) mentions := by
  cases codes with
  | nil =>
    obtain ⟨parts, hparts, rfl, _⟩ := h
    rw [List.map_eq_nil_iff.1 hparts.symm]
    exact .nil
  | cons first rest => exact .word hword hlead (h.separated hseparator lead)

private theorem spells_optional {formula : Formula} (h : formula.Spelled raw mentions) :
    SpellsEach raw formula.code?.toList mentions := by
  have hcode := h.spells_code
  cases hformula : formula.code? with
  | none =>
    rw [hformula] at hcode
    rw [hcode]
    exact .nil
  | some code =>
    rw [hformula] at hcode
    exact .single hcode

private theorem spells_conjunct {formula : Formula} (h : formula.Spelled raw mentions) :
    SpellsEach raw formula.conjunct?.toList mentions := by
  have hcode := h.spells_conjunct
  cases hformula : formula.conjunct? with
  | none =>
    rw [hformula] at hcode
    rw [hcode]
    exact .nil
  | some code =>
    rw [hformula] at hcode
    exact .single hcode

/-- The conditions of joined tables, without the empty ones. -/
private theorem spells_conditions {joins : List (Join Statement)} {conditions : List (Option Code)}
    (checked : ∀ join ∈ joins, join.Checked raw (Statement.Spelled raw))
    (h : joins.mapM (fun join ↦ (Statement.foldCondition Clauses.code join.condition).conjunct?
      (some (.name join.target.aliasName))) = .ok conditions) :
    SpellsEach raw (conditions.filterMap id) (joins.flatMap fun join ↦
      (Statement.foldCondition Clauses.mentions join.condition).mentions
        (some join.target.aliasName)) := by
  induction joins generalizing conditions with
  | nil =>
    rw [List.mapM_nil, pure_eq_ok] at h
    rw [← h]
    exact .nil
  | cons join rest ih =>
    obtain ⟨first, others, hfirst, hothers, rfl⟩ := mapM_eq_ok_cons.1 h
    rw [List.forall_mem_cons] at checked
    obtain ⟨formula, hformula, hconjunct⟩ := bind_eq_ok.1 hfirst
    have hspelled : formula.Spelled raw
        ((Statement.foldCondition Clauses.mentions join.condition).mentions
          (some join.target.aliasName)) := Condition.spelled checked.1.2 hformula
    have hall := (spells_conjunct hspelled).append (ih checked.2 hothers)
    rw [← pure_eq_ok.1 hconjunct, List.flatMap_cons]
    cases hfirst : formula.conjunct? with
    | none =>
      rw [hfirst] at hall
      exact hall
    | some code =>
      rw [hfirst] at hall
      exact hall

/-- A delete spells its mentions. -/
theorem spells_delete {table : Table} (checked : clauses.Checked raw (Statement.Spelled raw))
    (h : (foldClauses Clauses.code clauses).deleteCode table = .ok code) :
    Spells raw code ((foldClauses Clauses.mentions clauses).deleteMentions table) := by
  simp only [deleteCode, Statement.joins_fold, Statement.filter_fold, Statement.qualifier_fold,
    Filter.code?, Filter.conjunct?, Condition.code?, List.mapM_map, Function.comp_def,
    Join.qualifier, Statement.target_foldJoin, Statement.condition_foldJoin,
    Statement.aliasName_foldTarget, bind_eq_ok] at h
  obtain ⟨_, _, targets, htargets, hrest⟩ := h
  have hsources := SpellsEach.mapM htargets fun join hjoin _ htarget ↦
    JoinTarget.spells (checked.joins join hjoin).1 htarget
  have hwritten {filter : List Code} {conditions : List (Option Code)}
      (hfilter : SpellsEach raw filter (foldClauses Clauses.mentions clauses).filterMentions)
      (hconditions : clauses.joins.mapM (fun join ↦
        (Statement.foldCondition Clauses.code join.condition).conjunct?
          (some (.name join.target.aliasName))) = .ok conditions) :
      Spells raw ((.word "DELETE FROM " :: (foldClauses Clauses.code clauses).targetCode table ++
          if targets.isEmpty then [] else .word " USING " :: Code.separated ", " targets) ++
          if (filter ++ conditions.filterMap id).isEmpty then []
          else .word " WHERE " :: Code.separated " AND " (filter ++ conditions.filterMap id))
        ((foldClauses Clauses.mentions clauses).deleteMentions table) := by
    have husing : Follows raw
        (if targets.isEmpty then [] else .word " USING " :: Code.separated ", " targets) _ :=
      follows_separated (by simp [Code.vocabulary, Code.punctuation]) rfl
        (by simp [Code.vocabulary, Code.sourceWords]) rfl hsources
    have hwhere : Follows raw
        (if (filter ++ conditions.filterMap id).isEmpty then []
          else .word " WHERE " :: Code.separated " AND " (filter ++ conditions.filterMap id)) _ :=
      follows_separated (by simp [Code.vocabulary, Code.conditionWords]) rfl
        (by simp [Code.vocabulary, Code.selectionWords]) rfl
        (hfilter.append (spells_conditions checked.joins hconditions))
    have hall := ((spells_target clauses table).followed husing).followed hwhere
    unfold deleteMentions
    simp only [Statement.joins_fold, List.flatMap_map, Statement.target_foldJoin,
      Statement.condition_foldJoin, Statement.aliasName_foldTarget, List.append_assoc,
      List.cons_append] at hall ⊢
    exact .word (by simp [Code.vocabulary, Code.changeWords]) hall
  have hfilter {formula : Formula}
      (hformula : (foldFilter Clauses.code clauses.filter).condition.formula
        (clauses.aliasName.map .name) = .ok formula) :
      formula.Spelled raw (foldClauses Clauses.mentions clauses).filterMentions := by
    rw [filterMentions, Statement.filter_fold, Statement.aliasName_fold]
    exact Filter.spelled checked.filter hformula
  split at hrest
  · obtain ⟨filter, hcode, conditions, hconditions, hall⟩ := by
      simpa only [bind_eq_ok, pure_eq_ok] using hrest
    obtain ⟨formula, hformula, rfl⟩ := hcode
    rw [← hall]
    exact hwritten (spells_optional (hfilter hformula)) hconditions
  · obtain ⟨filter, hcode, conditions, hconditions, hall⟩ := by
      simpa only [bind_eq_ok, pure_eq_ok] using hrest
    obtain ⟨formula, hformula, hfiltered⟩ := bind_eq_ok.1 hcode
    rw [← hall, ← pure_eq_ok.1 hfiltered]
    exact hwritten (spells_conjunct (hfilter hformula)) hconditions

/-! ## Statements -/

/-- What a verb writes spells its mentions. -/
private theorem spells_verb (checked : clauses.Checked raw (Statement.Spelled raw))
    (h : (foldClauses Clauses.code clauses).verbCode = .ok code) :
    Spells raw code (foldClauses Clauses.mentions clauses).verbMentions := by
  have hverb := checked.verb
  unfold verbCode at h
  unfold verbMentions
  simp only [Statement.verb_fold, Statement.table_fold] at h ⊢
  have hrequired {purpose : String} {table : Table}
      (htable : (foldClauses Clauses.code clauses).requireTable purpose = .ok table) :
      clauses.table = some table := by
    unfold requireTable at htable
    rw [Statement.table_fold] at htable
    cases hgiven : clauses.table with
    | none => simp [hgiven] at htable
    | some given =>
      rw [hgiven] at htable
      rw [Except.ok.inj htable]
  match hcase : clauses.verb with
  | .select =>
    rw [hcase] at h
    exact spells_select checked h
  | .truncate options =>
    simp only [hcase, foldVerb, bind_eq_ok, pure_eq_ok] at h ⊢
    obtain ⟨table, htable, rfl⟩ := h
    rw [hrequired htable]
    exact options.spells table.spells
  | .describe column =>
    simp only [hcase, foldVerb, bind_eq_ok, pure_eq_ok] at h ⊢
    obtain ⟨table, htable, rfl⟩ := h
    rw [hrequired htable]
    exact table.spells_description column
  | .copy options =>
    rw [hcase] at hverb
    simp only [hcase, foldVerb, bind_eq_ok, pure_eq_ok] at h ⊢
    obtain ⟨table, htable, rfl⟩ := h
    rw [hrequired htable]
    exact CopyOptions.spells hverb table.spells
  | .insert insertion =>
    rw [hcase] at hverb
    simp only [hcase, foldVerb, bind_eq_ok, pure_eq_ok, Statement.filter_fold,
      Statement.qualifier_fold, Statement.aliasName_fold] at h ⊢
    obtain ⟨table, htable, change, hchange, returned, hreturned, rfl⟩ := h
    rw [hrequired htable]
    exact (Insertion.spells hverb checked.filter (spells_target clauses table) hchange).followed
      (follows_returning checked.selection hreturned)
  | .update assignments =>
    rw [hcase] at hverb
    simp only [hcase, foldVerb, bind_eq_ok, pure_eq_ok] at h ⊢
    obtain ⟨table, htable, change, hchange, returned, hreturned, rfl⟩ := h
    rw [hrequired htable]
    exact (spells_update hverb checked.filter hchange).followed
      (follows_returning checked.selection hreturned)
  | .delete =>
    simp only [hcase, foldVerb, bind_eq_ok, pure_eq_ok] at h ⊢
    obtain ⟨table, htable, change, hchange, returned, hreturned, rfl⟩ := h
    rw [hrequired htable]
    exact (spells_delete checked hchange).followed (follows_returning checked.selection hreturned)

/-- The declarations in front spell their mentions in front of the others. -/
private theorem spells_declarations {declared : List (CommonTable Statement)} {rest : Code}
    {others : List Mention}
    (checked : ∀ table ∈ declared, table.body.Checked raw (Statement.Spelled raw))
    (h : CommonTable.declarations (declared.map (foldCommonTable Clauses.code)) = .ok code)
    (hrest : Spells raw rest others) :
    Spells raw (code ++ rest) ((declared.map (foldCommonTable Clauses.mentions)).flatMap
      CommonTable.mentions ++ others) := by
  unfold CommonTable.declarations at h
  cases declared with
  | nil =>
    rw [List.map_nil, List.isEmpty_nil, if_pos rfl, pure_eq_ok] at h
    rw [← h]
    exact hrest
  | cons first tables =>
    simp only [List.map_cons, List.isEmpty_cons, Bool.false_eq_true, ↓reduceIte, bind_eq_ok,
      pure_eq_ok] at h
    obtain ⟨items, hitems, rfl⟩ := h
    rw [← List.map_cons, List.mapM_map] at hitems
    have hdeclared := SpellsEach.mapM hitems fun table htable _ hwritten ↦
      CommonTable.spells (checked table htable) hwritten
    have hall := hdeclared.commas.glued " " hrest (by simp [Code.vocabulary, Code.punctuation]) rfl
    rw [List.flatMap_map]
    simp only [List.cons_append, List.append_assoc, List.nil_append]
    refine .word (by simp [Code.vocabulary, Code.sourceWords]) ?_
    split
    · exact .word (by simp [Code.vocabulary, Code.sourceWords]) hall
    · exact hall

/-- A statement spells its mentions. -/
theorem spells (checked : clauses.Checked raw (Statement.Spelled raw))
    (h : (foldClauses Clauses.code clauses).code = .ok code) :
    Spells raw code (foldClauses Clauses.mentions clauses).mentions := by
  simp only [Clauses.code, Clauses.mentions, Statement.commonTables_fold, bind_eq_ok, pure_eq_ok]
    at h ⊢
  obtain ⟨declarations, hdeclarations, written, hwritten, rfl⟩ := h
  exact spells_declarations checked.commonTables hdeclarations (spells_verb checked hwritten)

end Clauses

/-- The code of a checked statement spells what the statement mentions. -/
theorem Statement.Checked.spelled {statement : Statement} (checked : statement.Checked raw) :
    statement.Spelled raw :=
  checked.induction fun _ hclauses _ h ↦ Clauses.spells hclauses h

end SqlComposer
