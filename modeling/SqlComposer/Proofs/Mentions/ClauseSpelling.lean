import SqlComposer.Proofs.Mentions.ConditionSpelling
import SqlComposer.Proofs.Statement.FoldedClauses

/-!
# Spelling of clauses

Sources, selected items, changes and the other clauses of a statement are written as what they
mention, provided that their sub-queries are.
-/

namespace SqlComposer

open Statement (foldBody foldTarget foldJoin foldCommonTable foldCombination foldExpr foldItem
  foldItems foldCondition foldFilter)

variable {raw : Fragment → Prop} {owner : Option String} {code : Code}

/-! ## Sources -/

/-- The body of a declared table spells its mentions. -/
theorem Body.spells {body : Body Statement} (checked : body.Checked raw (Statement.Spelled raw))
    (h : (foldBody Clauses.code body).code = .ok code) :
    Spells raw code (foldBody Clauses.mentions body).mentions := by
  cases body with
  | query sub => exact checked code h
  | raw fragment => exact Fragment.spells checked h

theorem Code.follows_aliased (label : String) : Follows raw (Code.aliased label) [.name label] :=
  .word (by simp [Code.vocabulary, Code.punctuation]) rfl (.name rfl .nil)

theorem Code.follows_renamed (name : String) (label : Option String) :
    Follows raw (Code.renamed name label) (Mention.renamed name label) := by
  unfold Code.renamed Mention.renamed
  cases label with
  | none => exact .nil
  | some label =>
    dsimp only
    split
    · exact .nil
    · exact Code.follows_aliased label

/-- Columns in parentheses, if there are any. -/
theorem Code.follows_columns (columns : List String) :
    Follows raw (if columns.isEmpty then [] else Code.parenthesized (Code.nameList columns))
      (columns.map .name) := by
  cases columns with
  | nil => exact .nil
  | cons column rest => exact ⟨(Spells.nameList (column :: rest)).parenthesized, rfl⟩

theorem Code.spells_table (schema : Option String) (name : String) :
    Spells raw (Code.table schema name)
      (schema.toList.map Mention.name ++ [Mention.name name]) := by
  cases schema with
  | none => exact .name rfl .nil
  | some schema =>
    exact .name rfl (.word (by simp [Code.vocabulary, Code.punctuation]) (.name rfl .nil))

theorem Table.spells (table : Table) : Spells raw table.code table.mentions :=
  Code.spells_table table.schema table.name

/-- The target of a join spells its mentions. -/
theorem JoinTarget.spells {target : JoinTarget Statement}
    (checked : target.Checked (Statement.Spelled raw))
    (h : (foldTarget Clauses.code target).code = .ok code) :
    Spells raw code (foldTarget Clauses.mentions target).mentions := by
  cases target with
  | table name schema label =>
    rw [← Except.ok.inj h]
    have htarget : Spells raw _ _ := (Code.spells_table schema name).followed
      (Code.follows_renamed name label)
    rwa [List.append_assoc] at htarget
  | query sub label =>
    obtain ⟨inner, hinner, hcode⟩ := bind_eq_ok.1 h
    rw [pure_eq_ok] at hcode
    rw [← hcode]
    exact (checked inner hinner).parenthesized.followed (Code.follows_aliased label)

/-- The condition of a join, `true` if it is empty. -/
private theorem Join.follows_condition {formula : Formula} {mentions : List Mention}
    (h : formula.Spelled raw mentions) :
    Follows raw (.word " ON " :: formula.code?.getD [.word "true"]) mentions := by
  refine .word (by simp [Code.vocabulary, Code.sourceWords]) rfl ?_
  have hcode := h.spells_code
  cases hformula : formula.code? with
  | none =>
    rw [hformula] at hcode
    rw [hcode]
    exact .word (by simp [Code.vocabulary, Code.conditionWords]) .nil
  | some code => rwa [hformula] at hcode

/-- A join spells its mentions. -/
theorem Join.spells {join : Join Statement} (checked : join.Checked raw (Statement.Spelled raw))
    (h : (foldJoin Clauses.code join).code = .ok code) :
    Spells raw code (foldJoin Clauses.mentions join).mentions := by
  obtain ⟨kind, target, condition⟩ := join
  have hkind : kind.toSql ∈ Code.vocabulary := by
    cases kind <;> simp [JoinKind.toSql, Code.vocabulary, Code.sourceWords]
  have hspaced {joined behind : Code} {mentioned : List Mention}
      (hjoined : (foldTarget Clauses.code target).code = .ok joined)
      (hbehind : Follows raw behind mentioned) :
      Spells raw (.word kind.toSql :: .word " " :: joined ++ behind)
        ((foldTarget Clauses.mentions target).mentions ++ mentioned) :=
    .word hkind (.word (by simp [Code.vocabulary, Code.punctuation])
      ((JoinTarget.spells checked.1 hjoined).followed hbehind))
  simp only [foldJoin, Join.code, Join.mentions] at h ⊢
  by_cases hcross : kind = .cross
  · subst hcross
    simp only [↓reduceIte, bind_eq_ok, pure_bind, pure_eq_ok] at h ⊢
    obtain ⟨joined, hjoined, rfl⟩ := h
    exact hspaced hjoined .nil
  · simp only [hcross, ↓reduceIte, Condition.code?, Join.qualifier, Statement.aliasName_foldTarget,
      bind_assoc, bind_eq_ok, pure_bind, pure_eq_ok] at h ⊢
    obtain ⟨joined, hjoined, formula, hformula, rfl⟩ := h
    have hcondition : formula.Spelled raw ((foldCondition Clauses.mentions condition).mentions
        (some target.aliasName)) := Condition.spelled checked.2 hformula
    exact hspaced hjoined (Join.follows_condition hcondition)

private theorem CommonTable.spells_hinted (materialized : Option Bool) {mentions : List Mention}
    (h : Spells raw code mentions) :
    Spells raw
      ((match materialized with
        | some true => [.word "MATERIALIZED "]
        | some false => [.word "NOT MATERIALIZED "]
        | none => []) ++ code)
      mentions := by
  rcases materialized with _ | _ | _
  · exact h
  · exact .word (by simp [Code.vocabulary, Code.sourceWords]) h
  · exact .word (by simp [Code.vocabulary, Code.sourceWords]) h

/-- A declared table spells its mentions. -/
theorem CommonTable.spells {declared : CommonTable Statement}
    (checked : declared.body.Checked raw (Statement.Spelled raw))
    (h : (foldCommonTable Clauses.code declared).code = .ok code) :
    Spells raw code (foldCommonTable Clauses.mentions declared).mentions := by
  obtain ⟨name, recursive, materialized, columns, body⟩ := declared
  simp only [foldCommonTable, CommonTable.code, CommonTable.mentions, bind_eq_ok, pure_eq_ok]
    at h ⊢
  obtain ⟨inner, hinner, rfl⟩ := h
  have hbody := (Body.spells checked hinner).parenthesized
  have hhint : Follows raw (.word " AS " :: _) _ :=
    .word (by simp [Code.vocabulary, Code.punctuation]) rfl
      (CommonTable.spells_hinted materialized hbody)
  have hdeclared := (Code.follows_columns columns).append hhint
  simp only [List.cons_append, List.append_assoc]
  exact .name hdeclared.lead hdeclared.spells

/-- A combination spells the mentions of its operand. -/
theorem Combination.spells {combination : Combination Statement}
    (checked : combination.operand.Checked raw (Statement.Spelled raw))
    (h : (foldCombination Clauses.code combination).code = .ok code) :
    Spells raw code (foldCombination Clauses.mentions combination).operand.mentions := by
  obtain ⟨operation, operand, wrapped⟩ := combination
  simp only [foldCombination, Combination.code, bind_eq_ok, pure_eq_ok] at h ⊢
  obtain ⟨inner, hinner, rfl⟩ := h
  have hoperand := Body.spells checked hinner
  refine .word ?_ (.word (by simp [Code.vocabulary, Code.punctuation]) ?_)
  · cases operation <;> simp [SetOperation.toSql, Code.vocabulary, Code.sourceWords]
  · cases wrapped with
    | true => exact hoperand.parenthesized
    | false => exact hoperand

/-! ## Selected items -/

namespace SelectItem

/-- A selected expression spells its mentions. -/
theorem spells_expression {expression : SelectExpr Statement}
    (checked : expression.Checked raw (Statement.Spelled raw))
    (h : expressionCode (owner.map .name) (foldExpr Clauses.code expression) = .ok code) :
    Spells raw code ((foldExpr Clauses.mentions expression).mentions owner) := by
  cases expression with
  | column reference =>
    rw [← Except.ok.inj h]
    exact reference.spells owner
  | raw fragment => exact Fragment.spells checked h
  | query sub =>
    obtain ⟨inner, hinner, hcode⟩ := bind_eq_ok.1 h
    rw [pure_eq_ok] at hcode
    rw [← hcode]
    exact (checked inner hinner).parenthesized
  | json expression =>
    rw [← Except.ok.inj h]
    exact expression.spells owner
  | term value => exact Term.spells checked h
  | count argument =>
    rw [← Except.ok.inj h]
    refine .word (by simp [Code.vocabulary, Code.selectionWords]) (Spells.parenthesized ?_)
    exact ColumnRef.spells_argument argument owner
      (.word (by simp [Code.vocabulary, Code.punctuation]) .nil)
  | window call => exact WindowCall.spells checked h

theorem follows_name (name : Option String) :
    Follows raw
      (match name with
        | some name => Code.aliased name
        | none => [])
      (name.toList.map .name) := by
  cases name with
  | none => exact .nil
  | some name => exact Code.follows_aliased name

theorem writtenName_fold {Result : Type} (step : Clauses Result → Result)
    (item : SelectItem Statement) : (foldItem step item).writtenName? = item.writtenName? := by
  obtain ⟨expression, label⟩ := item
  cases label <;> cases expression <;> rfl

/-- A selected item spells its mentions, its label last. -/
theorem spells {item : SelectItem Statement}
    (checked : item.expression.Checked raw (Statement.Spelled raw))
    (h : (foldItem Clauses.code item).code (owner.map .name) = .ok code) :
    Spells raw code ((foldItem Clauses.mentions item).mentions owner) := by
  simp only [SelectItem.code, SelectItem.mentions, writtenName_fold, bind_eq_ok, pure_eq_ok] at h ⊢
  obtain ⟨expression, label⟩ := item
  obtain ⟨inner, hinner, rfl⟩ := h
  exact (spells_expression checked hinner).followed (follows_name _)

end SelectItem

/-! ## Changes -/

theorem Assignment.spells {assignment : Assignment} (checked : assignment.Checked raw)
    (h : assignment.code = .ok code) : Spells raw code assignment.mentions := by
  cases assignment with
  | set column value =>
    obtain ⟨term, hterm, hcode⟩ := bind_eq_ok.1 h
    rw [pure_eq_ok] at hcode
    rw [← hcode]
    exact .name rfl (.word (by simp [Code.vocabulary, Code.punctuation])
      (Term.spells checked hterm))
  | raw fragment => exact Fragment.spells checked h
  | increment column amount =>
    obtain ⟨term, hterm, hcode⟩ := bind_eq_ok.1 h
    rw [pure_eq_ok] at hcode
    rw [← hcode]
    exact .name rfl (.word (by simp [Code.vocabulary, Code.punctuation]) (.name rfl
      (.word (by simp [Code.vocabulary, Code.punctuation]) (Term.spells checked hterm))))
  | decrement column amount =>
    obtain ⟨term, hterm, hcode⟩ := bind_eq_ok.1 h
    rw [pure_eq_ok] at hcode
    rw [← hcode]
    exact .name rfl (.word (by simp [Code.vocabulary, Code.punctuation]) (.name rfl
      (.word (by simp [Code.vocabulary, Code.punctuation]) (Term.spells checked hterm))))

theorem Cell.spells {cell : Cell} (checked : cell.Checked raw) (h : cell.code = .ok code) :
    Spells raw code cell.mentions := by
  cases cell with
  | value term => exact Term.spells checked h
  | default | pending =>
    rw [← Except.ok.inj h]
    exact .word (by simp [Code.vocabulary, Code.changeWords]) .nil

theorem Cell.spells_row {row : List Cell} (checked : ∀ cell ∈ row, cell.Checked raw)
    (h : Cell.rowCode row = .ok code) : Spells raw code (row.flatMap Cell.mentions) := by
  obtain ⟨codes, hcodes, hcode⟩ := bind_eq_ok.1 h
  rw [pure_eq_ok] at hcode
  rw [← hcode]
  refine Spells.parenthesized (Spells.list (bind_eq_ok.2 ⟨codes, hcodes, rfl⟩) ?_)
  exact fun cell hcell _ hwritten ↦ Cell.spells (checked cell hcell) hwritten

theorem ConflictTarget.follows {target : ConflictTarget} (checked : target.Checked raw)
    (h : target.code = .ok code) : Follows raw code target.mentions := by
  cases target with
  | columns names =>
    rw [← Except.ok.inj h]
    exact .word (by simp [Code.vocabulary, Code.punctuation]) rfl
      (Spells.nameList names).parenthesized
  | raw fragment =>
    obtain ⟨inner, hinner, hcode⟩ := bind_eq_ok.1 h
    rw [pure_eq_ok] at hcode
    rw [← hcode]
    exact .word (by simp [Code.vocabulary, Code.punctuation]) rfl (Fragment.spells checked hinner)
  | inferred =>
    rw [← Except.ok.inj h]
    exact .nil

namespace MergeSpec

private theorem spells_inserted {columns : List String} (h : insertedCode columns = .ok code) :
    Spells raw code (columns.flatMap fun column ↦ [.name column, .name column]) := by
  unfold insertedCode at h
  split at h
  · exact absurd h (by simp)
  · rw [← Except.ok.inj h]
    refine Spells.listOf columns fun column ↦ .name rfl ?_
    exact .word (by simp [Code.vocabulary, Code.changeWords]) (.name rfl .nil)

theorem spells {spec : MergeSpec} {inserted : List String} (checked : spec.Checked raw)
    (h : spec.code inserted = .ok code) : Spells raw code (spec.mentions inserted) := by
  cases spec with
  | inserted => exact spells_inserted h
  | columns names => exact spells_inserted h
  | raw fragment => exact Fragment.spells checked h
  | values assigned =>
    refine Spells.list h fun value hvalue code hcode ↦ ?_
    obtain ⟨term, hterm, hwritten⟩ := bind_eq_ok.1 hcode
    rw [pure_eq_ok] at hwritten
    rw [← hwritten]
    exact .name rfl (.word (by simp [Code.vocabulary, Code.punctuation])
      (Term.spells (checked value hvalue) hterm))

end MergeSpec

/-- The reaction to a conflict. The filter is written only where rows are merged. -/
theorem Conflict.follows {conflict : Conflict} {inserted : List String} {filter : Filter Statement}
    (checked : conflict.Checked raw) (hfilter : filter.Checked raw (Statement.Spelled raw))
    (h : conflict.code inserted (foldFilter Clauses.code filter) (owner.map .name) = .ok code) :
    Follows raw code
      (conflict.mentions inserted (foldFilter Clauses.mentions filter) owner) := by
  obtain ⟨target, action⟩ := conflict
  have hon {given behind : Code} {mentions : List Mention} (hgiven : target.code = .ok given)
      (hbehind : Follows raw behind mentions) :
      Follows raw (.word " ON CONFLICT" :: (given ++ behind)) (target.mentions ++ mentions) :=
    .word (by simp [Code.vocabulary, Code.changeWords]) rfl
      ((ConflictTarget.follows checked.1 hgiven).append hbehind).spells
  cases action with
  | ignore =>
    simp only [Conflict.code, bind_eq_ok, refusing_eq_ok, pure_eq_ok] at h
    obtain ⟨given, hgiven, _, rfl⟩ := h
    exact hon hgiven (.word (by simp [Code.vocabulary, Code.changeWords]) rfl .nil)
  | merge spec =>
    simp only [Conflict.code, Filter.code?, Condition.code?, bind_assoc, bind_eq_ok, pure_bind,
      pure_eq_ok] at h
    obtain ⟨given, hgiven, values, hvalues, formula, hformula, rfl⟩ := h
    have hspelled : formula.Spelled raw _ := Filter.spelled hfilter hformula
    have hcondition := hspelled.clause fun condition hcondition ↦
      (.word (by simp [Code.vocabulary, Code.selectionWords]) rfl hcondition :
        Follows raw (.word " WHERE " :: condition) _)
    simp only [List.append_assoc, List.cons_append]
    exact hon hgiven (.word (by simp [Code.vocabulary, Code.changeWords]) rfl
      ((MergeSpec.spells checked.2 hvalues).followed hcondition))

/-! ## Insertions -/

namespace Insertion

open Statement (foldInsertion foldInsertSource)

/-- The source of an insertion is led by a blank and spells its mentions. -/
theorem follows_source {insertion : Insertion Statement}
    (checked : insertion.source.Checked raw (Statement.Spelled raw))
    (h : (foldInsertion Clauses.code insertion).sourceCode = .ok code) :
    Follows raw code (foldInsertion Clauses.mentions insertion).sourceMentions := by
  obtain ⟨columns, source, conflict⟩ := insertion
  have hcolumns : Spells raw (Code.parenthesized (Code.nameList columns)) (columns.map .name) :=
    (Spells.nameList columns).parenthesized
  cases source with
  | rows rows =>
    simp only [foldInsertion, foldInsertSource, sourceCode, sourceMentions] at h ⊢
    cases columns with
    | nil =>
      simp only [List.isEmpty_nil, ↓reduceIte, refusing_eq_ok, pure_eq_ok] at h ⊢
      obtain ⟨_, rfl⟩ := h
      exact .word (by simp [Code.vocabulary, Code.changeWords]) rfl .nil
    | cons column others =>
      simp only [List.isEmpty_cons, Bool.false_eq_true, ↓reduceIte, bind_eq_ok, pure_eq_ok] at h ⊢
      obtain ⟨written, hwritten, rfl⟩ := h
      have hrows := Spells.list (bind_eq_ok.2 ⟨written, hwritten, rfl⟩) fun row hrow _ hcode ↦
        Cell.spells_row (checked row hrow) hcode
      exact ⟨hcolumns.glued " VALUES " hrows (by simp [Code.vocabulary, Code.changeWords]) rfl, rfl⟩
  | raw fragment =>
    simp only [foldInsertion, foldInsertSource, sourceCode, sourceMentions, bind_eq_ok,
      pure_eq_ok] at h ⊢
    obtain ⟨rows, hrows, rfl⟩ := h
    have hvalues := hcolumns.glued " VALUES " (Fragment.spells checked hrows)
      (by simp [Code.vocabulary, Code.changeWords]) rfl
    exact ⟨hvalues, rfl⟩
  | query sub =>
    simp only [foldInsertion, foldInsertSource, sourceCode, sourceMentions, bind_eq_ok,
      pure_eq_ok] at h ⊢
    obtain ⟨rows, hrows, rfl⟩ := h
    have hquery := hcolumns.glued " " (checked rows hrows)
      (by simp [Code.vocabulary, Code.punctuation]) rfl
    exact ⟨hquery, rfl⟩

/-- An insertion spells its mentions. -/
theorem spells {insertion : Insertion Statement} {filter : Filter Statement} {target : Code}
    {mentions : List Mention} (checked : insertion.Checked raw (Statement.Spelled raw))
    (hfilter : filter.Checked raw (Statement.Spelled raw)) (htarget : Spells raw target mentions)
    (h : (foldInsertion Clauses.code insertion).code target (foldFilter Clauses.code filter)
      (owner.map .name) = .ok code) :
    Spells raw code (mentions ++
      (foldInsertion Clauses.mentions insertion).mentions (foldFilter Clauses.mentions filter)
        owner) := by
  obtain ⟨columns, source, conflict⟩ := insertion
  have hinto {given behind : Code} {others : List Mention}
      (hgiven : (foldInsertion Clauses.code ⟨columns, source, conflict⟩).sourceCode = .ok given)
      (hbehind : Follows raw behind others) :
      Spells raw (.word "INSERT INTO " :: (target ++ (given ++ behind)))
        (mentions ++ ((foldInsertion Clauses.mentions
          ⟨columns, source, conflict⟩).sourceMentions ++ others)) :=
    .word (by simp [Code.vocabulary, Code.changeWords])
      (htarget.followed ((follows_source checked.1 hgiven).append hbehind))
  cases conflict with
  | none =>
    simp only [foldInsertion, Insertion.code, Insertion.mentions, bind_eq_ok, refusing_eq_ok,
      pure_bind, pure_eq_ok, List.append_assoc, List.cons_append] at h ⊢
    obtain ⟨given, hgiven, _, rfl⟩ := h
    exact hinto hgiven .nil
  | some conflict =>
    simp only [foldInsertion, Insertion.code, Insertion.mentions, bind_eq_ok, pure_eq_ok,
      List.append_assoc, List.cons_append] at h ⊢
    obtain ⟨given, hgiven, reaction, hreaction, rfl⟩ := h
    exact hinto hgiven (Conflict.follows (checked.2 conflict rfl) hfilter hreaction)

end Insertion

/-! ## Locks -/

private theorem LockWait.follows (wait : Option LockWait) :
    Follows raw
      (match wait with
        | some wait => [.word " ", .word wait.toSql]
        | none => [])
      [] := by
  cases wait with
  | none => exact .nil
  | some wait =>
    refine .word (by simp [Code.vocabulary, Code.punctuation]) rfl (.word ?_ .nil)
    cases wait <;> simp [LockWait.toSql, Code.vocabulary, Code.lockWords]

theorem RowLock.spells {lock : RowLock} (checked : lock.Checked raw) (h : lock.code = .ok code) :
    Spells raw code lock.mentions := by
  obtain ⟨strength, tables, wait⟩ := lock
  have hstrength : strength.toSql ∈ Code.vocabulary := by
    cases strength <;> simp [LockStrength.toSql, Code.vocabulary, Code.lockWords]
  have hlock {named waiting : Code} {mentions : List Mention} (hnamed : Follows raw named mentions)
      (hwaiting : Follows raw waiting []) :
      Spells raw (.word "FOR " :: .word strength.toSql :: named ++ waiting) mentions := by
    have hall := hnamed.append hwaiting
    rw [List.append_nil] at hall
    exact .word (by simp [Code.vocabulary, Code.lockWords]) (.word hstrength hall.spells)
  have hof {named : Code} {mentions : List Mention} (hnamed : Spells raw named mentions) :
      Follows raw (.word " OF " :: named) mentions :=
    .word (by simp [Code.vocabulary, Code.lockWords]) rfl hnamed
  match tables with
  | none =>
    simp only [RowLock.code, pure_bind, pure_eq_ok] at h
    rw [← h]
    exact hlock .nil (LockWait.follows wait)
  | some (.names tables) =>
    simp only [RowLock.code, pure_bind, pure_eq_ok] at h
    rw [← h]
    exact hlock (hof (Spells.nameList tables)) (LockWait.follows wait)
  | some (.raw fragment) =>
    simp only [RowLock.code, bind_eq_ok, pure_bind, pure_eq_ok] at h
    obtain ⟨inner, hinner, rfl⟩ := h
    exact hlock (hof (Fragment.spells checked hinner)) (LockWait.follows wait)

/-! ## Bulk statements -/

theorem TruncateOptions.spells (options : TruncateOptions) {table : Code} {mentions : List Mention}
    (htable : Spells raw table mentions) : Spells raw (options.code table) mentions := by
  obtain ⟨restart, cascade⟩ := options
  have hrestart : Follows raw (if restart then [.word " RESTART IDENTITY"] else []) [] := by
    cases restart with
    | false => exact .nil
    | true => exact .word (by simp [Code.vocabulary, Code.bulkWords]) rfl .nil
  have hcascade : Follows raw (if cascade then [.word " CASCADE"] else []) [] := by
    cases cascade with
    | false => exact .nil
    | true => exact .word (by simp [Code.vocabulary, Code.bulkWords]) rfl .nil
  have hall := (htable.followed hrestart).followed hcascade
  rw [List.append_nil, List.append_nil] at hall
  exact .word (by simp [Code.vocabulary, Code.bulkWords]) hall

namespace CopyOptions

private theorem known {name : String} (h : name ∈ Code.bulkWords) : name ∈ Code.vocabulary := by
  simp [Code.vocabulary, h]

private theorem spells_text (name : String) (h : name ∈ Code.bulkWords) (value : Option String) :
    SpellsEach raw (textOption name value) (value.toList.map .option) := by
  cases value with
  | none => exact .nil
  | some value =>
    exact .single (.word (known h) (.word (by simp [Code.vocabulary, Code.punctuation])
      (.option rfl .nil)))

/-- An option whose value is a word of the library. -/
private theorem spells_known (name : String) (h : name ∈ Code.bulkWords) {value : Option String}
    (hvalue : ∀ word ∈ value, word ∈ Code.vocabulary) :
    SpellsEach raw (wordOption name value) [] := by
  cases value with
  | none => exact .nil
  | some value =>
    exact .single (.word (known h) (.word (by simp [Code.vocabulary, Code.punctuation])
      (.word (hvalue value rfl) .nil)))

private theorem spells_columns (name : String) (h : name ∈ Code.bulkWords) (columns : List String) :
    SpellsEach raw (columnsOption name columns) (columns.map .name) := by
  cases columns with
  | nil => exact .nil
  | cons column rest =>
    exact .single (.word (known h) (.word (by simp [Code.vocabulary, Code.punctuation])
      (Spells.nameList (column :: rest)).parenthesized))

private theorem spells_format {format : Option String}
    (checked : ∀ word ∈ format, isFormat word) :
    SpellsEach raw (wordOption "FORMAT" format) (format.toList.map .format) := by
  cases format with
  | none => exact .nil
  | some word =>
    exact .single (.word (known (by simp [Code.bulkWords])) (.word
      (by simp [Code.vocabulary, Code.punctuation]) (.format (checked word rfl) .nil)))

private theorem flagWord_mem (value : Bool) : flagWord value ∈ Code.vocabulary := by
  cases value <;>
    simp [flagWord, Code.vocabulary, Code.bulkWords, Code.conditionWords]

private theorem headerWord_mem (header : CopyHeader) : headerWord header ∈ Code.vocabulary := by
  cases header with
  | present value => exact flagWord_mem value
  | checked => simp [headerWord, Code.vocabulary, Code.bulkWords]

/-- The options of a copy spell their mentions in order. -/
private theorem spells_items {options : CopyOptions} (checked : options.Checked) :
    SpellsEach raw options.items
      (options.format.toList.map .format ++ options.delimiter.toList.map .option ++
        options.null.toList.map .option ++ options.quote.toList.map .option ++
        options.escape.toList.map .option ++ options.forceQuote.map .name ++
        options.forceNotNull.map .name ++ options.forceNull.map .name ++
        options.encoding.toList.map .option) := by
  have hfreeze : SpellsEach raw (wordOption "FREEZE" (options.freeze.map flagWord)) [] := by
    refine spells_known "FREEZE" (by simp [Code.bulkWords]) fun word hword ↦ ?_
    obtain ⟨value, _, rfl⟩ := Option.map_eq_some_iff.1 hword
    exact flagWord_mem value
  have hheader : SpellsEach raw (wordOption "HEADER" (options.header.map headerWord)) [] := by
    refine spells_known "HEADER" (by simp [Code.bulkWords]) fun word hword ↦ ?_
    obtain ⟨value, _, rfl⟩ := Option.map_eq_some_iff.1 hword
    exact headerWord_mem value
  have hfile := (((spells_format checked).append hfreeze).append
    (spells_text "DELIMITER" (by simp [Code.bulkWords]) options.delimiter)).append
    (spells_text "NULL" (by simp [Code.bulkWords]) options.null)
  have hquotes := ((hfile.append hheader).append
    (spells_text "QUOTE" (by simp [Code.bulkWords]) options.quote)).append
    (spells_text "ESCAPE" (by simp [Code.bulkWords]) options.escape)
  have hcolumns := ((hquotes.append
    (spells_columns "FORCE_QUOTE" (by simp [Code.bulkWords]) options.forceQuote)).append
    (spells_columns "FORCE_NOT_NULL" (by simp [Code.bulkWords]) options.forceNotNull)).append
    (spells_columns "FORCE_NULL" (by simp [Code.bulkWords]) options.forceNull)
  have hall := hcolumns.append
    (spells_text "ENCODING" (by simp [Code.bulkWords]) options.encoding)
  simp only [List.append_nil] at hall
  exact hall

private theorem follows_settings {options : CopyOptions} {mentions : List Mention}
    (h : SpellsEach raw options.items mentions) :
    Follows raw
      (if options.items.isEmpty then []
        else .word " WITH " :: Code.parenthesized (Code.separated ", " options.items))
      mentions := by
  cases hitems : options.items with
  | nil =>
    obtain ⟨parts, hparts, rfl, _⟩ := h
    rw [hitems] at hparts
    rw [List.map_eq_nil_iff.1 hparts.symm]
    exact .nil
  | cons item rest =>
    rw [hitems] at h
    exact .word (known (by simp [Code.bulkWords])) rfl h.commas.parenthesized

private theorem spells_target (options : CopyOptions) :
    Spells raw options.targetCode
      (match options.target with
        | .path text | .program text => [.option text]
        | .client => []) := by
  unfold targetCode
  cases options.target with
  | path path => exact .option rfl .nil
  | program command => exact .word (known (by simp [Code.bulkWords])) (.option rfl .nil)
  | client =>
    cases options.direction with
    | into => exact .word (known (by simp [Code.bulkWords])) .nil
    | outOf => exact .word (known (by simp [Code.bulkWords])) .nil

/-- A copy statement spells its mentions. -/
theorem spells {options : CopyOptions} {table : Code} {mentions : List Mention}
    (checked : options.Checked) (htable : Spells raw table mentions) :
    Spells raw (options.code table) (mentions ++ options.mentions) := by
  have hsettings : Follows raw _ _ := follows_settings (spells_items checked)
  have htarget : Spells raw _ _ := (spells_target options).followed hsettings
  have hcolumns : Follows raw _ _ := Code.follows_columns options.columns
  have hway (word : String) (hword : word ∈ Code.vocabulary) (lead : Code.led [.word word]) :
      Spells raw (.word "COPY " :: (table ++ (_ ++ Piece.word word :: (_ ++ _)))) _ :=
    .word (known (by simp [Code.bulkWords]))
      (htable.followed (hcolumns.append (.word hword lead htarget)))
  unfold CopyOptions.code CopyOptions.mentions
  simp only [List.append_assoc, List.cons_append] at hway ⊢
  cases options.direction with
  | into => exact hway " FROM " (by simp [Code.vocabulary, Code.selectionWords]) rfl
  | outOf => exact hway " TO " (by simp [Code.vocabulary, Code.bulkWords]) rfl

end CopyOptions

/-! ## Descriptions of columns -/

theorem Table.spells_description (table : Table) (column : Option String) :
    Spells raw (Clauses.describeCode table column) (table.describedMentions column) := by
  have known {word : String} (h : word ∈ Code.descriptionWords) : word ∈ Code.vocabulary := by
    simp [Code.vocabulary, h]
  have hcolumn : Follows raw
      (match column with
        | some column => [.word " AND column_name = ", .bind (.text column)]
        | none => [])
      (column.toList.map fun column ↦ .value (.text column)) := by
    cases column with
    | none => exact .nil
    | some column => exact .word (known (by simp [Code.descriptionWords])) rfl (.value rfl .nil)
  have hschema : Follows raw
      (match table.schema with
        | some schema => [.word " AND table_schema = ", .bind (.text schema)]
        | none => [.word " AND table_schema = current_schema()"])
      (table.schema.toList.map fun schema ↦ .value (.text schema)) := by
    cases table.schema with
    | none => exact .word (known (by simp [Code.descriptionWords])) rfl .nil
    | some schema => exact .word (known (by simp [Code.descriptionWords])) rfl (.value rfl .nil)
  have hcatalog : Follows raw (.word " AND table_catalog = current_database()" :: _) _ :=
    .word (known (by simp [Code.descriptionWords])) rfl (hschema.append hcolumn).spells
  exact .word (known (by simp [Code.descriptionWords])) (.value hcatalog.lead hcatalog.spells)

end SqlComposer
