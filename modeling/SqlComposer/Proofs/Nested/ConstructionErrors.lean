import SqlComposer.Execution
import SqlComposer.Proofs.Mentions.ConditionSpelling

/-!
# Construction errors

Whatever is wrong with a query itself is a construction error: a name that cannot be parsed, a table
or a relation that is not known, rows that do not fit together, a fragment whose marks do not agree
with its values, or a clause that a statement does not take. So the insertions of related rows are
built, and statements are written, without any other failure.
-/

namespace SqlComposer

/-- A computation that fails with construction errors only. -/
def Constructs {α : Type} (result : Except Error α) : Prop :=
  ∀ error, result = .error error → error.isConstruction

section

variable {α β : Type}

theorem constructs_ok (value : α) : Constructs (.ok value) := nofun

theorem constructs_error {error : Error} (h : error.isConstruction) :
    Constructs (.error error : Except Error α) := by
  intro other hother
  cases hother
  exact h

theorem Constructs.bind {result : Except Error α} {next : α → Except Error β}
    (first : Constructs result) (rest : ∀ value, Constructs (next value)) :
    Constructs (result >>= next) := by
  cases result with
  | ok value => exact rest value
  | error error => exact constructs_error (first error rfl)

theorem Constructs.map {result : Except Error α} (first : Constructs result) (f : α → β) :
    Constructs (result.map f) := by
  cases result with
  | ok value => exact constructs_ok (f value)
  | error error => exact constructs_error (first error rfl)

theorem Constructs.mapM_of_mem {f : α → Except Error β} {items : List α}
    (each : ∀ item ∈ items, Constructs (f item)) : Constructs (items.mapM f) := by
  induction items with
  | nil => exact constructs_ok []
  | cons item rest ih =>
    rw [List.forall_mem_cons] at each
    rw [List.mapM_cons]
    exact each.1.bind fun first ↦ (ih each.2).bind fun others ↦ constructs_ok (first :: others)

theorem Constructs.mapM {f : α → Except Error β} (each : ∀ item, Constructs (f item))
    (items : List α) : Constructs (items.mapM f) :=
  mapM_of_mem fun item _ ↦ each item

end

namespace Ident

theorem constructs_readBareRest (text : String) (cs : List Char) :
    Constructs (readBareRest text cs) := by
  induction cs with
  | nil => exact constructs_ok _
  | cons c rest ih =>
    unfold readBareRest
    split
    · exact constructs_ok _
    · split
      · exact ih.map _
      · exact constructs_error rfl

theorem constructs_readPart (text : String) (cs : List Char) : Constructs (readPart text cs) := by
  unfold readPart
  split
  · exact constructs_ok _
  · split
    · exact constructs_error rfl
    · exact constructs_error rfl
    · exact constructs_ok _
  · exact constructs_error rfl
  · split
    · exact constructs_error rfl
    · split
      · exact (constructs_readBareRest text _).map _
      · exact constructs_error rfl

theorem constructs_readMore (text : String) (previous : IdentPart) (cs : List Char) :
    Constructs (readMore text previous cs) := by
  fun_induction readMore text previous cs with
  | case1 => exact constructs_ok []
  | case2 | case3 | case4 => exact constructs_error rfl
  | case5 _ _ _ _ _ _ error hpart => exact constructs_error (constructs_readPart text _ error hpart)
  | case6 _ _ _ _ _ _ _ _ _ _ ih => exact ih.map _

theorem constructs_parse (text : String) : Constructs (parse text) := by
  unfold parse
  split
  · exact constructs_error rfl
  · split
    · exact constructs_error rfl
    · exact (constructs_readPart text _).bind fun _ ↦
        (constructs_readMore text _ _).bind fun _ ↦ constructs_ok _

end Ident

theorem ColumnRef.constructs_parse (text : String) : Constructs (ColumnRef.parse text) := by
  refine (Ident.constructs_parse text).bind fun ident ↦ ?_
  split
  · exact constructs_ok _
  · exact constructs_ok _
  · exact constructs_error rfl

theorem Clauses.constructs_requireTable {Sub : Type} (clauses : Clauses Sub) (purpose : String) :
    Constructs (clauses.requireTable purpose) := by
  unfold requireTable
  split
  · exact constructs_ok _
  · exact constructs_error rfl

theorem RowPart.constructs_ofEntry (table : Table) (catalogued : Bool) (entry : String × Entry) :
    Constructs (ofEntry table catalogued entry) := by
  have hrelation (key : String) : Constructs (relationOf table catalogued key) := by
    unfold relationOf
    split
    · split
      · exact constructs_ok _
      · exact constructs_error rfl
    · exact constructs_error rfl
  obtain ⟨key, entry⟩ := entry
  cases entry with
  | value term => exact constructs_ok _
  | create data => exact (hrelation key).map _
  | createMany rows =>
    refine (hrelation key).bind fun relation ↦ ?_
    unfold ofRows
    split
    · exact constructs_ok _
    · exact constructs_error rfl

namespace Query

theorem constructs_sibling (query : Query) (name : String) : Constructs (query.sibling name) := by
  unfold sibling
  split
  · exact constructs_error rfl
  · split
    · exact constructs_error rfl
    · exact constructs_ok _

theorem constructs_insertRows (query : Query) (rows : List Payload) (many : Bool) :
    Constructs (query.insertRows rows many) := by
  have hstart (insertion : Insertion Statement) (readBack : List String)
      (related : List RelatedInsert) :
      Constructs (query.startInsert insertion many readBack related) := by
    unfold startInsert
    split
    · exact constructs_ok _
    · exact constructs_error rfl
  refine (query.clauses.constructs_requireTable "insert").bind fun table ↦
    Constructs.bind ?_ fun plan ↦ ?_
  · exact (Constructs.mapM (fun payload : Payload ↦
      Constructs.mapM (RowPart.constructs_ofEntry table _) payload.entries) _).bind
        fun _ ↦ constructs_ok _
  · split
    · exact constructs_error rfl
    · exact hstart _ _ _

theorem constructs_insertionBefore (query : Query) (relation : Relation) (data : Payload) :
    Constructs (query.insertionBefore relation data) :=
  (query.constructs_sibling _).bind fun sibling ↦ (sibling.constructs_insertRows _ _).bind fun _ ↦
    ((Constructs.mapM ColumnRef.constructs_parse _).bind fun _ ↦ constructs_ok _).bind
      fun _ ↦ constructs_ok _

theorem constructs_insertionAfter (query : Query) (relation : Relation) (rows : List Payload)
    (key : Literal) : Constructs (query.insertionAfter relation rows key) := by
  refine (query.constructs_sibling _).bind fun sibling ↦ Constructs.bind ?_ fun _ ↦ constructs_ok _
  unfold insertMany
  split
  · exact constructs_error rfl
  · exact sibling.constructs_insertRows _ _

end Query

/-! ## Code without sub-queries -/

theorem Fragment.constructs_code (fragment : Fragment) : Constructs fragment.code := by
  unfold code fault?
  dsimp only
  split
  · rename_i error hfault
    split at hfault
    · cases hfault
    · cases hfault
      exact constructs_error rfl
  · exact constructs_ok _

theorem Term.constructs_code (qualifier : Qualifier) (term : Term) :
    Constructs (term.code qualifier) := by
  cases term with
  | literal value => exact constructs_ok _
  | raw fragment => exact fragment.constructs_code
  | column reference => exact constructs_ok _

theorem Term.constructs_listCode (qualifier : Qualifier) (terms : List Term) :
    Constructs (listCode qualifier terms) :=
  (Constructs.mapM (constructs_code qualifier) terms).bind fun _ ↦ constructs_ok _

theorem OrderItem.constructs_listCode (qualifier : Qualifier) (items : List OrderItem) :
    Constructs (listCode qualifier items) := by
  have hitem (item : OrderItem) : Constructs (item.code qualifier) := by
    cases item with
    | column reference direction => exact constructs_ok _
    | raw fragment => exact fragment.constructs_code
  exact (Constructs.mapM hitem items).bind fun _ ↦ constructs_ok _

theorem GroupItem.constructs_listCode (qualifier : Qualifier) (items : List GroupItem) :
    Constructs (listCode qualifier items) := by
  have hitem (item : GroupItem) : Constructs (item.code qualifier) := by
    cases item with
    | column reference => exact constructs_ok _
    | raw fragment => exact fragment.constructs_code
  exact (Constructs.mapM hitem items).bind fun _ ↦ constructs_ok _

theorem Window.constructs_code (qualifier : Qualifier) (window : Window) :
    Constructs (window.code qualifier) := by
  unfold code
  cases window.order.isEmpty with
  | true => exact constructs_ok _
  | false => exact (OrderItem.constructs_listCode qualifier _).bind fun _ ↦ constructs_ok _

theorem Window.constructs_declarations (qualifier : Qualifier)
    (windows : List (String × Window)) : Constructs (declarations qualifier windows) := by
  have hitem (declared : String × Window) : Constructs (do
      return Piece.name declared.1 :: .word " AS " :: (← declared.2.code qualifier)) :=
    (declared.2.constructs_code qualifier).bind fun _ ↦ constructs_ok _
  exact (Constructs.mapM hitem windows).bind fun _ ↦ constructs_ok _

theorem WindowCall.constructs_code (qualifier : Qualifier) (call : WindowCall) :
    Constructs (call.code qualifier) := by
  obtain ⟨function, argument, window⟩ := call
  cases window with
  | named name => exact constructs_ok _
  | window window => exact (window.constructs_code qualifier).bind fun _ ↦ constructs_ok _

theorem RowLock.constructs_code (lock : RowLock) : Constructs lock.code := by
  obtain ⟨strength, tables, wait⟩ := lock
  match tables with
  | none | some (.names tables) => exact constructs_ok _
  | some (.raw fragment) => exact fragment.constructs_code.bind fun _ ↦ constructs_ok _

theorem Assignment.constructs_listCode (assignments : List Assignment) (stamped : Option String) :
    Constructs (listCode assignments stamped) := by
  have hitem (assignment : Assignment) : Constructs assignment.code := by
    cases assignment with
    | raw fragment => exact fragment.constructs_code
    | set column value | increment column value | decrement column value =>
      exact (value.constructs_code none).bind fun _ ↦ constructs_ok _
  unfold listCode
  split
  · exact constructs_error rfl
  · exact (Constructs.mapM hitem assignments).bind fun _ ↦ constructs_ok _

theorem Cell.constructs_rowCode (row : List Cell) : Constructs (rowCode row) := by
  have hcell (cell : Cell) : Constructs cell.code := by
    cases cell with
    | value term => exact term.constructs_code none
    | default | pending => exact constructs_ok _
  exact (Constructs.mapM hcell row).bind fun _ ↦ constructs_ok _

theorem MergeSpec.constructs_code (inserted : List String) (spec : MergeSpec) :
    Constructs (spec.code inserted) := by
  have hinserted (columns : List String) : Constructs (insertedCode columns) := by
    unfold insertedCode
    split
    · exact constructs_error rfl
    · exact constructs_ok _
  cases spec with
  | inserted | columns => exact hinserted _
  | values assigned =>
    have hitem (assignment : String × Term) : Constructs (do
        return Piece.name assignment.1 :: .word " = " :: (← assignment.2.code none)) :=
      (assignment.2.constructs_code none).bind fun _ ↦ constructs_ok _
    exact (Constructs.mapM hitem assigned).bind fun _ ↦ constructs_ok _
  | raw fragment => exact fragment.constructs_code

theorem Clauses.constructs_checkGuarded {Sub : Type} (clauses : Clauses Sub) (action : String) :
    Constructs (clauses.checkGuarded action) := by
  unfold checkGuarded
  split
  · exact constructs_ok _
  · exact constructs_error rfl

/-! ## Code around sub-queries -/

/-- A comparison fails to be built only by a construction error. -/
theorem constructs_comparisonCode (left : Code) (comparison : Comparison)
    {operand : Comparand Written} (qualifier : Qualifier)
    (sub : ∀ code, operand = .query code → Constructs code) :
    Constructs (comparisonCode left comparison operand qualifier) := by
  cases operand with
  | term term =>
    simp only [comparisonCode]
    split
    · exact constructs_ok _
    · split
      · exact constructs_ok _
      · refine (term.constructs_code qualifier).bind fun right ↦ ?_
        split <;> exact constructs_ok _
  | list terms =>
    simp only [comparisonCode]
    split
    · split
      · exact constructs_ok _
      · exact (Term.constructs_listCode qualifier terms).bind fun _ ↦ constructs_ok _
    · exact constructs_error rfl
  | range lower upper =>
    simp only [comparisonCode]
    split
    · exact (lower.constructs_code qualifier).bind fun _ ↦
        (upper.constructs_code qualifier).bind fun _ ↦ constructs_ok _
    · exact constructs_error rfl
  | query code => exact (sub code rfl).bind fun _ ↦ constructs_ok _

/-- An aggregate call fails to be built only by a construction error. -/
theorem Condition.constructs_callCode {qualifier : Qualifier}
    {groups : List (List (Condition Written))} (function : String) (argument : Option ColumnRef)
    (distinct : Bool) (order : List OrderItem) (withinGroup : Bool)
    (inner : Constructs (groupFormulas qualifier groups)) :
    Constructs
      (callCode qualifier ⟨function, argument, distinct, order, withinGroup, ⟨groups⟩⟩) := by
  cases order with
  | nil =>
    simp only [callCode, List.isEmpty_nil, ↓reduceIte, pure_bind]
    exact inner.bind fun _ ↦ constructs_ok _
  | cons item rest =>
    simp only [callCode, List.isEmpty_cons, Bool.false_eq_true, ↓reduceIte, pure_bind]
    exact (OrderItem.constructs_listCode qualifier _).bind fun _ ↦ inner.bind fun _ ↦
      constructs_ok _

theorem SelectItem.constructs_code (qualifier : Qualifier) {item : SelectItem Written}
    (sub : ∀ code, item.expression = .query code → Constructs code) :
    Constructs (item.code qualifier) := by
  have hexpression : Constructs (expressionCode qualifier item.expression) := by
    cases hitem : item.expression with
    | column | json | count => exact constructs_ok _
    | raw fragment => exact fragment.constructs_code
    | query code => exact (sub code hitem).bind fun _ ↦ constructs_ok _
    | term value => exact value.constructs_code qualifier
    | window call => exact call.constructs_code qualifier
  exact hexpression.bind fun _ ↦ constructs_ok _

theorem Body.constructs_code {body : Body Written}
    (sub : ∀ code, body = .query code → Constructs code) : Constructs body.code := by
  cases body with
  | query code => exact sub code rfl
  | raw fragment => exact fragment.constructs_code

theorem JoinTarget.constructs_code {target : JoinTarget Written}
    (sub : ∀ code label, target = .query code label → Constructs code) :
    Constructs target.code := by
  cases target with
  | table => exact constructs_ok _
  | query code label => exact (sub code label rfl).bind fun _ ↦ constructs_ok _

namespace Insertion

theorem constructs_sourceCode {insertion : Insertion Written}
    (sub : ∀ code, insertion.source = .query code → Constructs code) :
    Constructs insertion.sourceCode := by
  obtain ⟨columns, source, conflict⟩ := insertion
  cases source with
  | rows rows =>
    simp only [sourceCode]
    split
    · split
      · exact constructs_error rfl
      · exact constructs_ok _
    · exact (Constructs.mapM Cell.constructs_rowCode rows).bind fun _ ↦ constructs_ok _
  | raw fragment => exact fragment.constructs_code.bind fun _ ↦ constructs_ok _
  | query code => exact (sub code rfl).bind fun _ ↦ constructs_ok _

/-- An insertion fails to be built only by a construction error. -/
theorem constructs_code {insertion : Insertion Written} (target : Code) {filter : Filter Written}
    {qualifier : Qualifier} (sub : ∀ code, insertion.source = .query code → Constructs code)
    (condition : Constructs (filter.code? qualifier)) :
    Constructs (insertion.code target filter qualifier) := by
  have htarget (target : ConflictTarget) : Constructs target.code := by
    cases target with
    | columns | inferred => exact constructs_ok _
    | raw fragment => exact fragment.constructs_code.bind fun _ ↦ constructs_ok _
  have hconflict (conflict : Conflict) :
      Constructs (conflict.code insertion.columns filter qualifier) := by
    obtain ⟨target, action⟩ := conflict
    refine (htarget target).bind fun _ ↦ ?_
    cases action with
    | ignore =>
      dsimp only
      split
      · exact constructs_error rfl
      · exact constructs_ok _
    | merge spec =>
      exact (spec.constructs_code _).bind fun _ ↦ condition.bind fun _ ↦ constructs_ok _
  unfold code
  refine (constructs_sourceCode sub).bind fun _ ↦ ?_
  cases insertion.conflict with
  | some conflict => exact (hconflict conflict).bind fun _ ↦ constructs_ok _
  | none =>
    dsimp only
    split
    · exact constructs_error rfl
    · exact constructs_ok _

end Insertion

namespace Clauses

/-- What stands inside of clauses can be written, or is wrong in itself. -/
structure InnerConstructs (clauses : Clauses Written) : Prop where
  source : ∀ body, clauses.source = .body body → Constructs body.code
  rows : ∀ insertion, clauses.verb = .insert insertion → ∀ code, insertion.source = .query code →
    Constructs code
  selection : ∀ item ∈ clauses.selection, ∀ code, item.expression = .query code → Constructs code
  targets : ∀ join ∈ clauses.joins, Constructs join.target.code
  conditions : ∀ join ∈ clauses.joins, ∀ qualifier, Constructs (join.condition.formula qualifier)
  filter : ∀ qualifier, Constructs (clauses.filter.formula qualifier)
  having : ∀ qualifier, Constructs (clauses.having.formula qualifier)
  commonTables : ∀ declared ∈ clauses.commonTables, Constructs declared.body.code
  combinations : ∀ combination ∈ clauses.combinations, Constructs combination.operand.code

variable {clauses : Clauses Written} (inner : clauses.InnerConstructs)

include inner

theorem constructs_filterCode : Constructs clauses.filterCode := by
  refine ((inner.filter _).bind fun formula ↦ constructs_ok _).bind fun condition ↦ ?_
  cases condition <;> exact constructs_ok _

theorem constructs_codes :
    Constructs (SelectItem.codes clauses.qualifier clauses.selection) :=
  Constructs.mapM_of_mem fun item hitem ↦ item.constructs_code _ (inner.selection item hitem)

theorem constructs_returningCode : Constructs clauses.returningCode := by
  unfold returningCode
  split
  · exact constructs_ok _
  · refine (constructs_codes inner).bind fun items ↦ ?_
    dsimp only
    split <;> exact constructs_ok _

theorem constructs_sourceCode : Constructs clauses.sourceCode := by
  unfold sourceCode
  split
  · split <;> exact constructs_ok _
  · rename_i sub hsource
    split
    · exact (inner.source _ hsource).bind fun _ ↦ constructs_ok _
    · exact constructs_error rfl
  · exact (Fragment.constructs_code _).bind fun _ ↦ constructs_ok _

theorem constructs_selectCode : Constructs clauses.selectCode := by
  have hprojection : Constructs clauses.projectionCode := by
    unfold projectionCode
    split
    · exact constructs_ok _
    · exact (constructs_codes inner).bind fun _ ↦ constructs_ok _
  have hjoins : Constructs (clauses.joins.mapM Join.code) :=
    Constructs.mapM_of_mem fun join hjoin ↦ by
      refine (inner.targets join hjoin).bind fun _ ↦ ?_
      dsimp only
      split
      · exact constructs_ok _
      · exact ((inner.conditions join hjoin _).bind fun _ ↦ constructs_ok _).bind fun _ ↦
          constructs_ok _
  have hgroups : Constructs clauses.groupsCode := by
    unfold groupsCode
    split
    · exact constructs_ok _
    · exact (GroupItem.constructs_listCode _ _).bind fun _ ↦ constructs_ok _
  have hhaving : Constructs clauses.havingCode := by
    refine ((inner.having _).bind fun formula ↦ constructs_ok _).bind fun condition ↦ ?_
    cases condition <;> exact constructs_ok _
  have hwindows : Constructs clauses.windowsCode := by
    unfold windowsCode
    split
    · exact constructs_ok _
    · exact (Window.constructs_declarations _ _).bind fun _ ↦ constructs_ok _
  have hcombinations : Constructs (clauses.combinations.mapM Combination.code) :=
    Constructs.mapM_of_mem fun combination hcombination ↦
      (inner.combinations combination hcombination).bind fun _ ↦ constructs_ok _
  have horder : Constructs clauses.orderCode := by
    unfold orderCode
    split
    · exact constructs_ok _
    · exact (OrderItem.constructs_listCode _ _).bind fun _ ↦ constructs_ok _
  have hlock : Constructs clauses.lockCode := by
    unfold lockCode
    split
    · exact (RowLock.constructs_code _).bind fun _ ↦ constructs_ok _
    · exact constructs_ok _
  exact hprojection.bind fun _ ↦ (constructs_sourceCode inner).bind fun _ ↦ hjoins.bind fun _ ↦
    (constructs_filterCode inner).bind fun _ ↦ hgroups.bind fun _ ↦ hhaving.bind fun _ ↦
    hwindows.bind fun _ ↦ hcombinations.bind fun _ ↦ horder.bind fun _ ↦ hlock.bind fun _ ↦
    constructs_ok _

theorem constructs_updateCode (table : Table) (assignments : List Assignment) :
    Constructs (clauses.updateCode table assignments) := by
  refine (clauses.constructs_checkGuarded "update").bind fun _ ↦ ?_
  dsimp only
  split
  · exact constructs_error rfl
  · exact (Assignment.constructs_listCode _ _).bind fun _ ↦
      (constructs_filterCode inner).bind fun _ ↦ constructs_ok _

theorem constructs_deleteCode (table : Table) : Constructs (clauses.deleteCode table) := by
  have hjoined : Constructs (clauses.joins.mapM fun join ↦
      join.condition.conjunct? join.qualifier) :=
    Constructs.mapM_of_mem fun join hjoin ↦
      (inner.conditions join hjoin _).bind fun _ ↦ constructs_ok _
  refine (clauses.constructs_checkGuarded "delete").bind fun _ ↦
    (Constructs.mapM_of_mem inner.targets).bind fun _ ↦ ?_
  dsimp only
  split
  · exact ((inner.filter _).bind fun _ ↦ constructs_ok _).bind fun _ ↦ hjoined.bind fun _ ↦
      constructs_ok _
  · exact ((inner.filter _).bind fun _ ↦ constructs_ok _).bind fun _ ↦ hjoined.bind fun _ ↦
      constructs_ok _

theorem constructs_code : Constructs clauses.code := by
  have hdeclarations : Constructs (CommonTable.declarations clauses.commonTables) := by
    unfold CommonTable.declarations
    split
    · exact constructs_ok _
    · exact (Constructs.mapM_of_mem fun declared hdeclared ↦
        (inner.commonTables declared hdeclared).bind fun _ ↦ constructs_ok _).bind fun _ ↦
          constructs_ok _
  have hreturning {change : Written} (h : Constructs change) : Constructs (do
      let change ← change
      return change ++ (← clauses.returningCode)) :=
    h.bind fun _ ↦ (constructs_returningCode inner).bind fun _ ↦ constructs_ok _
  have htable (purpose : String) := clauses.constructs_requireTable purpose
  have hverb : Constructs clauses.verbCode := by
    unfold verbCode
    split
    · exact constructs_selectCode inner
    · exact (htable _).bind fun _ ↦ constructs_ok _
    · exact (htable _).bind fun _ ↦ constructs_ok _
    · exact (htable _).bind fun _ ↦ constructs_ok _
    · rename_i insertion hinsertion
      exact (htable _).bind fun table ↦ hreturning (insertion.constructs_code _
        (inner.rows insertion hinsertion) ((inner.filter _).bind fun _ ↦ constructs_ok _))
    · exact (htable _).bind fun table ↦ hreturning (constructs_updateCode inner table _)
    · exact (htable _).bind fun table ↦ hreturning (constructs_deleteCode inner table)
  exact hdeclarations.bind fun _ ↦ hverb.bind fun _ ↦ constructs_ok _

end Clauses

/-! ## Statements

The code of a statement is a fold, so the induction goes the way of the fold: one step for each form
in which a sub-query stands. -/

namespace Statement

mutual

/-- A statement can be written, or is wrong in itself. -/
theorem constructs_code (statement : Statement) : Constructs statement.code :=
  match statement with
  | ⟨clauses⟩ => Clauses.constructs_code (innerConstructs_fold clauses)

theorem innerConstructs_fold (clauses : Clauses Statement) :
    (foldClauses Clauses.code clauses).InnerConstructs :=
  match clauses with
  | ⟨_, _, source, verb, _, selection, _, _, joins, filter, _, _, having, _, commonTables,
      combinations, _, _, _, _, _, _, _, _, _, _⟩ =>
    { source := constructs_foldSource source
      rows := constructs_foldVerb verb
      selection := constructs_foldItems selection
      targets := fun join hjoin ↦ (constructs_foldJoins joins join hjoin).1
      conditions := fun join hjoin ↦ (constructs_foldJoins joins join hjoin).2
      filter := constructs_foldFilter filter
      having := constructs_foldFilter having
      commonTables := constructs_foldCommonTables commonTables
      combinations := constructs_foldCombinations combinations }

theorem constructs_foldBody (body : Body Statement) :
    Constructs (foldBody Clauses.code body).code :=
  match body with
  | .query sub => constructs_code sub
  | .raw fragment => fragment.constructs_code

theorem constructs_foldSource (source : Source Statement) :
    ∀ body, foldSource Clauses.code source = .body body → Constructs body.code :=
  match source with
  | .table => nofun
  | .body own => by
    intro body hbody
    cases hbody
    exact constructs_foldBody own

theorem constructs_foldVerb (verb : Verb Statement) :
    ∀ insertion, foldVerb Clauses.code verb = .insert insertion →
      ∀ code, insertion.source = .query code → Constructs code :=
  match verb with
  | .insert own => by
    intro insertion hinsertion
    cases hinsertion
    exact constructs_foldInsertion own
  | .select | .update _ | .delete | .truncate _ | .copy _ | .describe _ => nofun

theorem constructs_foldInsertion (insertion : Insertion Statement) :
    ∀ code, (foldInsertion Clauses.code insertion).source = .query code → Constructs code :=
  match insertion with
  | ⟨_, .query sub, _⟩ => by
    intro code hcode
    cases hcode
    exact constructs_code sub
  | ⟨_, .rows _, _⟩ | ⟨_, .raw _, _⟩ => nofun

theorem constructs_foldItem (item : SelectItem Statement) :
    ∀ code, (foldItem Clauses.code item).expression = .query code → Constructs code :=
  match item with
  | ⟨.query sub, _⟩ => by
    intro code hcode
    cases hcode
    exact constructs_code sub
  | ⟨.column _, _⟩ | ⟨.raw _, _⟩ | ⟨.json _, _⟩ | ⟨.term _, _⟩ | ⟨.count _, _⟩
  | ⟨.window _, _⟩ => nofun

theorem constructs_foldItems (items : List (SelectItem Statement)) :
    ∀ item ∈ foldItems Clauses.code items, ∀ code, item.expression = .query code →
      Constructs code :=
  match items with
  | [] => fun _ hmem ↦ absurd hmem List.not_mem_nil
  | item :: rest => List.forall_mem_cons.2 ⟨constructs_foldItem item, constructs_foldItems rest⟩

theorem constructs_foldTarget (target : JoinTarget Statement) :
    Constructs (foldTarget Clauses.code target).code :=
  match target with
  | .table _ _ _ => constructs_ok _
  | .query sub _ => (constructs_code sub).bind fun _ ↦ constructs_ok _

theorem constructs_foldJoin (join : Join Statement) :
    Constructs (foldJoin Clauses.code join).target.code ∧
      ∀ qualifier, Constructs ((foldJoin Clauses.code join).condition.formula qualifier) :=
  match join with
  | ⟨_, target, condition⟩ => ⟨constructs_foldTarget target, constructs_foldCondition condition⟩

theorem constructs_foldJoins (joins : List (Join Statement)) :
    ∀ join ∈ foldJoins Clauses.code joins, Constructs join.target.code ∧
      ∀ qualifier, Constructs (join.condition.formula qualifier) :=
  match joins with
  | [] => fun _ hmem ↦ absurd hmem List.not_mem_nil
  | join :: rest => List.forall_mem_cons.2 ⟨constructs_foldJoin join, constructs_foldJoins rest⟩

theorem constructs_foldComparand (operand : Comparand Statement) :
    ∀ code, foldComparand Clauses.code operand = .query code → Constructs code :=
  match operand with
  | .query sub => by
    intro code hcode
    cases hcode
    exact constructs_code sub
  | .term _ | .list _ | .range _ _ => nofun

theorem constructs_foldCondition (condition : Condition Statement) (qualifier : Qualifier) :
    Constructs ((foldCondition Clauses.code condition).formula qualifier) :=
  match condition with
  | .compare _ _ operand =>
    (constructs_comparisonCode _ _ qualifier (constructs_foldComparand operand)).bind fun _ ↦
      constructs_ok _
  | .every conditions | .any conditions =>
    (constructs_foldConditions conditions qualifier).bind fun _ ↦ constructs_ok _
  | .not condition => (constructs_foldCondition condition qualifier).bind fun _ ↦ constructs_ok _
  | .hasRow sub => (constructs_code sub).bind fun _ ↦ constructs_ok _
  | .raw fragment => fragment.constructs_code.bind fun _ ↦ constructs_ok _
  | .aggregate call _ operand =>
    (constructs_foldCall call qualifier).bind fun _ ↦
      (constructs_comparisonCode _ _ qualifier (constructs_foldComparand operand)).bind fun _ ↦
        constructs_ok _

theorem constructs_foldConditions (conditions : List (Condition Statement))
    (qualifier : Qualifier) :
    Constructs (Condition.formulas qualifier (foldConditions Clauses.code conditions)) :=
  match conditions with
  | [] => constructs_ok _
  | condition :: rest =>
    (constructs_foldCondition condition qualifier).bind fun _ ↦
      (constructs_foldConditions rest qualifier).bind fun _ ↦ constructs_ok _

theorem constructs_foldGroups (groups : List (List (Condition Statement)))
    (qualifier : Qualifier) :
    Constructs (Condition.groupFormulas qualifier (foldGroups Clauses.code groups)) :=
  match groups with
  | [] => constructs_ok _
  | group :: rest =>
    (constructs_foldConditions group qualifier).bind fun _ ↦
      (constructs_foldGroups rest qualifier).bind fun _ ↦ constructs_ok _

theorem constructs_foldCall (call : AggregateCall Statement) (qualifier : Qualifier) :
    Constructs (Condition.callCode qualifier (foldCall Clauses.code call)) :=
  match call with
  | ⟨function, argument, distinct, order, withinGroup, ⟨groups⟩⟩ => by
    exact Condition.constructs_callCode function argument distinct order withinGroup
      (constructs_foldGroups groups qualifier)

theorem constructs_foldFilter (filter : Filter Statement) (qualifier : Qualifier) :
    Constructs ((foldFilter Clauses.code filter).formula qualifier) :=
  match filter with
  | ⟨groups⟩ => by
    have hgroups := constructs_foldGroups groups qualifier
    rw [← formulas_groups] at hgroups
    exact hgroups.bind fun _ ↦ constructs_ok _

theorem constructs_foldCommonTable (declared : CommonTable Statement) :
    Constructs (foldCommonTable Clauses.code declared).body.code :=
  match declared with
  | ⟨_, _, _, _, body⟩ => constructs_foldBody body

theorem constructs_foldCommonTables (tables : List (CommonTable Statement)) :
    ∀ declared ∈ foldCommonTables Clauses.code tables, Constructs declared.body.code :=
  match tables with
  | [] => fun _ hmem ↦ absurd hmem List.not_mem_nil
  | declared :: rest =>
    List.forall_mem_cons.2 ⟨constructs_foldCommonTable declared, constructs_foldCommonTables rest⟩

theorem constructs_foldCombination (combination : Combination Statement) :
    Constructs (foldCombination Clauses.code combination).operand.code :=
  match combination with
  | ⟨_, operand, _⟩ => constructs_foldBody operand

theorem constructs_foldCombinations (combinations : List (Combination Statement)) :
    ∀ combination ∈ foldCombinations Clauses.code combinations,
      Constructs combination.operand.code :=
  match combinations with
  | [] => fun _ hmem ↦ absurd hmem List.not_mem_nil
  | combination :: rest =>
    List.forall_mem_cons.2
      ⟨constructs_foldCombination combination, constructs_foldCombinations rest⟩

end

end Statement

theorem Query.constructs_compile (query : Query) : Constructs query.compile :=
  query.statement.constructs_code.map Code.compile

end SqlComposer
