import SqlComposer.Proofs.Layout.ClauseLayout
import SqlComposer.Proofs.Statement.FoldedChecks

/-!
# Statements that are laid out

A statement is an element, with its brackets closed and its lists filled, if it writes no list that
was given to it empty and the statements in it are elements. What a selection writes in front of the
queries it is combined with has no set operation of its own outside of brackets.
-/

namespace SqlComposer

open Code (Laid Element Whole)

variable {full : Prop} {top : Bool} {code : Code}

theorem Code.laid_restriction {conditions : List Code}
    (h : ∀ condition ∈ conditions, Element full top condition) :
    Laid full top (restriction conditions) := by
  unfold restriction
  split
  · exact .nil
  · exact .word (by decide) (.separated (by decide) fun code hcode ↦ (h code hcode).laid)

namespace Clauses

/-- Whether a list that the statement writes as it was given is empty. -/
def isHollow {Sub : Type} (clauses : Clauses Sub) : Bool :=
  match clauses.verb with
  | .select => clauses.lock.any RowLock.isHollow
  | .insert insertion => insertion.isHollow
  | .update _ | .delete | .truncate _ | .copy _ | .describe _ => false

/-- An insertion brings lists of its own that have elements. -/
def Regular {Sub : Type} (clauses : Clauses Sub) : Prop :=
  ∀ insertion, clauses.verb = .insert insertion → insertion.Regular

variable {clauses : Clauses Written}

/-! ## Parts -/

theorem element_restricting (joined : Bool) {formula : Formula} (h : formula.Whole full) :
    ∀ condition ∈ restricting joined formula, Element full top condition := by
  intro condition hcondition
  cases joined with
  | false => exact h.element (Option.mem_toList.1 hcondition)
  | true => exact h.element_conjunct (Option.mem_toList.1 hcondition)

theorem laid_target (clauses : Clauses Written) (table : Table) :
    Laid full top (clauses.targetCode table) :=
  (Code.element_table table.schema table.name).laid.append
    (Code.laid_renamed table.name clauses.label)

section Conditions

variable {filter : Filter Written}
  (checked : filter.condition.Checked (Fragment.Fills full) fun _ ↦ True)
  (whole : ∀ sub, filter.condition.Embeds sub → Whole full sub)

include checked whole

theorem laid_filter (own : clauses.filter = filter) (h : clauses.filterCode = .ok code) :
    Laid full top code := by
  subst own
  obtain ⟨formula, hformula, rfl⟩ := filterCode_eq_ok h
  exact Code.laid_restriction
    (element_restricting false
      (Condition.whole_formula clauses.aliasName checked whole hformula))

theorem laid_having (own : clauses.having = filter) (h : clauses.havingCode = .ok code) :
    Laid full top code := by
  subst own
  simp only [havingCode, Filter.code?, Condition.code?, bind_assoc, bind_eq_ok, pure_bind] at h
  obtain ⟨formula, hformula, h⟩ := h
  have hwhole : formula.Whole full :=
    Condition.whole_formula clauses.aliasName checked whole hformula
  split at h
  · rename_i condition hcondition
    rw [← pure_eq_ok.1 h]
    exact .word (by decide) (hwhole.element hcondition).laid
  · rw [← pure_eq_ok.1 h]
    exact .nil

end Conditions

theorem laid_distinct (clauses : Clauses Written) : Laid full top clauses.distinctCode := by
  unfold distinctCode
  split
  · exact .nil
  · exact .plains rfl
  · rename_i columns hsome _
    have hcolumns : Element full false (ColumnRef.listCode columns clauses.qualifier) :=
      ColumnRef.element_list (fun _ hnone ↦ hsome hnone) clauses.aliasName
    exact .word (by decide) (hcolumns.bracketed.laid.append (.plains rfl))

theorem laid_default (clauses : Clauses Written) : Laid full top clauses.defaultProjection := by
  have hcolumns (columns : List String) : Laid full top
      (ColumnRef.listCode (columns.map ColumnRef.unqualified) clauses.qualifier) := by
    refine .separated (by decide) fun code hcode ↦ ?_
    obtain ⟨column, -, rfl⟩ := List.mem_map.1 hcode
    exact (column.element clauses.aliasName).laid
  unfold defaultProjection
  dsimp only
  split
  · exact hcolumns _
  · rename_i qualifier hqualifier
    obtain ⟨label, -, rfl⟩ := Option.map_eq_some_iff.1 hqualifier
    exact .plains rfl
  · exact .plains rfl

/-- The selected items are elements. -/
theorem element_items (checked : clauses.Checked (Fragment.Fills full) fun _ ↦ True)
    (whole : ∀ sub, clauses.Embeds sub → Whole full sub) (verb : clauses.verb.handlesRows)
    {items : List Code} (h : SelectItem.codes clauses.qualifier clauses.selection = .ok items) :
    ∀ item ∈ items, Element full top item := by
  intro code hcode
  obtain ⟨item, hitem, hwritten⟩ := exists_of_mem_results h hcode
  exact SelectItem.element clauses.aliasName (checked.selection item hitem)
    (fun sub hsub ↦ whole sub (.selected verb hitem hsub)) hwritten

theorem laid_numbers (keyword : String) (plain : Code.isPlainWord keyword) (number : Option Int) :
    Laid full top (numberCode keyword number) := by
  cases number with
  | none => exact .nil
  | some number => exact .word plain (.plains rfl)

theorem laid_spaced {codes : List Code} (h : ∀ code ∈ codes, Laid full top code) :
    Laid full top (spaced codes) := by
  unfold spaced
  induction codes with
  | nil => exact .nil
  | cons first rest ih =>
    rw [List.forall_mem_cons] at h
    exact (Laid.word (by decide) h.1).append (ih h.2)

theorem laid_groups (checked : ∀ item ∈ clauses.groups, item.Checked (Fragment.Fills full))
    (h : clauses.groupsCode = .ok code) : Laid full top code := by
  obtain ⟨-, rfl⟩ | ⟨hsome, items, hitems, rfl⟩ := omitting_eq_ok.1 h
  · exact .nil
  · have helement : Element full top items := .mapM (fun _ ↦ hsome)
      (fun item hitem _ ↦ GroupItem.element clauses.aliasName (checked item hitem))
      hitems
    exact helement.list (by decide)

theorem laid_order (checked : ∀ item ∈ clauses.order, item.Checked (Fragment.Fills full))
    (h : clauses.orderCode = .ok code) : Laid full top code := by
  obtain ⟨-, rfl⟩ | ⟨hsome, items, hitems, rfl⟩ := omitting_eq_ok.1 h
  · exact .nil
  · have helement : Element full top items := OrderItem.element_list clauses.aliasName
      (fun _ ↦ hsome) checked hitems
    exact helement.list (by decide)

theorem laid_windows
    (checked : ∀ declared ∈ clauses.windows, declared.2.Checked (Fragment.Fills full))
    (h : clauses.windowsCode = .ok code) : Laid full top code := by
  obtain ⟨-, rfl⟩ | ⟨hsome, items, hitems, rfl⟩ := omitting_eq_ok.1 h
  · exact .nil
  · have helement : Element full top items := by
      refine .mapM (fun _ ↦ hsome) (fun declared hdeclared written hwritten ↦ ?_)
        hitems
      obtain ⟨window, hwindow, hwritten⟩ := bind_eq_ok.1 hwritten
      rw [← pure_eq_ok.1 hwritten]
      exact .cons rfl rfl (Window.laid clauses.aliasName (checked declared hdeclared)
        hwindow (by decide))
    exact helement.list (by decide)

/-- The row lock is laid out, if it lists its tables. -/
theorem laid_lock (checked : ∀ lock ∈ clauses.lock, lock.Checked (Fragment.Fills full))
    (given : full → clauses.lock.any RowLock.isHollow = false)
    (h : clauses.lockCode = .ok code) : Laid full top code := by
  unfold lockCode at h
  split at h
  · rename_i lock hlock
    obtain ⟨written, hwritten, hcode⟩ := bind_eq_ok.1 h
    rw [← pure_eq_ok.1 hcode]
    rw [hlock] at given
    exact .word (by decide) (RowLock.laid (checked lock hlock) given hwritten)
  · cases h
    exact .nil

/-! ## Statements -/

/-- What a selection writes in front of the queries it is combined with. -/
def frontCode (clauses : Clauses Written) : Written := do
  let projection ← clauses.projectionCode
  let source ← clauses.sourceCode
  let joins ← clauses.joins.mapM Join.code
  let filter ← clauses.filterCode
  let groups ← clauses.groupsCode
  let having ← clauses.havingCode
  let windows ← clauses.windowsCode
  return .word "SELECT " :: clauses.distinctCode ++ projection ++ source ++ spaced joins ++
    filter ++ groups ++ having ++ windows

theorem selectCode_eq (clauses : Clauses Written) : clauses.selectCode = do
    let front ← clauses.frontCode
    let combinations ← clauses.combinations.mapM Combination.code
    let order ← clauses.orderCode
    let lock ← clauses.lockCode
    return front ++ spaced combinations ++ order ++ numberCode " LIMIT " clauses.writtenLimit ++
      numberCode " OFFSET " clauses.offset ++ lock := by
  simp only [selectCode, frontCode, bind_assoc, pure_bind]

section Whole

variable (checked : clauses.Checked (Fragment.Fills full) fun _ ↦ True)
  (whole : ∀ sub, clauses.Embeds sub → Whole full sub)

include checked whole

theorem laid_source (verb : clauses.verb = .select) (h : clauses.sourceCode = .ok code) :
    Laid full top code := by
  unfold sourceCode at h
  split at h
  · split at h
    · cases h
      exact .word (by decide) (laid_target clauses _)
    · cases h
      exact .nil
  · rename_i sub hsource
    split at h
    · obtain ⟨inner, hinner, hcode⟩ := bind_eq_ok.1 h
      rw [← pure_eq_ok.1 hcode]
      exact .word (by decide) ((whole sub (.source verb hsource) inner hinner).bracketed.laid.append
        (Code.laid_aliased _))
    · cases h
  · rename_i fragment hsource
    have hfills := checked.source
    rw [hsource] at hfills
    obtain ⟨inner, hinner, hcode⟩ := bind_eq_ok.1 h
    rw [← pure_eq_ok.1 hcode]
    refine .word (by decide) ((fragment.element hfills hinner).laid.append ?_)
    split
    · exact Code.laid_aliased _
    · exact .nil

/-- What a selection writes in front of its combinations has no set operation of its own. -/
theorem element_front (verb : clauses.verb = .select) (h : clauses.frontCode = .ok code) :
    Element full top code := by
  simp only [frontCode, bind_eq_ok, pure_eq_ok] at h
  obtain ⟨projection, hprojection, source, hsource, joins, hjoins, filter, hfilter, groups, hgroups,
    having, hhaving, windows, hwindows, rfl⟩ := h
  have hrows : clauses.verb.handlesRows := by
    rw [verb]
    rfl
  have hselected : Element full top (.word "SELECT " :: clauses.distinctCode ++ projection) := by
    refine .cons (by decide) rfl ((laid_distinct clauses).append ?_)
    unfold projectionCode at hprojection
    split at hprojection
    · cases hprojection
      exact laid_default clauses
    · obtain ⟨items, hitems, hcode⟩ := bind_eq_ok.1 hprojection
      rw [← pure_eq_ok.1 hcode]
      exact .separated (by decide) fun item hitem ↦
        (element_items checked whole hrows hitems item hitem).laid
  have hjoined : Laid full top (spaced joins) := by
    refine laid_spaced fun code hcode ↦ ?_
    obtain ⟨join, hjoin, hwritten⟩ := exists_of_mem_results hjoins hcode
    exact Join.laid (checked.joins join hjoin).2
      (fun sub label hsub ↦ whole sub (.joined (.inl verb) hjoin hsub))
      (fun hkind sub hsub ↦ whole sub (.on (.inl ⟨verb, hkind⟩) hjoin hsub)) hwritten
  have hfiltered : Laid full top filter := laid_filter (Filter.checked_condition checked.filter)
    (fun sub hsub ↦ whole sub (.filter hrows hsub)) rfl hfilter
  have hgrouped : Laid full top having := laid_having (Filter.checked_condition checked.having)
    (fun sub hsub ↦ whole sub (.having verb hsub)) rfl hhaving
  exact (((((hselected.append (laid_source checked whole verb hsource)).append hjoined).append
    hfiltered).append (laid_groups checked.groups hgroups)).append hgrouped).append
    (laid_windows checked.windows hwindows)

theorem element_select (verb : clauses.verb = .select)
    (given : full → clauses.lock.any RowLock.isHollow = false)
    (h : clauses.selectCode = .ok code) : Element full false code := by
  simp only [selectCode_eq, bind_eq_ok, pure_eq_ok] at h
  obtain ⟨front, hfront, combinations, hcombinations, order, horder, lock, hlock, rfl⟩ := h
  have hcombined : Laid full false (spaced combinations) := by
    refine laid_spaced fun code hcode ↦ ?_
    obtain ⟨combination, hcombination, hwritten⟩ := exists_of_mem_results hcombinations hcode
    have hoperand := checked.combinations combination hcombination
    refine Combination.laid (fun fragment hfragment ↦ ?_)
      (fun sub hsub ↦ whole sub (.combined verb hcombination hsub)) hwritten
    rw [hfragment] at hoperand
    exact hoperand
  have hordered : Laid full false order := laid_order checked.order horder
  exact (((((element_front checked whole verb hfront).append hcombined).append hordered).append
    (laid_numbers " LIMIT " (by decide) clauses.writtenLimit)).append
    (laid_numbers " OFFSET " (by decide) clauses.offset)).append
    (laid_lock checked.lock given hlock)

theorem laid_returning (verb : clauses.verb.handlesRows) (h : clauses.returningCode = .ok code) :
    Laid full top code := by
  unfold returningCode at h
  split at h
  · cases h
    exact .plains rfl
  · obtain ⟨items, hitems, h⟩ := bind_eq_ok.1 h
    dsimp only at h
    split at h
    · cases h
      exact .nil
    · rename_i hsome
      cases h
      have helements : ∀ item ∈ items, Element full top item :=
        element_items checked whole verb hitems
      have hcolumns : ∀ code ∈ clauses.readBack.map
          fun column ↦ (ColumnRef.unqualified column).code clauses.qualifier,
          Element full top code := by
        intro code hcode
        obtain ⟨column, -, rfl⟩ := List.mem_map.1 hcode
        exact ColumnRef.element _ clauses.aliasName
      exact .list (by decide) (.returned (fun item hitem ↦ (helements item hitem).laid)
        fun column hcolumn ↦ (hcolumns column hcolumn).laid) fun hfull ↦ Code.begins_returned
          (by simpa using hsome) (fun item hitem ↦ (helements item hitem).begins hfull)
          fun column hcolumn ↦ (hcolumns column hcolumn).begins hfull

/-- The code of an update or a deletion is what it does to the rows, and what restricts them. -/
theorem element_update {table : Table} {assignments : List Assignment}
    (verb : clauses.verb = .update assignments)
    (h : clauses.updateCode table assignments = .ok code) : Element full top code := by
  obtain ⟨-, values, formula, hvalues, hformula, rfl⟩ := updateCode_eq_ok h
  have hassigned := checked.verb
  rw [verb] at hassigned
  have hset : Laid full top (.word " SET " :: values) :=
    (Assignment.element_list hassigned hvalues).list (by decide)
  have hfilter : formula.Whole full := Condition.whole_formula clauses.aliasName
    (Filter.checked_condition checked.filter)
    (fun sub hsub ↦ whole sub (.filter (by rw [verb]; rfl) hsub)) hformula
  exact (Element.cons (by decide) rfl ((laid_target clauses table).append hset)).append
    (Code.laid_restriction (element_restricting false hfilter))

theorem element_delete {table : Table} (verb : clauses.verb = .delete)
    (h : clauses.deleteCode table = .ok code) : Element full top code := by
  obtain ⟨-, targets, formula, conditions, htargets, hformula, hconditions, rfl⟩ :=
    deleteCode_eq_ok h
  have hfilter : formula.Whole full := Condition.whole_formula clauses.aliasName
    (Filter.checked_condition checked.filter)
    (fun sub hsub ↦ whole sub (.filter (by rw [verb]; rfl) hsub)) hformula
  have husing : Laid full top (usingCode targets) := by
    unfold usingCode
    split
    · exact .nil
    · rename_i hsome
      have helement : Element full top (Code.separated ", " targets) := by
        refine .commas (fun _ ↦ by simpa using hsome) fun code hcode ↦ ?_
        obtain ⟨join, hjoin, hwritten⟩ := exists_of_mem_results htargets hcode
        exact JoinTarget.element
          (fun sub label hsub ↦ whole sub (.joined (.inr verb) hjoin hsub)) hwritten
      exact helement.list (by decide)
  have hjoined : ∀ condition ∈ conditions.filterMap id, Element full top condition := by
    intro condition hcondition
    obtain ⟨_, hmember, rfl⟩ := List.mem_filterMap.1 hcondition
    obtain ⟨join, hjoin, hwritten⟩ := exists_of_mem_results hconditions hmember
    obtain ⟨own, hown, hconjunct⟩ := bind_eq_ok.1 hwritten
    have hwhole : own.Whole full := Condition.whole_formula (some join.target.aliasName)
      (checked.joins join hjoin).2 (fun sub hsub ↦ whole sub (.on (.inr verb) hjoin hsub)) hown
    exact hwhole.element_conjunct (pure_eq_ok.1 hconjunct)
  exact (Element.cons (by decide) rfl ((laid_target clauses table).append husing)).append
    (Code.laid_restriction
      (List.forall_mem_append.2 ⟨element_restricting _ hfilter, hjoined⟩))

theorem element_verb (regular : full → clauses.Regular) (given : full → clauses.isHollow = false)
    (h : clauses.verbCode = .ok code) : Element full false code := by
  cases hverb : clauses.verb with
  | select =>
    simp only [verbCode, hverb] at h
    refine element_select checked whole hverb (fun hfull ↦ ?_) h
    have hclauses := given hfull
    rwa [isHollow, hverb] at hclauses
  | insert insertion =>
    obtain ⟨table, change, returning, -, hchange, hreturning, rfl⟩ := insert_eq_ok hverb h
    have hrows : clauses.verb.handlesRows := by
      rw [hverb]
      rfl
    have hinsertion := checked.verb
    rw [hverb] at hinsertion
    refine Element.append (Insertion.element clauses.aliasName hinsertion
      (Filter.checked_condition checked.filter) (fun sub hsub ↦ whole sub (.rows hverb hsub))
      (fun sub hsub ↦ whole sub (.filter hrows hsub)) (fun hfull ↦ regular hfull insertion hverb)
      (fun hfull ↦ ?_) (laid_target clauses table) hchange)
      (laid_returning checked whole hrows hreturning)
    have hclauses := given hfull
    rwa [isHollow, hverb] at hclauses
  | update assignments =>
    obtain ⟨table, change, returning, -, hchange, hreturning, rfl⟩ := update_eq_ok hverb h
    exact (element_update checked whole hverb hchange).append
      (laid_returning checked whole (by rw [hverb]; rfl) hreturning)
  | delete =>
    obtain ⟨table, change, returning, -, hchange, hreturning, rfl⟩ := delete_eq_ok hverb h
    exact (element_delete checked whole hverb hchange).append
      (laid_returning checked whole (by rw [hverb]; rfl) hreturning)
  | truncate options =>
    simp only [verbCode, hverb, bind_eq_ok, pure_eq_ok] at h
    obtain ⟨table, _, rfl⟩ := h
    exact ⟨options.laid (Code.element_table table.schema table.name).laid, fun _ ↦ rfl⟩
  | copy options =>
    simp only [verbCode, hverb, bind_eq_ok, pure_eq_ok] at h
    obtain ⟨table, _, rfl⟩ := h
    have hoptions := checked.verb
    rw [hverb] at hoptions
    exact ⟨CopyOptions.laid hoptions (Code.element_table table.schema table.name).laid,
      fun _ ↦ rfl⟩
  | describe column =>
    simp only [verbCode, hverb, bind_eq_ok, pure_eq_ok] at h
    obtain ⟨table, _, rfl⟩ := h
    exact ⟨laid_describe table column, fun _ ↦ rfl⟩

/-- A statement is an element if the statements in it are, and it writes no empty list. -/
theorem whole_code (regular : full → clauses.Regular) (given : full → clauses.isHollow = false) :
    Whole full clauses.code := by
  intro code h
  obtain ⟨declarations, change, hdeclarations, hchange, rfl⟩ := code_eq_ok h
  have hverb := element_verb checked whole regular given hchange
  have htables : Laid full false declarations := by
    refine CommonTable.laid_declarations (fun table htable fragment hfragment ↦ ?_)
      (fun table htable sub hsub ↦ whole sub (.declared htable hsub)) hdeclarations
    have hbody := checked.commonTables table htable
    rwa [hfragment] at hbody
  exact ⟨htables.append hverb.laid,
    fun hfull ↦ CommonTable.begins_declarations hdeclarations (hverb.begins hfull)⟩

end Whole

/-! ## Statements in statements -/

section Fold

variable {Result : Type} (step : Clauses Result → Result) {given : Clauses Statement}

theorem regular_fold (regular : given.Regular) : (Statement.foldClauses step given).Regular := by
  intro insertion hverb
  rw [Statement.verb_fold] at hverb
  cases hown : given.verb with
  | insert own =>
    rw [hown] at hverb
    have hregular := regular own hown
    obtain ⟨columns, source, conflict⟩ := own
    cases hverb
    cases source with
    | rows rows => exact ⟨fun h ↦ hregular.width (by cases h; rfl), nofun⟩
    | raw fragment => exact ⟨nofun, nofun⟩
    | query sub => exact ⟨nofun, fun _ ↦ hregular.sourced rfl⟩
  | _ => simp [hown, Statement.foldVerb] at hverb

theorem isHollow_fold (given : Clauses Statement) :
    (Statement.foldClauses step given).isHollow = given.isHollow := by
  unfold isHollow
  rw [Statement.verb_fold, Statement.lock_fold]
  cases given.verb with
  | insert own =>
    obtain ⟨columns, source, conflict⟩ := own
    cases source <;> rfl
  | _ => rfl

end Fold

end Clauses

/-- A statement is checked, and its clauses and those of all statements in it have a property. -/
structure Statement.Throughout (raw : Fragment → Prop) (holds : Clauses Statement → Prop)
    (statement : Statement) : Prop where
  checked : statement.Checked raw
  own : holds statement.clauses
  contained : ∀ inner, Clauses.Contains inner statement.clauses → holds inner.clauses

/-- Checked clauses whose parts have a property throughout have it throughout. -/
theorem Clauses.Checked.throughout {raw : Fragment → Prop} {holds : Clauses Statement → Prop}
    {clauses : Clauses Statement} (checked : clauses.Checked raw (Statement.Throughout raw holds))
    (own : holds clauses) : Statement.Throughout raw holds ⟨clauses⟩ where
  checked := Statement.checked_iff.2 (checked.mono fun _ h ↦ h.checked)
  own := own
  contained _ h := by
    cases h with
    | embedded h => exact (checked.of_embeds h).own
    | deeper h within => exact (checked.of_embeds h).contained _ within

/-- So are the statements in it. -/
theorem Statement.Throughout.embedded {raw : Fragment → Prop} {holds : Clauses Statement → Prop}
    {clauses : Clauses Statement} {sub : Statement} (h : Throughout raw holds ⟨clauses⟩)
    (hsub : clauses.Embeds sub) : sub.Throughout raw holds where
  checked := (Statement.checked_iff.1 h.checked).of_embeds hsub
  own := h.contained sub (.embedded hsub)
  contained inner hinner := h.contained inner (.deeper hsub hinner)

namespace Statement

/-- The clauses bring lists of their own that have elements, and are given no empty ones. -/
def Filled (full : Prop) (clauses : Clauses Statement) : Prop :=
  full → clauses.Regular ∧ clauses.isHollow = false

/-- A statement is an element if none in it, itself included, writes an empty list. -/
theorem Throughout.whole {statement : Statement}
    (h : statement.Throughout (Fragment.Fills full) (Filled full)) :
    Whole full statement.code := by
  obtain ⟨checked, own, contained⟩ := h
  refine checked.induction (P := fun statement ↦ Filled full statement.clauses →
    (∀ inner, Clauses.Contains inner statement.clauses → Filled full inner.clauses) →
    Whole full statement.code) (fun clauses hclauses own contained ↦ ?_) own contained
  rw [code, fold]
  refine Clauses.whole_code (checked_foldClauses _ (fun _ _ ↦ trivial) hclauses)
    (fun result hembeds ↦ ?_) (fun hfull ↦ Clauses.regular_fold _ (own hfull).1)
    fun hfull ↦ (Clauses.isHollow_fold _ clauses).trans (own hfull).2
  obtain ⟨sub, hsub, rfl⟩ := exists_embeds _ hembeds
  exact hclauses.of_embeds hsub (contained sub (.embedded hsub))
    fun inner hinner ↦ contained inner (.deeper hsub hinner)

end Statement

/-- What holds of the clauses of all queries that methods lead to, and of all selections, holds in
all statements in such a query. -/
theorem Query.Reachable.throughout {supplied raw : Fragment → Prop}
    {holds : Clauses Statement → Prop} (supplies : ∀ fragment, supplied fragment → raw fragment)
    (library : ∀ fragment : Fragment, fragment.IsLibrary → raw fragment)
    (own : ∀ {query : Query}, query.Reachable supplied → holds query.clauses)
    (selects : ∀ clauses : Clauses Statement, clauses.verb = .select → holds clauses)
    {query : Query} (reached : query.Reachable supplied) :
    query.statement.Throughout raw holds := by
  suffices query.Holds raw (Statement.Throughout raw holds) from this.throughout (own reached)
  induction reached with
  | ofTable table catalog log => exact Query.checked_ofTable table
  | ofRaw given =>
    refine { Query.checked_empty with selection := ?_ }
    intro item hitem
    rw [List.mem_singleton.1 hitem]
    exact supplies _ given
  | call inner reached given subs done ih ihsubs =>
    have hsubs (query : Query) (hquery : inner query) : query.statement.Throughout raw holds :=
      (ihsubs query hquery).throughout (own (subs query hquery))
    refine Call.holds_apply library ih ?_ (ih.throughout (own reached))
      (fun clauses hclauses hverb ↦ hclauses.throughout (selects clauses hverb)) done
    refine given.mono supplies (fun query hquery ↦ ⟨ihsubs query hquery, hsubs query hquery⟩) ?_
    rintro _ ⟨query, hquery, rfl⟩
    exact hsubs query hquery

end SqlComposer
