import SqlComposer.Proofs.Call.CheckedArguments
import SqlComposer.Proofs.Call.MethodResults

/-!
# What queries are made of

The statement of every query that methods lead to is checked: its functions and formats are words of
the right form, and its fragments are supplied by the caller or belong to the library. Every method
preserves this, since it puts only checked parts into the clauses and leaves the others as they are.
-/

namespace SqlComposer

variable {raw supplied : Fragment → Prop} {sub : Statement → Prop}

namespace Query

/-- The clauses of a query are checked, and so are the statements in them. -/
def Checked (raw : Fragment → Prop) (query : Query) : Prop :=
  query.clauses.Checked raw (Statement.Checked raw)

theorem checked_statement {query : Query} :
    query.statement.Checked raw ↔ query.Checked raw := Statement.checked_iff

/-- The clauses of a query are checked, and the statements in them have a property. -/
def Holds (raw : Fragment → Prop) (sub : Statement → Prop) (query : Query) : Prop :=
  query.clauses.Checked raw sub

theorem checked_empty :
    (Clauses.empty : Clauses Statement).Checked raw sub where
  source := trivial
  verb := trivial
  selection := by simp [Clauses.empty]
  joins := by simp [Clauses.empty]
  filter := trivial
  groups := by simp [Clauses.empty]
  having := trivial
  windows := by simp [Clauses.empty]
  commonTables := by simp [Clauses.empty]
  combinations := by simp [Clauses.empty]
  order := by simp [Clauses.empty]
  lock := by simp [Clauses.empty]
  defaults := Payload.checked_empty

theorem checked_ofTable (table : Table) :
    (Clauses.ofTable table : Clauses Statement).Checked raw sub :=
  { checked_empty with }

variable {query next : Query}

/-! ## Sources, orders and locks -/

theorem Holds.sibling {name : String} (h : query.sibling name = .ok next) :
    next.Holds raw sub := by
  obtain ⟨table, -, rfl⟩ := sibling_eq_ok.1 h
  exact checked_ofTable table

/-- Further checked order items keep a query checked. -/
theorem Holds.ordered (checked : query.Holds raw sub) {items : List OrderItem}
    (added : ∀ item ∈ items, item.Checked raw) :
    (query.modify fun clauses ↦ { clauses with order := clauses.order ++ items }).Holds raw sub :=
  { checked with order := List.forall_mem_append.2 ⟨checked.order, added⟩ }

theorem Holds.order (checked : query.Holds raw sub) {column : String} {direction : Direction}
    (h : query.order column direction = .ok next) : next.Holds raw sub := by
  simp only [Query.order, bind_eq_ok, pure_eq_ok] at h
  obtain ⟨item, hitem, rfl⟩ := h
  apply checked.ordered
  rw [List.forall_mem_singleton]
  exact OrderItem.checked_ofColumn hitem

theorem Holds.orderBy (checked : query.Holds raw sub) {columns : List String}
    (h : query.orderBy columns = .ok next) : next.Holds raw sub := by
  simp only [Query.orderBy, bind_eq_ok, pure_eq_ok] at h
  obtain ⟨items, hitems, rfl⟩ := h
  apply checked.ordered
  intro item hitem
  obtain ⟨column, _, hcolumn⟩ := exists_of_mem_results hitems hitem
  exact OrderItem.checked_ofColumn hcolumn

theorem Holds.orderRaw (checked : query.Holds raw sub) {fragment : Fragment}
    (given : raw fragment) : (query.orderRaw fragment).Holds raw sub := by
  apply checked.ordered
  rw [List.forall_mem_singleton]
  exact given

/-- A change of the row lock that keeps locks checked keeps a query checked. -/
theorem Holds.locked (checked : query.Holds raw sub) {change : RowLock → RowLock}
    (h : query.modifyLock change = .ok next)
    (kept : ∀ lock : RowLock, lock.Checked raw → (change lock).Checked raw) :
    next.Holds raw sub := by
  obtain ⟨lock, hlock, rfl⟩ := modifyLock_eq_ok.1 h
  refine { checked with lock := ?_ }
  simp only [modify, Option.mem_def, Option.some.injEq, forall_eq']
  exact kept lock (checked.lock lock hlock)

/-! ## Selections -/

theorem Holds.selectSingle (checked : query.Holds raw sub) {column : String} {shape : Shape}
    (h : query.selectSingle column shape = .ok next) : next.Holds raw sub := by
  obtain ⟨reference, -, rfl⟩ := selectSingle_eq_ok.1 h
  exact { checked with selection := List.forall_mem_singleton.2 trivial }

theorem Holds.selectValue (checked : query.Holds raw sub) {column : String} {shape : Shape}
    (h : query.selectValue column shape = .ok next) : next.Holds raw sub := by
  obtain ⟨reference, -, rfl⟩ := selectValue_eq_ok.1 h
  exact { checked with selection := List.forall_mem_singleton.2 trivial }

/-- Further checked items of the selection keep a query checked. -/
theorem Holds.selectItems (checked : query.Holds raw sub) {items : List (SelectItem Statement)}
    (added : ∀ item ∈ items, item.expression.Checked raw sub) :
    (query.selectItems items).Holds raw sub :=
  { checked with selection := List.forall_mem_append.2 ⟨checked.selection, added⟩ }

theorem Holds.selectItem (checked : query.Holds raw sub) {item : SelectItem Statement}
    (added : item.expression.Checked raw sub) :
    (query.selectItems [item]).Holds raw sub :=
  checked.selectItems (List.forall_mem_singleton.2 added)

theorem Holds.select (checked : query.Holds raw sub) {columns : List String}
    (h : query.select columns = .ok next) : next.Holds raw sub := by
  simp only [Query.select, bind_eq_ok, pure_eq_ok] at h
  obtain ⟨references, _, rfl⟩ := h
  apply checked.selectItems
  intro item hitem
  obtain ⟨reference, _, rfl⟩ := List.mem_map.1 hitem
  trivial

theorem Holds.countOf (checked : query.Holds raw sub) (argument : Option ColumnRef) :
    (query.countOf argument).Holds raw sub := by
  rw [countOf_eq]
  refine { checked with selection := ?_ }
  dsimp only [modify]
  split
  · simp
  · exact List.forall_mem_singleton.2 trivial

/-- Selecting a function over a checked window keeps a query checked. -/
theorem Holds.selectOver (checked : query.Holds raw sub) {function : String}
    {column : Option String} {place : Over} {label : String} (given : place.Checked raw)
    (h : query.selectOver function column place label = .ok next) : next.Holds raw sub := by
  obtain ⟨argument, hname, -, rfl⟩ := selectOver_eq_ok.1 h
  unfold checkFunctionName at hname
  split at hname
  · rename_i hform
    exact checked.selectItem ⟨hform, given⟩
  · simp at hname

theorem Holds.json (own : sub query.statement)
    (library : ∀ fragment : Fragment, fragment.IsLibrary → raw fragment) :
    query.json.Holds raw sub := by
  refine { checked_empty with source := ?_, selection := ?_ }
  · exact own
  · intro item hitem
    rw [List.mem_singleton.1 hitem]
    exact library _ (.rows query.clauses.shape)

/-! ## Filters and groups -/

theorem Holds.filter (checked : query.Holds raw sub) {condition : Condition Statement}
    (given : condition.Checked raw sub) :
    (query.filter condition).Holds raw sub :=
  { checked with filter := (Clauses.Checked.filter checked).and given }

theorem Holds.orFilter (checked : query.Holds raw sub) {condition : Condition Statement}
    (given : condition.Checked raw sub) :
    (query.orFilter condition).Holds raw sub :=
  { checked with filter := (Clauses.Checked.filter checked).or given }

theorem Holds.filterKey (checked : query.Holds raw sub) {key : Term} (given : key.Checked raw)
    (h : query.filterKey key = .ok next) : next.Holds raw sub := by
  obtain ⟨condition, hkey, rfl⟩ := filterKey_eq_ok.1 h
  obtain ⟨table, -, hcondition⟩ := bind_eq_ok.1 hkey
  split at hcondition
  · exact checked.filter (Condition.checked_ofColumn hcondition given)
  · cases hcondition
  · cases hcondition

theorem Holds.having (checked : query.Holds raw sub) {condition : Condition Statement}
    (given : condition.Checked raw sub) :
    (query.having condition).Holds raw sub :=
  { checked with having := (Clauses.Checked.having checked).and given }

/-- A choice of checked conditions on groups keeps a query checked. -/
theorem Holds.havingAny (checked : query.Holds raw sub) {conditions : List (Condition Statement)}
    (given : ∀ condition ∈ conditions, condition.Checked raw sub) :
    (query.havingAny conditions).Holds raw sub :=
  { checked with
    having := (Clauses.Checked.having checked).foldlOr (Condition.checkedAll_iff.2 given) }

theorem Holds.havingRaw (checked : query.Holds raw sub) {fragments : List Fragment}
    (given : ∀ fragment ∈ fragments, raw fragment) : (query.havingRaw fragments).Holds raw sub := by
  apply checked.having
  refine Condition.checkedAll_iff.2 fun condition hcondition ↦ ?_
  obtain ⟨fragment, hfragment, rfl⟩ := List.mem_map.1 hcondition
  exact given fragment hfragment

theorem Holds.group (checked : query.Holds raw sub) {columns : List String}
    (h : query.group columns = .ok next) : next.Holds raw sub := by
  simp only [Query.group, bind_eq_ok, pure_eq_ok] at h
  obtain ⟨references, _, rfl⟩ := h
  refine { checked with groups := List.forall_mem_append.2 ⟨checked.groups, ?_⟩ }
  intro item hitem
  obtain ⟨reference, _, rfl⟩ := List.mem_map.1 hitem
  trivial

/-! ## Joins, declared tables and set operations -/

theorem Holds.resolved {target : JoinTarget Statement}
    (given : target.Checked sub) :
    (query.resolved target).Checked sub := by
  unfold Query.resolved
  split
  · trivial
  · exact given

theorem Holds.addJoin (checked : query.Holds raw sub) {join : Join Statement}
    (given : join.Checked raw sub) : (query.addJoin join).Holds raw sub := by
  refine { checked with joins := List.forall_mem_append.2 ⟨checked.joins, ?_⟩ }
  exact List.forall_mem_singleton.2 given

/-- Joining a checked target on two columns keeps a query checked. -/
theorem Holds.join (checked : query.Holds raw sub) {kind : JoinKind}
    {target : JoinTarget Statement} {left right : String}
    (given : target.Checked sub)
    (h : query.join kind target left right = .ok next) : next.Holds raw sub := by
  simp only [Query.join, bind_eq_ok, pure_eq_ok] at h
  obtain ⟨left, _, right, _, rfl⟩ := h
  exact checked.addJoin ⟨Holds.resolved given, trivial⟩

/-- Joining a checked target on a checked condition keeps a query checked. -/
theorem Holds.joinOn (checked : query.Holds raw sub) {kind : JoinKind}
    {target : JoinTarget Statement} {condition : Condition Statement}
    (given : target.Checked sub)
    (on : condition.Checked raw sub) :
    (query.joinOn kind target condition).Holds raw sub :=
  checked.addJoin ⟨Holds.resolved given, on⟩

/-- Declaring a table over a checked body keeps a query checked. -/
theorem Holds.declare (checked : query.Holds raw sub) {name : String} {body : Body Statement}
    {options : CommonTableOptions} (given : body.Checked raw sub) :
    (query.declare name body options).Holds raw sub := by
  refine { checked with commonTables := List.forall_mem_append.2 ⟨checked.commonTables, ?_⟩ }
  exact List.forall_mem_singleton.2 given

/-- Combining with queries whose statements are admitted keeps a query checked. -/
theorem Holds.combine (checked : query.Holds raw sub) {operation : SetOperation}
    {others : List Query} {wrapped : Bool} (given : ∀ other ∈ others, sub other.statement) :
    (query.combine operation others wrapped).Holds raw sub := by
  refine { checked with combinations := List.forall_mem_append.2 ⟨checked.combinations, ?_⟩ }
  intro combination hcombination
  obtain ⟨other, hother, rfl⟩ := List.mem_map.1 hcombination
  exact given other hother

/-- Combining with an admitted fragment keeps a query checked. -/
theorem Holds.combineRaw (checked : query.Holds raw sub) {operation : SetOperation}
    {fragment : Fragment} {wrapped : Bool} (given : raw fragment) :
    (query.combineRaw operation fragment wrapped).Holds raw sub := by
  refine { checked with combinations := List.forall_mem_append.2 ⟨checked.combinations, ?_⟩ }
  exact List.forall_mem_singleton.2 given

/-! ## Insertions -/

/-- Making a query insert from a checked insertion keeps it checked. -/
theorem Holds.inserting (checked : query.Holds raw sub) {insertion : Insertion Statement}
    (given : insertion.Checked raw sub) (many : Bool) (readBack : List String)
    (related : List RelatedInsert) :
    (query.inserting insertion many readBack related).Holds raw sub := by
  refine { checked with filter := Filter.checked_unset, verb := given, selection := ?_ }
  dsimp only [Query.inserting, modify]
  split
  · simp
  · exact checked.selection

/-- Inserting checked rows keeps a query checked, also when they name related rows. -/
theorem Holds.insertRows (checked : query.Holds raw sub) {rows : List Payload} {many : Bool}
    (given : ∀ row ∈ rows, row.Checked raw) (h : query.insertRows rows many = .ok next) :
    next.Holds raw sub := by
  obtain ⟨table, plan, -, hplan, -, -, rfl⟩ := insertRows_eq_ok.1 h
  have hcells : ∀ list ∈ plan.cells, ∀ cell ∈ list, cell.Checked raw := by
    apply RowPlan.checked_cells hplan
    intro payload hpayload
    obtain ⟨row, hrow, rfl⟩ := List.mem_map.1 hpayload
    exact (given row hrow).onto checked.defaults
  refine checked.inserting ?_ many plan.readBack plan.related
  exact ⟨hcells, by simp⟩

/-- Inserting the rows of an admitted fragment keeps a query checked. -/
theorem Holds.insertRaw (checked : query.Holds raw sub) {columns : List String}
    {fragment : Fragment} (given : raw fragment)
    (h : query.insertRaw columns fragment = .ok next) : next.Holds raw sub := by
  obtain ⟨-, rfl⟩ := insertRaw_eq_ok h
  refine checked.inserting ?_ true [] []
  exact ⟨given, by simp⟩

/-- Inserting from a checked query keeps a query checked, if checked selections are admitted. -/
theorem Holds.insertFrom (checked : query.Holds raw sub) {source : Query} {data : Payload}
    (selected : source.Holds raw sub) (given : data.Checked raw)
    (selects : ∀ clauses, clauses.Checked raw sub → clauses.verb = .select → sub ⟨clauses⟩)
    (h : query.insertFrom source data = .ok next) : next.Holds raw sub := by
  obtain ⟨table, columns, values, -, -, hverb, -, -, hvalues, -, rfl⟩ := insertFrom_eq_ok h
  have hextended : ∀ item ∈ source.clauses.selection ++ values.map fun value ↦
      (⟨.term value.2, none⟩ : SelectItem Statement),
      item.expression.Checked raw sub := by
    refine List.forall_mem_append.2 ⟨selected.selection, ?_⟩
    intro item hitem
    obtain ⟨value, hvalue, rfl⟩ := List.mem_map.1 hitem
    exact (given.onto checked.defaults).columnValues hvalues value hvalue
  refine checked.inserting ?_ false [] []
  exact ⟨selects _ { selected with selection := hextended } hverb, by simp⟩

theorem Holds.defaults (checked : query.Holds raw sub) {data : Payload}
    (given : data.Checked raw) (h : query.defaults data = .ok next) : next.Holds raw sub := by
  obtain ⟨-, rfl⟩ := defaults_eq_ok.1 h
  exact { checked with defaults := given.onto checked.defaults }

/-- An insertion keeps what it writes when it is given another reaction to conflicts. -/
theorem Holds.settle (checked : query.Holds raw sub) {target : ConflictTarget}
    {action : ConflictAction} {pending : PendingConflict}
    (h : query.onConflict target = .ok pending) (given : target.Checked raw)
    (reaction : action.Checked raw) : (pending.settle action).Holds raw sub := by
  obtain ⟨insertion, hverb, rfl⟩ := onConflict_eq_ok.1 h
  have hinsertion : (Verb.insert insertion).Checked raw sub := hverb ▸ checked.verb
  refine { checked with verb := ⟨hinsertion.1, ?_⟩ }
  simp only [Option.mem_def, Option.some.injEq, forall_eq']
  exact ⟨given, reaction⟩

/-! ## Changes -/

theorem Holds.countingRows {clauses : Clauses Statement}
    (checked : clauses.Checked raw sub) :
    (Query.countingRows clauses).Checked raw sub := by
  unfold Query.countingRows
  split
  · exact { checked with selection := by simp }
  · exact checked

/-- Further checked assignments keep a query checked. -/
theorem Holds.pushUpdate (checked : query.Holds raw sub) {assignments : List Assignment}
    (given : ∀ assignment ∈ assignments, assignment.Checked raw)
    (h : query.pushUpdate assignments = .ok next) : next.Holds raw sub := by
  obtain ⟨earlier, hquery, rfl⟩ := pushUpdate_eq_ok h
  have hearlier : ∀ assignment ∈ earlier, assignment.Checked raw := by
    rcases hquery with hverb | ⟨-, rfl⟩
    · have hupdate : (Verb.update earlier).Checked raw sub := hverb ▸ checked.verb
      exact hupdate
    · exact fun _ hassignment ↦ by cases hassignment
  exact Holds.countingRows
    { checked with verb := List.forall_mem_append.2 ⟨hearlier, given⟩ }

theorem Holds.update (checked : query.Holds raw sub) {data : Payload} (given : data.Checked raw)
    (h : query.update data = .ok next) : next.Holds raw sub := by
  obtain ⟨table, values, -, hvalues, h⟩ := update_eq_ok h
  refine checked.pushUpdate ?_ h
  intro assignment hassignment
  obtain ⟨value, hvalue, rfl⟩ := List.mem_map.1 hassignment
  exact given.columnValues hvalues value (List.mem_filter.1 hvalue).1

theorem Holds.orCreate (checked : query.Holds raw sub) {row : Payload}
    (h : query.orCreate row = .ok next) : next.Holds raw sub := by
  obtain ⟨_, _, -, -, -, rfl⟩ := orCreate_eq_ok h
  exact { checked with }

theorem Holds.upsert (checked : query.Holds raw sub) {data row : Payload}
    (given : data.Checked raw) (h : query.upsert data row = .ok next) : next.Holds raw sub := by
  rcases upsert_eq_ok.1 h with ⟨-, h⟩ | ⟨-, updated, hupdated, h⟩
  · exact checked.orCreate h
  · exact (checked.update given hupdated).orCreate h

theorem Holds.delete (checked : query.Holds raw sub) (h : query.delete = .ok next) :
    next.Holds raw sub := by
  obtain ⟨-, rfl⟩ := delete_eq_ok h
  exact Holds.countingRows { checked with verb := trivial }

theorem Holds.truncate (checked : query.Holds raw sub) {options : TruncateOptions}
    (h : query.truncate options = .ok next) : next.Holds raw sub := by
  obtain ⟨-, rfl⟩ := truncate_eq_ok h
  exact { checked with verb := trivial }

theorem Holds.describe (checked : query.Holds raw sub) {column : Option String}
    (h : query.describe column = .ok next) : next.Holds raw sub := by
  cases describe_eq_ok h
  exact { checked with verb := trivial }

theorem Holds.copy (checked : query.Holds raw sub) {options : CopyOptions}
    (h : query.copy options = .ok next) : next.Holds raw sub := by
  obtain ⟨form, -, rfl⟩ := copy_eq_ok h
  exact { checked with verb := form }

end Query

namespace Call

/-- Arguments stay as given when less is asked of fragments, queries and statements. -/
theorem Given.mono {kind : Fragment → Prop} {inner other : Query → Prop}
    {sub wider : Statement → Prop} (hraw : ∀ fragment, raw fragment → kind fragment)
    (hinner : ∀ query, inner query → other query)
    (hsub : ∀ statement, sub statement → wider statement)
    {call : Call} (given : call.Given raw inner sub) : call.Given kind other wider := by
  cases call with
  | fromQuery | selectQuery | filterHasRow | filterHasNoRow | withQuery => exact hinner _ given
  | combine _ others _ => exact fun query hquery ↦ hinner query (given query hquery)
  | fromRaw | orderRaw | lockOfRaw | selectRaw | groupRaw | withRaw | combineRaw | insertRaw
  | updateRaw => exact hraw _ given
  | havingRaw fragments => exact fun fragment hfragment ↦ hraw fragment (given fragment hfragment)
  | window => exact Window.Checked.mono hraw given
  | selectOver => exact Over.Checked.mono hraw given
  | filter | orFilter | filterNot | findBy | findByOptional | having =>
    exact Condition.Checked.mono hraw hsub given
  | havingAny conditions =>
    exact fun condition hcondition ↦ (given condition hcondition).mono hraw hsub
  | find | findOptional | increment | decrement => exact Term.Checked.mono hraw given
  | join | crossJoin => exact JoinTarget.Checked.mono hsub given
  | joinOn => exact ⟨given.1.mono hsub, given.2.mono hraw hsub⟩
  | insert | orCreate | defaults | update => exact Payload.Checked.mono hraw given
  | insertMany lists => exact fun row hrow ↦ (given row hrow).mono hraw
  | insertFrom => exact ⟨hinner _ given.1, given.2.mono hraw⟩
  | upsert => exact ⟨given.1.mono hraw, given.2.mono hraw⟩
  | ignoreConflict => exact ConflictTarget.Checked.mono hraw given
  | mergeConflict => exact ⟨given.1.mono hraw, given.2.mono hraw⟩
  | setConflict => exact ⟨given.1.mono hraw, given.2.mono hraw⟩
  | _ => trivial

/-- Every method keeps queries checked, with any property of the statements in them that those of
the queries it is given have, and that the statement of the query has when it becomes one of
them. -/
theorem holds_apply {query next : Query} {call : Call}
    (library : ∀ fragment : Fragment, fragment.IsLibrary → raw fragment)
    (checked : query.Holds raw sub)
    (given : call.Given raw (fun inner ↦ inner.Holds raw sub ∧ sub inner.statement) sub)
    (own : sub query.statement)
    (selects : ∀ clauses, clauses.Checked raw sub → clauses.verb = .select → sub ⟨clauses⟩)
    (h : call.apply query = .ok next) : next.Holds raw sub := by
  cases call with
  | sibling => exact Query.Holds.sibling h
  | logged | as | limit | offset | take | takeOptional | rows | all | distinct | beforeInsert
  | afterInsert | beforeUpdate | afterUpdate =>
    cases h
    exact { checked with }
  | selectAll =>
    cases h
    exact { checked with selection := by simp [Query.selectAll, Query.modify] }
  | fromQuery =>
    cases h
    exact { checked with source := given.2 }
  | fromRaw =>
    cases h
    exact { checked with source := given }
  | order => exact checked.order h
  | orderBy => exact checked.orderBy h
  | orderRaw => exact Except.ok.inj h ▸ checked.orderRaw given
  | pluck => exact checked.selectSingle h
  | get | getOptional => exact checked.selectValue h
  | lock =>
    cases h
    refine { checked with lock := ?_ }
    simp [Query.lock, Query.modify, RowLock.Checked]
  | lockOf => exact checked.locked h fun _ _ ↦ trivial
  | lockOfRaw => exact checked.locked h fun _ _ ↦ given
  | noWait | skipLocked => exact checked.locked h fun _ hlock ↦ hlock
  | select => exact checked.select h
  | selectAs =>
    obtain ⟨reference, _, h⟩ := bind_eq_ok.1 h
    exact Except.ok.inj h ▸ checked.selectItem trivial
  | selectRaw => exact Except.ok.inj h ▸ checked.selectItem given
  | selectQuery => exact Except.ok.inj h ▸ checked.selectItem given.2
  | distinctOn =>
    obtain ⟨references, -, -, rfl⟩ := Query.distinctOn_eq_ok.1 h
    exact { checked with }
  | count => exact Except.ok.inj h ▸ checked.countOf none
  | countColumn =>
    obtain ⟨reference, _, h⟩ := bind_eq_ok.1 h
    exact Except.ok.inj h ▸ checked.countOf (some reference)
  | window =>
    cases h
    refine { checked with windows := List.forall_mem_append.2 ⟨checked.windows, ?_⟩ }
    exact List.forall_mem_singleton.2 given
  | selectOver => exact checked.selectOver given h
  | selectJson => exact Except.ok.inj h ▸ checked.selectItem trivial
  | selectJsonPath =>
    obtain ⟨-, rfl⟩ := Query.selectJsonPath_eq_ok.1 h
    exact checked.selectItem trivial
  | json => exact Except.ok.inj h ▸ Query.Holds.json own library
  | filter | filterNot => exact Except.ok.inj h ▸ checked.filter given
  | orFilter => exact Except.ok.inj h ▸ checked.orFilter given
  | filterJson =>
    obtain ⟨condition, hcondition, h⟩ := bind_eq_ok.1 h
    exact Except.ok.inj h ▸ checked.filter (Shorthand.checked_condition hcondition)
  | orFilterJson =>
    obtain ⟨condition, hcondition, h⟩ := bind_eq_ok.1 h
    exact Except.ok.inj h ▸ checked.orFilter (Shorthand.checked_condition hcondition)
  | filterHasRow | filterHasNoRow =>
    have hrow : (Condition.hasRow _).Checked raw sub :=
      given.2
    exact Except.ok.inj h ▸ checked.filter hrow
  | find | findOptional =>
    obtain ⟨found, hfound, rfl⟩ := map_eq_ok.1 h
    exact { checked.filterKey given hfound with }
  | findBy | findByOptional =>
    cases h
    exact { checked.filter given with }
  | group => exact checked.group h
  | groupRaw =>
    cases h
    refine { checked with groups := List.forall_mem_append.2 ⟨checked.groups, ?_⟩ }
    exact List.forall_mem_singleton.2 given
  | having => exact Except.ok.inj h ▸ checked.having given
  | havingAny => exact Except.ok.inj h ▸ checked.havingAny given
  | havingJson =>
    obtain ⟨condition, hcondition, h⟩ := bind_eq_ok.1 h
    exact Except.ok.inj h ▸
      checked.having (Shorthand.checked_aggregateCondition library hcondition)
  | havingRaw => exact Except.ok.inj h ▸ checked.havingRaw given
  | join => exact checked.join given h
  | joinOn => exact Except.ok.inj h ▸ checked.joinOn given.1 given.2
  | crossJoin => exact Except.ok.inj h ▸ checked.joinOn given trivial
  | withQuery => exact Except.ok.inj h ▸ checked.declare given.2
  | withRaw => exact Except.ok.inj h ▸ checked.declare given
  | combine => exact Except.ok.inj h ▸ checked.combine fun other hother ↦ (given other hother).2
  | combineRaw => exact Except.ok.inj h ▸ checked.combineRaw given
  | insert => exact checked.insertRows (List.forall_mem_singleton.2 given) h
  | insertMany => exact checked.insertRows given (Query.insertMany_eq_ok.1 h).2
  | insertRaw => exact checked.insertRaw given h
  | insertFrom => exact checked.insertFrom given.1.1 given.2 selects h
  | defaults => exact checked.defaults given h
  | ignoreConflict =>
    obtain ⟨pending, hpending, rfl⟩ := map_eq_ok.1 h
    exact checked.settle hpending given trivial
  | mergeConflict =>
    obtain ⟨pending, hpending, h⟩ := bind_eq_ok.1 h
    unfold PendingConflict.merge at h
    split at h
    · simp at h
    · exact Except.ok.inj h ▸ checked.settle hpending given.1 given.2
  | setConflict =>
    obtain ⟨pending, hpending, h⟩ := bind_eq_ok.1 h
    simp only [PendingConflict.set, refusing_eq_ok, bind_eq_ok, pure_eq_ok] at h
    obtain ⟨_, table, _, values, hvalues, rfl⟩ := h
    exact checked.settle hpending given.1 (given.2.columnValues hvalues)
  | update => exact checked.update given h
  | updateRaw | increment | decrement =>
    refine checked.pushUpdate ?_ h
    rw [List.forall_mem_singleton]
    exact given
  | orCreate => exact checked.orCreate h
  | upsert => exact checked.upsert given.1 h
  | delete => exact checked.delete h
  | truncate => exact checked.truncate h
  | describe => exact checked.describe h
  | copy => exact checked.copy h

end Call

/-- The statements of all queries that methods lead to are checked. -/
theorem Query.Reachable.checked {query : Query} (reached : query.Reachable supplied) :
    query.statement.Checked (Fragment.Admitted supplied) := by
  rw [Query.checked_statement]
  induction reached with
  | ofTable table catalog log => exact Query.checked_ofTable table
  | ofRaw given =>
    refine { Query.checked_empty with selection := ?_ }
    intro item hitem
    rw [List.mem_singleton.1 hitem]
    exact .inl given
  | call inner _ given _ done ih ihsubs =>
    refine Call.holds_apply (fun _ ↦ .inr) ih ?_ (Query.checked_statement.2 ih)
      (fun _ hclauses _ ↦ Statement.checked_iff.2 hclauses) done
    refine given.mono (fun _ ↦ .inl)
      (fun query hquery ↦ ⟨ihsubs query hquery, Query.checked_statement.2 (ihsubs query hquery)⟩) ?_
    rintro _ ⟨query, hquery, rfl⟩
    exact Query.checked_statement.2 (ihsubs query hquery)

end SqlComposer
