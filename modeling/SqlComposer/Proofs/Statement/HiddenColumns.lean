import SqlComposer.Proofs.Call.CallFrames
import SqlComposer.Proofs.Insertion.PendingCells
import SqlComposer.Proofs.Statement.ReturnedList

/-!
# Hidden columns stay hidden

A statement discloses a column if its list refers to it, or has a star that stands for it. Unless a
caller asks for a hidden column, for all columns or for what a fragment says, what is selected are
columns that he named and visible ones, and a star stands only where no column is hidden: before a
table that hides none, or before a sub-query that was built with the same care. An insertion that
hands back rows without a selection is the exception: it hands back every column, and so does what
reads from it.

Which references mean a hidden column depends on how tables are called in a query, so this is left
open. The rows of a query as one JSON value are read from the sub-query that holds them as long as
the selection around it is not turned into a change or given another name.
-/

namespace SqlComposer

variable {Sub : Type}

/-! ## What items refer to -/

namespace OrderItem

def references : OrderItem → List ColumnRef
  | column reference _ => [reference]
  | raw _ => []

def fragments : OrderItem → List Fragment
  | column _ _ => []
  | raw fragment => [fragment]

end OrderItem

namespace Over

def references : Over → List ColumnRef
  | named _ => []
  | window declared => declared.partition ++ declared.order.flatMap OrderItem.references

def fragments : Over → List Fragment
  | named _ => []
  | window declared => declared.order.flatMap OrderItem.fragments

end Over

namespace SelectExpr

/-- The columns that what is selected refers to, sub-queries apart. -/
def references : SelectExpr Sub → List ColumnRef
  | column reference | term (.column reference) => [reference]
  | json expression => [expression.root]
  | count argument => argument.toList
  | window call => call.argument.toList ++ call.window.references
  | raw _ | query _ | term _ => []

/-- The fragments in what is selected, sub-queries apart. -/
def fragments : SelectExpr Sub → List Fragment
  | raw fragment | term (.raw fragment) => [fragment]
  | window call => call.window.fragments
  | column _ | query _ | json _ | term _ | count _ => []

end SelectExpr

/-- The item is that of all rows as one JSON value. -/
def SelectItem.IsRows (item : SelectItem Sub) : Prop :=
  ∃ shape, item.expression = .raw (.verbatim (Query.jsonOf shape).1)

/-! ## Disclosure -/

namespace Clauses

/-- An item stands in the list of a statement. -/
def Lists (clauses : Clauses Sub) (item : SelectItem Sub) : Prop :=
  ∃ items, clauses.listing = .items items ∧ item ∈ items

/-- The JSON value of an item is made of the rows of a sub-query: the name that the item refers to
is that of the sub-query. -/
structure TakesRows (clauses : Clauses Sub) (item : SelectItem Sub) (sub : Sub) : Prop where
  item : item.IsRows
  verb : clauses.verb = .select
  label : clauses.label = some "t"
  source : clauses.source = .body (.query sub)

/-- What the list of a statement hands back is that of a sub-query: a star stands for its columns,
or an item for its rows or its value. -/
inductive Reads (clauses : Clauses Sub) (sub : Sub) : Prop
  | star (verb : clauses.verb = .select) (all : clauses.listing = .all)
      (source : clauses.source = .body (.query sub))
  | rows {item : SelectItem Sub} (listed : clauses.Lists item) (rows : clauses.TakesRows item sub)
  | value {item : SelectItem Sub} (listed : clauses.Lists item)
      (query : item.expression = .query sub)

end Clauses

namespace Statement

/-- The list of a statement refers to a secret column or has a star that stands for one; what a
fragment of the caller or a star of his may stand for counts as secret. `secret` says for each table
which references in a query on it mean a secret column. -/
inductive Discloses (secret : Table → ColumnRef → Prop) : Statement → Prop
  | reference {clauses : Clauses Statement} {table : Table} {item : SelectItem Statement}
      {reference : ColumnRef} (target : clauses.table = some table) (listed : clauses.Lists item)
      (mem : reference ∈ item.expression.references) (h : secret table reference) :
      Discloses secret ⟨clauses⟩
  | starred {clauses : Clauses Statement} {item : SelectItem Statement} {reference : ColumnRef}
      (listed : clauses.Lists item) (mem : reference ∈ item.expression.references)
      (star : reference.isStar) : Discloses secret ⟨clauses⟩
  | fragment {clauses : Clauses Statement} {item : SelectItem Statement} {fragment : Fragment}
      (listed : clauses.Lists item) (mem : fragment ∈ item.expression.fragments)
      (other : ∀ sub, ¬clauses.TakesRows item sub) : Discloses secret ⟨clauses⟩
  /-- A star that stands for the columns of the table. -/
  | columns {clauses : Clauses Statement} {table : Table} {column : Column}
      (all : clauses.listing = .all) (own : clauses.verb.isMutation ∨ clauses.source = .table)
      (target : clauses.table = some table) (mem : column ∈ table.columns)
      (h : secret table (.unqualified column.name)) : Discloses secret ⟨clauses⟩
  /-- A star that stands for what a fragment of the caller has for columns. -/
  | spliced {clauses : Clauses Statement} {fragment : Fragment} (verb : clauses.verb = .select)
      (all : clauses.listing = .all) (source : clauses.source = .body (.raw fragment)) :
      Discloses secret ⟨clauses⟩
  | through {clauses : Clauses Statement} {sub : Statement} (reads : clauses.Reads sub)
      (h : Discloses secret sub) : Discloses secret ⟨clauses⟩

/-- A statement hands back what an insertion that returns rows without a selection hands back. -/
inductive ReturnsAll : Statement → Prop
  | insertion {clauses : Clauses Statement} {insertion : Insertion Statement}
      (verb : clauses.verb = .insert insertion) (unselected : clauses.selection = [])
      (rows : clauses.shape.returnsRows) : ReturnsAll ⟨clauses⟩
  | through {clauses : Clauses Statement} {sub : Statement} (reads : clauses.Reads sub)
      (h : ReturnsAll sub) : ReturnsAll ⟨clauses⟩

end Statement

/-! ## Chains of discreet calls -/

/-- The references that a caller may use in what a query on a table selects: no star and no secret
column. -/
def ColumnRef.Public (secret : Table → ColumnRef → Prop) (table : Option Table)
    (reference : ColumnRef) : Prop :=
  reference.isStar = false ∧ ∀ owner, table = some owner → ¬secret owner reference

namespace Table

/-- A name belongs to hidden columns only. -/
def Hides (table : Table) (name : String) : Prop :=
  (∃ column ∈ table.columns, column.name = name) ∧
    ∀ column ∈ table.columns, column.name = name → column.hidden

/-- No visible column is called like the star, which would stand for all columns. -/
def Starless (table : Table) : Prop :=
  ∀ column ∈ table.columns, column.hidden = false → column.name ≠ "*"

/-- The visible columns of a table may be used. -/
def Guarded (secret : Table → ColumnRef → Prop) (table : Table) : Prop :=
  ∀ column ∈ table.columns, column.hidden = false →
    (ColumnRef.unqualified column.name).Public secret (some table)

/-- The visible columns of a table may be used if none of them is called like the star. -/
theorem Starless.guarded {secret : Table → ColumnRef → Prop} {table : Table}
    (reading : ∀ reference, secret table reference → table.Hides reference.name)
    (starless : table.Starless) : table.Guarded secret := by
  refine fun column hcolumn hshown ↦ ⟨?_, ?_⟩
  · exact beq_eq_false_iff_ne.2 (starless column hcolumn hshown)
  · rintro _ ⟨⟩ hsecret
    have hhidden := (reading _ hsecret).2 column hcolumn rfl
    rw [hshown] at hhidden
    cases hhidden

end Table

/-- Rows as one JSON value are still those of the sub-query that holds them. -/
def Clauses.KeepsRows (clauses : Clauses Statement) : Prop :=
  ∀ item ∈ clauses.selection, item.IsRows →
    clauses.verb.isMutation = false ∧ clauses.label = some "t"

namespace Call

/-- A call selects no fragment, no star and no secret column, and what it lets a query read from was
built by such calls. -/
def Discreet (secret : Table → ColumnRef → Prop) (inner : Query → Prop) (query : Query) :
    Call → Prop
  | sibling name => ∀ next, query.sibling name = .ok next →
    ∀ table, next.clauses.table = some table → table.Starless
  | select columns => ∀ column ∈ columns, ∀ reference, ColumnRef.parse column = .ok reference →
    reference.Public secret query.clauses.table
  | selectAs column _ | pluck column | get column | getOptional column | countColumn column =>
    ∀ reference, ColumnRef.parse column = .ok reference →
      reference.Public secret query.clauses.table
  | selectOver _ column place _ =>
    (∀ name ∈ column, ∀ reference, ColumnRef.parse name = .ok reference →
      reference.Public secret query.clauses.table) ∧
    (∀ reference ∈ place.references, reference.Public secret query.clauses.table) ∧
    place.fragments = []
  | selectJson expression _ | selectJsonPath expression _ _ =>
    expression.root.Public secret query.clauses.table
  | selectQuery sub _ | fromQuery sub _ => inner sub
  | selectRaw _ _ | fromRaw _ | selectAll => False
  | _ => True

end Call

/-- The queries on tables that discreet calls lead to. -/
inductive Query.Discreet (secret : Table → ColumnRef → Prop) : Query → Prop
  | ofTable {table : Table} (starless : table.Starless) (catalog : Option Catalog)
      (log : Option LogSettings) : Discreet secret ⟨.ofTable table, catalog, log⟩
  | call {query next : Query} (call : Call) (inner : Query → Prop)
      (reached : Discreet secret query) (given : call.Discreet secret inner query)
      (subs : ∀ sub, inner sub → Discreet secret sub) (rows : next.clauses.KeepsRows)
      (done : call.apply query = .ok next) : Discreet secret next

/-! ## Clauses of discreet queries -/

variable {secret : Table → ColumnRef → Prop}

/-- If a statement discloses a secret column, it hands back all columns of an insertion. -/
def Statement.Settled (secret : Table → ColumnRef → Prop) (statement : Statement) : Prop :=
  statement.Discloses secret → statement.ReturnsAll

/-- An item as a discreet call selects it. -/
structure SelectItem.Modest (secret : Table → ColumnRef → Prop) (table : Option Table)
    (item : SelectItem Statement) : Prop where
  references : ∀ reference ∈ item.expression.references, reference.Public secret table
  fragments : item.expression.fragments = []
  query : ∀ sub, item.expression = .query sub → sub.Settled secret

namespace Clauses

/-- Clauses as discreet calls leave them: the items are those of discreet calls and that of the rows
of the sub-query that the statement reads from. -/
structure Modest (secret : Table → ColumnRef → Prop) (clauses : Clauses Statement) : Prop where
  guarded : ∀ table, clauses.table = some table → table.Guarded secret
  selectsAll : clauses.selectsAll = false
  items : ∀ item ∈ clauses.selection, item.Modest secret clauses.table ∨
    item.IsRows ∧ ∃ sub, clauses.source = .body (.query sub)
  rows : clauses.KeepsRows
  source : ∀ body, clauses.source = .body body → ∃ sub, body = .query sub ∧ sub.Settled secret

variable {clauses : Clauses Statement} {item : SelectItem Statement}

/-- The selection by default lists columns that are not hidden. -/
theorem mem_defaultSelection {table : Table} {columns : List String} {name : String}
    (h : table.defaultSelection = some columns) (mem : name ∈ columns) :
    ∃ column ∈ table.columns, column.hidden = false ∧ column.name = name := by
  unfold Table.defaultSelection at h
  split at h
  · obtain rfl := Option.some.inj h
    obtain ⟨column, hcolumn, rfl⟩ := List.mem_map.1 mem
    rw [List.mem_filter, Bool.not_eq_true'] at hcolumn
    exact ⟨column, hcolumn.1, hcolumn.2, rfl⟩
  · cases h

/-- A list holds selected items, or visible columns of the table. -/
theorem Lists.selected_or_visible (listed : clauses.Lists item) : item ∈ clauses.selection ∨
    ∃ table, ∃ column ∈ table.columns, clauses.table = some table ∧ column.hidden = false ∧
      item = .ofColumn (.unqualified column.name) := by
  obtain ⟨items, hlisting, hitem⟩ := listed
  have hreturned {rows : Bool} (h : clauses.returned rows = .items items) :
      item ∈ clauses.selection := by
    unfold returned at h
    split at h
    · cases h
    · cases h
      exact hitem
  unfold listing at hlisting
  split at hlisting
  · unfold selected at hlisting
    split at hlisting
    · split at hlisting
      · rename_i columns hvisible
        cases hlisting
        obtain ⟨name, hname, rfl⟩ := List.mem_map.1 hitem
        unfold visible? at hvisible
        split at hvisible
        · rename_i table htable _
          split at hvisible
          · cases hvisible
          · obtain ⟨column, hcolumn, hshown, rfl⟩ := mem_defaultSelection hvisible hname
            exact .inr ⟨table, column, hcolumn, htable, hshown, rfl⟩
        · cases hvisible
      · cases hlisting
    · cases hlisting
      exact .inl hitem
  · exact .inl (hreturned hlisting)
  · exact .inl (hreturned hlisting)
  · exact .inl (hreturned hlisting)
  · cases hlisting
    cases hitem
  · cases hlisting
    cases hitem
  · cases hlisting
    cases hitem

/-- Only selections and changes have a list with items. -/
theorem Lists.select_or_mutation (listed : clauses.Lists item) :
    clauses.verb = .select ∨ clauses.verb.isMutation := by
  obtain ⟨items, hlisting, hitem⟩ := listed
  unfold listing at hlisting
  cases hverb : clauses.verb with
  | select => exact .inl rfl
  | insert | update | delete => exact .inr rfl
  | truncate | copy | describe =>
    simp only [hverb] at hlisting
    cases hlisting
    cases hitem

/-- A star in a discreet list stands for the columns of a table that hides none, unless it is that
of an insertion. -/
theorem Modest.not_hidden_of_all (modest : clauses.Modest secret) (all : clauses.listing = .all)
    (own : clauses.verb.isMutation ∨ clauses.source = .table)
    {table : Table} (target : clauses.table = some table) :
    (∃ insertion, clauses.verb = .insert insertion ∧ clauses.selection = [] ∧
      clauses.shape.returnsRows) ∨ ∀ column ∈ table.columns, column.hidden = false := by
  have hreturned {rows : Bool} (h : clauses.returned rows = .all) :
      clauses.selection = [] ∧ rows = true := by
    unfold returned at h
    split at h
    · rename_i hempty
      simpa [modest.selectsAll] using hempty
    · cases h
  unfold listing at all
  cases hverb : clauses.verb with
  | select =>
    simp only [hverb, selected] at all
    have hsource : clauses.source = .table := own.resolve_left (by simp [hverb, Verb.isMutation])
    split at all
    · split at all
      · cases all
      · rename_i hvisible
        simp only [visible?, target, hsource, modest.selectsAll, Bool.false_eq_true, ↓reduceIte,
          Table.defaultSelection] at hvisible
        split at hvisible
        · cases hvisible
        · rename_i hnone
          refine .inr fun column hcolumn ↦ ?_
          simpa using fun hhidden ↦ hnone (List.any_eq_true.2 ⟨column, hcolumn, hhidden⟩)
    · cases all
  | insert insertion =>
    simp only [hverb] at all
    obtain ⟨hempty, hrows⟩ := hreturned all
    exact .inl ⟨insertion, rfl, hempty, hrows⟩
  | update | delete =>
    simp only [hverb] at all
    cases (hreturned all).2
  | truncate | copy | describe =>
    simp only [hverb] at all
    cases all

/-- What discreet clauses read was built by discreet calls. -/
theorem Modest.settled_of_reads {sub : Statement} (modest : clauses.Modest secret)
    (reads : clauses.Reads sub) : sub.Settled secret := by
  have hsource (h : clauses.source = .body (.query sub)) : sub.Settled secret := by
    obtain ⟨other, hother, hsettled⟩ := modest.source _ h
    cases hother
    exact hsettled
  cases reads with
  | star verb all source => exact hsource source
  | rows listed rows => exact hsource rows.source
  | @value item listed query =>
    rcases listed.selected_or_visible with hselected | ⟨table, column, -, -, -, rfl⟩
    · rcases modest.items item hselected with hitem | ⟨⟨shape, hrows⟩, -⟩
      · exact hitem.query sub query
      · cases query.symm.trans hrows
    · cases query

/-- What discreet clauses list names public columns only, and has no fragment but the rows of the
sub-query that the statement reads from. -/
theorem Modest.listed (modest : clauses.Modest secret) (listed : clauses.Lists item) :
    (∀ reference ∈ item.expression.references, reference.Public secret clauses.table) ∧
      (item.expression.fragments = [] ∨ ∃ sub, clauses.TakesRows item sub) := by
  rcases listed.selected_or_visible with hselected | ⟨table, column, hcolumn, htable, hshown, rfl⟩
  · rcases modest.items item hselected with hitem | ⟨hrows, sub, hsource⟩
    · exact ⟨hitem.references, .inl hitem.fragments⟩
    · obtain ⟨hverb, hlabel⟩ := modest.rows item hselected hrows
      have hselect : clauses.verb = .select :=
        listed.select_or_mutation.resolve_right (by simp [hverb])
      refine ⟨?_, .inr ⟨sub, hrows, hselect, hlabel, hsource⟩⟩
      obtain ⟨shape, hexpression⟩ := hrows
      simp [hexpression, SelectExpr.references]
  · refine ⟨?_, .inl rfl⟩
    intro reference hreference
    obtain rfl := List.mem_singleton.1 hreference
    rw [htable]
    exact modest.guarded table htable column hcolumn hshown

/-- A statement with discreet clauses discloses nothing but what an insertion hands back. -/
theorem Modest.settled (modest : clauses.Modest secret) : Statement.Settled secret ⟨clauses⟩ := by
  intro discloses
  cases discloses with
  | @reference _ table item reference target listed mem h =>
    exact absurd h (((modest.listed listed).1 reference mem).2 table target)
  | starred listed mem star =>
    have hplain := ((modest.listed listed).1 _ mem).1
    rw [star] at hplain
    cases hplain
  | fragment listed mem other =>
    rcases (modest.listed listed).2 with hnone | ⟨sub, hrows⟩
    · rw [hnone] at mem
      cases mem
    · exact absurd hrows (other sub)
  | @columns _ table column all own target mem h =>
    rcases modest.not_hidden_of_all all own target with ⟨insertion, hverb, hempty, hrows⟩ | hshown
    · exact .insertion hverb hempty hrows
    · have hpublic := modest.guarded table target column mem (hshown column mem)
      exact absurd h (hpublic.2 table rfl)
  | spliced verb all source =>
    obtain ⟨_, hbody, _⟩ := modest.source _ source
    cases hbody
  | through reads h => exact .through reads (modest.settled_of_reads reads h)

end Clauses

/-! ## Methods -/

namespace Query

variable {query between next : Query} {added : SelectItem Statement → Prop}

/-- A method leaves alone what a query is on and what it reads, and selects at most further items of
a kind. -/
structure Adds (added : SelectItem Statement → Prop) (query next : Query) : Prop where
  table : next.clauses.table = query.clauses.table
  source : next.clauses.source = query.clauses.source
  selectsAll : next.clauses.selectsAll → query.clauses.selectsAll
  selection : ∀ item ∈ next.clauses.selection, item ∈ query.clauses.selection ∨ added item

theorem Adds.trans (first : query.Adds added between) (second : between.Adds added next) :
    query.Adds added next where
  table := second.table.trans first.table
  source := second.source.trans first.source
  selectsAll h := first.selectsAll (second.selectsAll h)
  selection item hitem := (second.selection item hitem).elim (first.selection item) .inr

/-- Changing other clauses leaves the list alone. -/
theorem Adds.same (table : next.clauses.table = query.clauses.table)
    (source : next.clauses.source = query.clauses.source)
    (selectsAll : next.clauses.selectsAll = query.clauses.selectsAll)
    (selection : next.clauses.selection = query.clauses.selection) : query.Adds added next :=
  ⟨table, source, fun h ↦ selectsAll ▸ h, fun _ hitem ↦ .inl (selection ▸ hitem)⟩

theorem Adds.selectItems {items : List (SelectItem Statement)} (h : ∀ item ∈ items, added item) :
    query.Adds added (query.selectItems items) := by
  refine ⟨rfl, rfl, fun h ↦ Bool.noConfusion h, fun item hitem ↦ ?_⟩
  exact (List.mem_append.1 hitem).imp_right (h item)

/-- Selecting a single column adds that column only. -/
theorem Adds.single {reference : ColumnRef} (table : next.clauses.table = query.clauses.table)
    (source : next.clauses.source = query.clauses.source)
    (selectsAll : next.clauses.selectsAll = false)
    (selection : next.clauses.selection = [.ofColumn reference])
    (shown : added (.ofColumn reference)) : query.Adds added next := by
  refine ⟨table, source, fun h ↦ ?_, fun item hitem ↦ .inr ?_⟩
  · rw [selectsAll] at h
    cases h
  · rw [selection] at hitem
    rwa [List.mem_singleton.1 hitem]

theorem Adds.countOf {argument : Option ColumnRef} (h : added ⟨.count argument, none⟩) :
    query.Adds added (query.countOf argument) := by
  rw [countOf_eq]
  refine ⟨rfl, rfl, fun h ↦ Bool.noConfusion h, fun item hitem ↦ .inr ?_⟩
  simp only [modify] at hitem
  split at hitem
  · cases hitem
  · rwa [List.mem_singleton.1 hitem]

/-- What counts the rows it touches may select nothing. -/
theorem Adds.fewer (table : next.clauses.table = query.clauses.table)
    (source : next.clauses.source = query.clauses.source)
    (selectsAll : next.clauses.selectsAll = query.clauses.selectsAll)
    (selection : next.clauses.selection = if query.clauses.counts then [] else
      query.clauses.selection) : query.Adds added next := by
  refine ⟨table, source, fun h ↦ selectsAll ▸ h, fun item hitem ↦ .inl ?_⟩
  rw [selection] at hitem
  split at hitem
  · cases hitem
  · exact hitem

theorem Adds.pushUpdate {assignments : List Assignment}
    (h : query.pushUpdate assignments = .ok next) : query.Adds added next := by
  obtain ⟨_, _, rfl⟩ := pushUpdate_eq_ok h
  simp only [countingRows_eq]
  exact .fewer rfl rfl rfl rfl

theorem Adds.update {data : Payload} (h : query.update data = .ok next) :
    query.Adds added next := by
  obtain ⟨_, _, _, _, h⟩ := update_eq_ok h
  exact .pushUpdate h

theorem Adds.orCreate {row : Payload} (h : query.orCreate row = .ok next) :
    query.Adds added next := by
  obtain ⟨_, _, _, _, _, rfl⟩ := orCreate_eq_ok h
  exact .same rfl rfl rfl rfl

/-- A statement that is made of another selects nothing that was not selected before. -/
theorem Adds.becomes (becomes : query.Becomes next) : query.Adds added next := by
  cases becomes with
  | plans | inserts => exact .fewer rfl rfl rfl rfl
  | deletes =>
    simp only [countingRows_eq]
    exact .fewer rfl rfl rfl rfl
  | settles | truncates | describes | copies => exact .same rfl rfl rfl rfl

end Query

/-! ## Calls -/

namespace SelectItem

variable {table : Option Table}

theorem modest_column {reference : ColumnRef} {label : Option String}
    (shown : reference.Public secret table) : Modest secret table ⟨.column reference, label⟩ where
  references other hother := by
    rw [List.mem_singleton.1 hother]
    exact shown
  fragments := rfl
  query _ h := by cases h

/-- Counting a public column is modest. -/
theorem modest_count {argument : Option ColumnRef}
    (shown : ∀ reference, argument = some reference → reference.Public secret table) :
    Modest secret table ⟨.count argument, none⟩ where
  references reference hreference := shown reference (Option.mem_toList.1 hreference)
  fragments := rfl
  query _ h := by cases h

/-- An expression over a public column is modest. -/
theorem modest_json {expression : JsonExpr} {label : Option String}
    (shown : expression.root.Public secret table) :
    Modest secret table ⟨.json expression, label⟩ where
  references other hother := by
    rw [List.mem_singleton.1 hother]
    exact shown
  fragments := rfl
  query _ h := by cases h

theorem modest_query {sub : Statement} {label : Option String} (settled : sub.Settled secret) :
    Modest secret table ⟨.query sub, label⟩ where
  references _ h := by cases h
  fragments := rfl
  query other h := by
    cases h
    exact settled

/-- A window function over public columns without fragments is modest. -/
theorem modest_window {call : WindowCall} {label : Option String}
    (argument : ∀ reference, call.argument = some reference → reference.Public secret table)
    (place : ∀ reference ∈ call.window.references, reference.Public secret table)
    (fragments : call.window.fragments = []) : Modest secret table ⟨.window call, label⟩ where
  references reference hreference := by
    rcases List.mem_append.1 hreference with hargument | hplace
    · exact argument reference (Option.mem_toList.1 hargument)
    · exact place reference hplace
  fragments := fragments
  query _ h := by cases h

end SelectItem

/-- Nothing is selected at the start, and the table is all that is read from. -/
theorem Clauses.Modest.ofTable {table : Table} (guarded : table.Guarded secret) :
    (Clauses.ofTable table).Modest secret where
  guarded _ h := by
    cases h
    exact guarded
  selectsAll := rfl
  items _ h := by cases h
  rows _ h := by cases h
  source _ h := by cases h

/-- Discreet clauses stay discreet if modest items are selected. -/
theorem Clauses.Modest.adds {query next : Query} (modest : query.clauses.Modest secret)
    (adds : query.Adds (SelectItem.Modest secret query.clauses.table) next)
    (rows : next.clauses.KeepsRows) : next.clauses.Modest secret where
  guarded table h := modest.guarded table (adds.table ▸ h)
  selectsAll := by
    rw [Bool.eq_false_iff]
    intro h
    exact Bool.false_ne_true (modest.selectsAll.symm.trans (adds.selectsAll h))
  items item hitem := by
    rw [adds.table, adds.source]
    exact (adds.selection item hitem).elim (modest.items item) .inl
  rows := rows
  source body h := modest.source body (adds.source ▸ h)

namespace Call

variable {call : Call} {query next : Query} {inner : Query → Prop}

/-- Whether a call starts another query or gives it something else to read from. -/
def resets : Call → Bool
  | sibling _ | fromQuery _ _ | json => true
  | _ => false

/-- All other discreet calls select at most modest items. -/
theorem adds_apply (given : call.Discreet secret inner query)
    (subs : ∀ sub, inner sub → sub.clauses.Modest secret) (done : call.apply query = .ok next)
    (stays : call.resets = false) :
    query.Adds (SelectItem.Modest secret query.clauses.table) next := by
  cases call with
  | sibling | fromQuery | json => cases stays
  | fromRaw | selectRaw | selectAll => exact given.elim
  | select columns =>
    obtain ⟨references, hreferences, done⟩ := bind_eq_ok.1 done
    cases done
    refine .selectItems (List.forall_mem_map.2 fun reference hreference ↦ ?_)
    obtain ⟨column, hcolumn, hparsed⟩ := exists_of_mem_results hreferences hreference
    exact SelectItem.modest_column (given column hcolumn reference hparsed)
  | selectAs column label =>
    obtain ⟨reference, hreference, done⟩ := bind_eq_ok.1 done
    cases done
    exact .selectItems (List.forall_mem_singleton.2
      (SelectItem.modest_column (given reference hreference)))
  | selectQuery sub label =>
    cases done
    exact .selectItems (List.forall_mem_singleton.2
      (SelectItem.modest_query (subs sub given).settled))
  | selectOver function column place label =>
    obtain ⟨argument, -, hargument, rfl⟩ := Query.selectOver_eq_ok.1 done
    refine .selectItems (List.forall_mem_singleton.2
      (SelectItem.modest_window (fun reference hreference ↦ ?_) given.2.1 given.2.2))
    cases column with
    | none =>
      cases hargument
      cases hreference
    | some name =>
      obtain ⟨parsed, hparsed, hsome⟩ := map_eq_ok.1 hargument
      cases hsome
      cases hreference
      exact given.1 name rfl reference hparsed
  | selectJson expression label =>
    cases done
    exact .selectItems (List.forall_mem_singleton.2 (SelectItem.modest_json given))
  | selectJsonPath expression path label =>
    obtain ⟨-, rfl⟩ := Query.selectJsonPath_eq_ok.1 done
    exact .selectItems (List.forall_mem_singleton.2 (SelectItem.modest_json given))
  | pluck =>
    obtain ⟨reference, hreference, rfl⟩ := Query.selectSingle_eq_ok.1 done
    exact .single rfl rfl rfl rfl (SelectItem.modest_column (given reference hreference))
  | get | getOptional =>
    obtain ⟨reference, hreference, rfl⟩ := Query.selectValue_eq_ok.1 done
    exact .single rfl rfl rfl rfl (SelectItem.modest_column (given reference hreference))
  | count =>
    cases done
    exact .countOf (SelectItem.modest_count fun _ h ↦ by cases h)
  | countColumn column =>
    obtain ⟨reference, hreference, done⟩ := bind_eq_ok.1 done
    cases done
    refine .countOf (SelectItem.modest_count fun other hother ↦ ?_)
    cases hother
    exact given reference hreference
  | insert | insertMany | insertRaw | insertFrom | ignoreConflict | mergeConflict | setConflict
  | delete | truncate | describe | copy => exact .becomes (becomes_apply done rfl)
  | update => exact .update done
  | updateRaw | increment | decrement => exact .pushUpdate done
  | orCreate => exact .orCreate done
  | upsert =>
    rcases Query.upsert_eq_ok.1 done with ⟨-, done⟩ | ⟨-, updated, hupdated, done⟩
    · exact .orCreate done
    · exact (Query.Adds.update hupdated).trans (.orCreate done)
  | _ =>
    have frames := frames_apply done rfl
    exact .same frames.table (frames.source rfl) (frames.selectsAll rfl) (frames.selection rfl)

/-- Discreet calls leave discreet clauses. -/
theorem modest_apply
    (reading : ∀ table reference, secret table reference → table.Hides reference.name)
    (modest : query.clauses.Modest secret)
    (given : call.Discreet secret inner query)
    (subs : ∀ sub, inner sub → sub.clauses.Modest secret) (rows : next.clauses.KeepsRows)
    (done : call.apply query = .ok next) : next.clauses.Modest secret := by
  cases hresets : call.resets with
  | false => exact modest.adds (adds_apply given subs done hresets) rows
  | true =>
    cases call with
    | sibling name =>
      have hstarless := given next done
      obtain ⟨table, -, rfl⟩ := Query.sibling_eq_ok.1 done
      exact .ofTable ((hstarless table rfl).guarded (reading table))
    | fromQuery sub label =>
      cases done
      refine ⟨modest.guarded, modest.selectsAll, fun item hitem ↦ ?_, rows, ?_⟩
      · exact (modest.items item hitem).imp_right fun hrows ↦ ⟨hrows.1, sub.statement, rfl⟩
      · rintro _ ⟨⟩
        exact ⟨sub.statement, rfl, (subs sub given).settled⟩
    | json =>
      cases done
      refine ⟨modest.guarded, rfl, fun item hitem ↦ ?_, rows, ?_⟩
      · rw [List.mem_singleton.1 hitem]
        exact .inr ⟨⟨query.clauses.shape, rfl⟩, query.statement, rfl⟩
      · rintro _ ⟨⟩
        exact ⟨query.statement, rfl, modest.settled⟩
    | _ => cases hresets

end Call

namespace Query

variable {query : Query}

theorem Discreet.modest
    (reading : ∀ table reference, secret table reference → table.Hides reference.name)
    (h : query.Discreet secret) : query.clauses.Modest secret := by
  induction h with
  | ofTable starless catalog log => exact .ofTable (starless.guarded (reading _))
  | call call inner reached given subs rows done ih hsubs =>
    exact Call.modest_apply reading ih given hsubs rows done

/-- The list of a discreet query, which is the whole SELECT or RETURNING list in its code, refers to
no hidden column and has no star that stands for one, unless it hands back what an insertion without
a selection hands back. `secret` may be any way to tell which references mean a hidden column. -/
theorem Discreet.hides
    (reading : ∀ table reference, secret table reference → table.Hides reference.name)
    (h : query.Discreet secret) :
    (query.statement.Discloses secret → query.statement.ReturnsAll) ∧
      ∀ code, query.statement.code = .ok code → ∃ before list after : Code,
        (Statement.foldClauses Clauses.code query.clauses).listCode
          (query.clauses.listing.map (Statement.foldItem Clauses.code)) = .ok list ∧
        (Statement.foldClauses Clauses.code query.clauses).Around list before after ∧
        code = before ++ list ++ after := by
  refine ⟨(h.modest reading).settled, fun code hcode ↦ ?_⟩
  obtain ⟨before, list, after, hlist, haround, rfl⟩ := Clauses.exists_around_list hcode
  rw [Clauses.listing_fold] at hlist
  exact ⟨before, list, after, hlist, haround, rfl⟩

end Query

/-! ## Accounts -/

namespace Blog

/-- The table of accounts, which hides their passwords. -/
def account : Table :=
  ⟨"account", none, [.plain "id" .integer, .plain "email" .text,
    { Column.plain "password" .text with hidden := true }], [], none⟩

def accounts : Query := ⟨.ofTable account, none, none⟩

/-- A reference means a hidden column of a table if it has its name. -/
def named (table : Table) (reference : ColumnRef) : Prop := table.Hides reference.name

theorem starless_account : account.Starless := by
  intro column hcolumn _
  simp only [account, List.mem_cons, List.not_mem_nil, or_false] at hcolumn
  rcases hcolumn with rfl | rfl | rfl <;> decide

theorem discreet_accounts : accounts.Discreet named := .ofTable starless_account none none

def dumped : Query := accounts.json

theorem discreet_dumped : dumped.Discreet named := by
  refine .call .json (fun _ ↦ False) discreet_accounts trivial (fun _ ↦ False.elim) ?_ rfl
  intro item hitem _
  exact ⟨rfl, rfl⟩

theorem hides_dumped : (∀ table reference, named table reference → table.Hides reference.name) ∧
    dumped.Discreet named ∧ ¬dumped.statement.Discloses named ∧
    (∃ code, dumped.statement.code = .ok code ∧ ∃ before list after : Code,
      (Statement.foldClauses Clauses.code dumped.clauses).listCode
        (dumped.clauses.listing.map (Statement.foldItem Clauses.code)) = .ok list ∧
      (Statement.foldClauses Clauses.code dumped.clauses).Around list before after ∧
      code = before ++ list ++ after) ∧
    ∃ sql, dumped.compile = .ok sql ∧
      sql.text = "SELECT COALESCE(json_agg(row_to_json(\"t\".*)), '[]') AS \"json\" FROM " ++
        "(SELECT \"account\".\"id\", \"account\".\"email\" FROM \"account\") AS \"t\"" := by
  have hreading : ∀ table reference, named table reference → table.Hides reference.name :=
    fun _ _ h ↦ h
  have haccounts : ¬accounts.statement.ReturnsAll := by
    intro h
    cases h with
    | insertion verb => cases verb
    | through reads =>
      cases reads with
      | star verb all source => cases source
      | rows listed rows => cases rows.source
      | value listed query =>
        rcases listed.selected_or_visible with h | ⟨_, _, -, -, -, rfl⟩
        · cases h
        · cases query
  have hdumped : ¬dumped.statement.ReturnsAll := by
    intro h
    cases h with
    | insertion verb => cases verb
    | through reads hsub =>
      cases reads with
      | star verb all source => cases all
      | rows listed rows =>
        cases rows.source
        exact haccounts hsub
      | value listed query =>
        rcases listed.selected_or_visible with h | ⟨_, _, -, -, -, rfl⟩
        · rw [List.mem_singleton.1 h] at query
          cases query
        · cases query
  refine ⟨hreading, discreet_dumped,
    fun h ↦ hdumped ((Query.Discreet.hides hreading discreet_dumped).1 h), ⟨_, rfl, ?_⟩, _, rfl,
    by decide +kernel⟩
  exact (Query.Discreet.hides hreading discreet_dumped).2 _ rfl

def registered : Query :=
  (accounts.insert (Payload.empty.set "email" (.literal (.text "a@b.c")))).toOption.getD accounts

/-- A new account is handed back with its password. -/
theorem discloses_registered : registered.Discreet named ∧ account.Hides "password" ∧
    registered.statement.Discloses named ∧
    ∃ sql, registered.compile = .ok sql ∧
      sql.text = "INSERT INTO \"account\"(\"email\") VALUES ($1) RETURNING *" := by
  have hpassword : account.Hides "password" := by
    refine ⟨⟨{ Column.plain "password" .text with hidden := true }, by decide, rfl⟩, ?_⟩
    decide
  have hregistered : registered.Discreet named := by
    refine .call (.insert (Payload.empty.set "email" (.literal (.text "a@b.c")))) (fun _ ↦ False)
      discreet_accounts trivial (fun _ ↦ False.elim) ?_ rfl
    intro item hitem
    cases hitem
  refine ⟨hregistered, hpassword, ?_, _, rfl, by decide +kernel⟩
  exact .columns rfl (.inl rfl) rfl (List.mem_of_getLast? rfl) hpassword

end Blog

end SqlComposer
