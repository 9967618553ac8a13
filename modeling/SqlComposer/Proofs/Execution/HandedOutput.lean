import Mathlib.Algebra.Ring.Nat
import SqlComposer.Proofs.Execution.CommittedHooks
import SqlComposer.Proofs.Execution.QueriesRun
import SqlComposer.Proofs.Fallback.RequiredRows
import SqlComposer.Proofs.Insertion.RelatedRowNumbers
import SqlComposer.Proofs.Insertion.WritableInsertions

/-!
# What hooks behind a query are handed

The hooks behind a query are called with the query, or with the row in its place if that was
inserted, and with the output that the caller gets. The statement that was sent is that of the query
with the keys of rows inserted before filled into its cells. So what the hooks are handed is written
as it was sent if no rows were inserted before, as with all updates. A cell that waits for a key is
still pending in what they are handed and binds nothing, while the statement sent binds the key.
-/

namespace SqlComposer

/-! ## Values of rows -/

/-- If every result has the size of its item, all results have the sizes together. -/
theorem length_flatMap_mapM {α β γ : Type} {f : α → Except Error β} {g : β → List γ}
    {size : α → Nat} (sized : ∀ item result, f item = .ok result → (g result).length = size item)
    {items : List α} {results : List β} (h : items.mapM f = .ok results) :
    (results.flatMap g).length = (items.map size).sum := by
  induction items generalizing results with
  | nil =>
    rw [List.mapM_nil, pure_eq_ok] at h
    simp [← h]
  | cons item rest ih =>
    obtain ⟨first, others, hfirst, hothers, rfl⟩ := mapM_eq_ok_cons.1 h
    rw [List.flatMap_cons, List.length_append, sized item first hfirst, ih hothers, List.map_cons,
      List.sum_cons]

namespace Code

/-- A separator binds nothing. -/
theorem values_separated (separator : String) (items : List Code) :
    values (separated separator items) = items.flatMap values := by
  unfold separated
  induction items with
  | nil => rfl
  | cons first rest ih =>
    cases rest with
    | nil => simp [List.intercalate_singleton]
    | cons second others =>
      have hword : values [.word separator] = [] := rfl
      rw [List.intercalate_cons_cons, values_append, values_append, hword, List.append_nil, ih]
      rfl

theorem values_parenthesized (code : Code) : values (parenthesized code) = values code := by
  rw [parenthesized, List.cons_append, values, values_append]
  simp [values, Piece.values]

end Code

/-- The number of values that code binds, if it can be written. -/
def boundBy (written : Written) : Nat :=
  match written with
  | .ok code => (Code.values code).length
  | .error _ => 0

theorem boundBy_eq {written : Written} {code : Code} (h : written = .ok code) :
    boundBy written = (Code.values code).length := by
  rw [h, boundBy]

namespace Cell

def bound (cell : Cell) : Nat := boundBy cell.code

theorem length_values_code {cell : Cell} {code : Code} (h : cell.code = .ok code) :
    (Code.values code).length = cell.bound := (boundBy_eq h).symm

theorem length_values_rowCode {row : List Cell} {code : Code} (h : rowCode row = .ok code) :
    (Code.values code).length = (row.map bound).sum := by
  simp only [rowCode, bind_eq_ok, pure_eq_ok] at h
  obtain ⟨codes, hcodes, rfl⟩ := h
  rw [Code.values_parenthesized, Code.values_separated]
  exact length_flatMap_mapM (fun _ _ ↦ length_values_code) hcodes

/-- A cell as it may be when keys are filled in: it is the same or holds a key. -/
def FilledTo (before after : Cell) : Prop :=
  after = before ∨ ∃ key, after = .value (.literal key)

/-- Filling one cell with a key fills the cells further. -/
theorem forall₂_set {cells others : List Cell} (h : List.Forall₂ FilledTo cells others)
    (column : Nat) (key : Literal) :
    List.Forall₂ FilledTo cells (others.set column (.value (.literal key))) := by
  induction h generalizing column with
  | nil => exact .nil
  | cons hfirst hrest ih =>
    cases column with
    | zero => exact .cons (.inr ⟨key, rfl⟩) hrest
    | succ column => exact .cons hfirst (ih column)

/-- Filling a cell of one row with a key fills the rows further. -/
theorem forall₂_modify_set {rows others : List (List Cell)}
    (h : List.Forall₂ (List.Forall₂ FilledTo) rows others) (row column : Nat) (key : Literal) :
    List.Forall₂ (List.Forall₂ FilledTo) rows
      (others.modify row fun cells ↦ cells.set column (.value (.literal key))) := by
  induction h generalizing row with
  | nil =>
    cases row <;> exact .nil
  | cons hfirst hrest ih =>
    cases row with
    | zero => exact .cons (forall₂_set hfirst column key) hrest
    | succ row => exact .cons hfirst (ih row)

/-- Where every cell binds one value at most, filling in keys takes no value away. -/
theorem sum_bound_le {cells others : List Cell} (filled : List.Forall₂ FilledTo cells others)
    (single : ∀ cell ∈ cells, cell.bound ≤ 1) :
    (cells.map bound).sum ≤ (others.map bound).sum := by
  induction filled with
  | nil => exact le_rfl
  | @cons before after cells others hfirst _ ih =>
    rw [List.forall_mem_cons] at single
    rw [List.map_cons, List.map_cons, List.sum_cons, List.sum_cons]
    have hle : before.bound ≤ after.bound := by
      rcases hfirst with rfl | ⟨key, rfl⟩
      · exact le_rfl
      · exact single.1
    exact Nat.add_le_add hle (ih single.2)

/-- Filling a pending cell adds a value. -/
theorem sum_bound_lt {cells others : List Cell} (filled : List.Forall₂ FilledTo cells others)
    (single : ∀ cell ∈ cells, cell.bound ≤ 1) (pending : .pending ∈ cells)
    (settled : .pending ∉ others) : (cells.map bound).sum < (others.map bound).sum := by
  induction filled with
  | nil => cases pending
  | @cons before after cells others hfirst hrest ih =>
    rw [List.forall_mem_cons] at single
    rw [List.mem_cons, not_or] at settled
    rw [List.map_cons, List.map_cons, List.sum_cons, List.sum_cons]
    rcases List.mem_cons.1 pending with rfl | hpending
    · rcases hfirst with rfl | ⟨key, rfl⟩
      · exact absurd rfl settled.1
      · exact Nat.add_lt_add_of_lt_of_le Nat.zero_lt_one (sum_bound_le hrest single.2)
    · have hle : before.bound ≤ after.bound := by
        rcases hfirst with rfl | ⟨key, rfl⟩
        · exact le_rfl
        · exact single.1
      exact Nat.add_lt_add_of_le_of_lt hle (ih single.2 hpending settled.2)

end Cell

/-- The number of values that the rows of an insertion bind. -/
def boundIn (rows : List (List Cell)) : Nat := (rows.flatten.map Cell.bound).sum

/-- The values bound by inserted rows are those of their cells. -/
theorem Insertion.length_values_sourceCode {columns : List String} {rows : List (List Cell)}
    {conflict : Option Conflict} {code : Code} (named : columns ≠ [])
    (h : (⟨columns, .rows rows, conflict⟩ : Insertion Written).sourceCode = .ok code) :
    (Code.values code).length = boundIn rows := by
  have hempty : columns.isEmpty = false := by
    cases columns with
    | nil => exact absurd rfl named
    | cons first rest => rfl
  simp only [sourceCode, hempty, Bool.false_eq_true, if_false, bind_eq_ok, pure_eq_ok] at h
  obtain ⟨codes, hcodes, rfl⟩ := h
  have hnames : Code.values (Code.parenthesized (Code.nameList columns)) = [] := by
    rw [Code.values_parenthesized, Code.nameList, Code.values_separated, List.flatMap_map]
    exact List.flatMap_eq_nil_iff.2 fun _ _ ↦ rfl
  calc (Code.values (Code.parenthesized (Code.nameList columns) ++
        .word " VALUES " :: Code.separated ", " codes)).length
      = (codes.flatMap Code.values).length := by
        rw [Code.values_append, hnames, Code.values, Code.values_separated]
        rfl
    _ = (rows.map fun row ↦ (row.map Cell.bound).sum).sum :=
        length_flatMap_mapM (fun _ _ ↦ Cell.length_values_rowCode) hcodes
    _ = boundIn rows := by
        rw [boundIn, List.map_flatten, List.sum_flatten, List.map_map]
        rfl

/-- What an insertion writes around its rows binds as many values whatever the rows are. -/
theorem Clauses.exists_bound_around (clauses : Clauses Written) {columns : List String}
    (named : columns ≠ []) (conflict : Option Conflict) :
    ∃ around, ∀ rows code,
      { clauses with verb := .insert ⟨columns, .rows rows, conflict⟩ }.code = .ok code →
        (Code.values code).length = around + boundIn rows := by
  let empty : Clauses Written := { clauses with verb := .insert ⟨columns, .rows [], conflict⟩ }
  let target : Written := clauses.table.elim (.ok []) fun table ↦ .ok (clauses.targetCode table)
  let reaction : Written :=
    (⟨columns, .rows [], conflict⟩ : Insertion Written).reactionCode clauses.filter
      clauses.qualifier
  refine ⟨boundBy (CommonTable.declarations clauses.commonTables) + boundBy target +
    boundBy reaction + boundBy empty.returningCode, fun rows code hcode ↦ ?_⟩
  obtain ⟨declarations, _, hdeclarations, hverb, rfl⟩ := code_eq_ok hcode
  obtain ⟨table, _, returning, htable, hchange, hreturning, rfl⟩ := insert_eq_ok rfl hverb
  rw [Insertion.code_eq] at hchange
  simp only [bind_eq_ok, pure_eq_ok] at hchange
  obtain ⟨source, hsource, change, hreaction, rfl⟩ := hchange
  have htarget : target = .ok (clauses.targetCode table) := by
    simp only [target]
    rw [show clauses.table = some table from htable]
    rfl
  have hreaction : reaction = .ok change := hreaction
  have hreturning : empty.returningCode = .ok returning := hreturning
  rw [boundBy_eq hdeclarations, boundBy_eq htarget, boundBy_eq hreaction, boundBy_eq hreturning,
    ← Insertion.length_values_sourceCode named hsource]
  simp only [Code.values_append, Code.values, List.cons_append, Piece.values, List.nil_append,
    List.length_append]
  have hsame : ({ clauses with verb := .insert ⟨columns, .rows rows, conflict⟩ } :
      Clauses Written).targetCode table = clauses.targetCode table := rfl
  rw [hsame]
  omega

/-! ## Filled cells -/

theorem Statement.foldClauses_withVerb {Result : Type} (step : Clauses Result → Result)
    (clauses : Clauses Statement) (verb : Verb Statement) :
    foldClauses step { clauses with verb } =
      { foldClauses step clauses with verb := foldVerb step verb } := by
  simp only [foldClauses_eq]

namespace Query

variable {query filled : Query}

/-- Keys go into the cells of the rows of an insertion. -/
theorem Filled.rows (h : query.Filled filled) {columns : List String} {rows : List (List Cell)}
    {conflict : Option Conflict}
    (verb : query.clauses.verb = .insert ⟨columns, .rows rows, conflict⟩) :
    ∃ others, filled.clauses.verb = .insert ⟨columns, .rows others, conflict⟩ ∧
      List.Forall₂ (List.Forall₂ Cell.FilledTo) rows others := by
  induction h with
  | refl =>
    have hsame : List.Forall₂ (List.Forall₂ Cell.FilledTo) rows rows :=
      List.forall₂_same.2 fun cells _ ↦ List.forall₂_same.2 fun cell _ ↦ .inl rfl
    exact ⟨rows, verb, hsame⟩
  | fill _ row column key ih =>
    obtain ⟨others, hverb, hothers⟩ := ih
    exact ⟨_, by rw [verb_fillCell, hverb]; rfl, Cell.forall₂_modify_set hothers row column key⟩

/-- A query whose pending cells are filled binds more values, if no cell of it binds several. -/
theorem Filled.length_values_lt (fills : query.Filled filled) (fitting : query.clauses.Fitting)
    {row column : Nat} (pending : query.clauses.PendingAt row column)
    (settled : ∀ row column, ¬filled.clauses.PendingAt row column)
    (single : ∀ cells ∈ query.insertedRows, ∀ cell ∈ cells, cell.bound ≤ 1) {own sql : CompiledSql}
    (written : query.compile = .ok own) (sent : filled.compile = .ok sql) :
    own.values.length < sql.values.length := by
  obtain ⟨⟨columns, source, conflict⟩, rows, cells, hverb, rfl, hcells, hcell⟩ := pending
  obtain ⟨others, hfilled, hothers⟩ := fills.rows hverb
  have hrow : cells ∈ rows := List.mem_of_getElem? hcells
  have hmem : .pending ∈ cells := List.mem_of_getElem? hcell
  have hnamed : columns ≠ [] := by
    rintro rfl
    rw [List.eq_nil_of_length_eq_zero (fitting.width hverb cells hrow)] at hmem
    cases hmem
  have hsettled : .pending ∉ others.flatten := by
    rw [List.mem_flatten]
    rintro ⟨after, hafter, hpending⟩
    obtain ⟨place, hplace⟩ := List.mem_iff_getElem?.1 hafter
    obtain ⟨position, hposition⟩ := List.mem_iff_getElem?.1 hpending
    exact settled place position ⟨_, others, after, hfilled, rfl, hplace, hposition⟩
  have hsingle : ∀ cell ∈ rows.flatten, cell.bound ≤ 1 := by
    unfold insertedRows at single
    rw [hverb] at single
    simpa [List.mem_flatten] using fun cell cells hcells ↦ single cells hcells cell
  have hlt : boundIn rows < boundIn others :=
    Cell.sum_bound_lt (List.rel_flatten hothers) hsingle
      (List.mem_flatten.2 ⟨cells, hrow, hmem⟩) hsettled
  obtain ⟨around, haround⟩ := Clauses.exists_bound_around
    (Statement.foldClauses Clauses.code query.clauses) hnamed conflict
  have hlength {other : Query} {rows : List (List Cell)} {sql : CompiledSql}
      (h : other.clauses = { query.clauses with verb := .insert ⟨columns, .rows rows, conflict⟩ })
      (hsql : other.compile = .ok sql) : sql.values.length = around + boundIn rows := by
    obtain ⟨code, hcode, rfl⟩ := map_eq_ok.1 hsql
    have hfold : (Statement.foldClauses Clauses.code other.clauses).code = .ok code := hcode
    rw [h, Statement.foldClauses_withVerb] at hfold
    exact haround rows code hfold
  rw [hlength (by rw [← hverb]) written, hlength (by rw [← hfilled]; exact fills.clauses) sent]
  exact Nat.add_lt_add_left hlt around

/-! ## Rows before -/

/-- A query asks for rows that are inserted before its own. -/
def AsksBefore (query : Query) : Prop :=
  ∃ row column relation data, .before row column relation data ∈ query.clauses.related

variable {σ : Type} {surroundings : Script.Surroundings σ} {memory ended : σ}

/-- Without rows that are inserted before, no key is filled in. -/
theorem eq_of_completesBefore {final : Query} {related : List RelatedInsert}
    (h : CompletesBefore surroundings query filled related memory final ended)
    (alone : ∀ row column relation data, .before row column relation data ∉ related) :
    final = filled := by
  induction related with
  | nil =>
    cases h
    rfl
  | cons request rest ih =>
    have hrest (row column : Nat) (relation : Relation) (data : Payload) :
        .before row column relation data ∉ rest := fun hmem ↦
      alone row column relation data (List.mem_cons_of_mem _ hmem)
    cases h with
    | before => exact absurd List.mem_cons_self (alone _ _ _ _)
    | after others => exact ih others hrest

/-- When the rows before were inserted, no cell is pending. -/
theorem settled_of_completesBefore (awaits : query.clauses.Awaits)
    (h : CompletesBefore surroundings query query query.clauses.related memory filled ended)
    (row column : Nat) : ¬filled.clauses.PendingAt row column := fun hpending ↦ by
  have hensures := ensures_runBefore query query query.clauses.related fun _ ↦ id
  obtain ⟨-, hunasked⟩ := hensures.of_yields ((yields_runBefore _ _ _).2 h)
  obtain ⟨hown, hnone⟩ := hunasked row column hpending
  obtain ⟨relation, data, hmem⟩ := awaits row column hown
  exact hnone relation data hmem

/-! ## The row in place -/

/-- What runs for a query, whose hooks are called then: the query or the row in its place. -/
def IsRunFor (query told : Query) : Prop :=
  told = query ∨ ∃ fallback, query.clauses.fallback = some fallback ∧
    told = query.withClauses fallback.clauses

theorem isRunFor_created {outcome : Outcome}
    (h : (query.runStatements.run surroundings memory).result = .ok outcome) :
    query.IsRunFor (outcome.created.getD query) := by
  obtain ⟨ended, hyields⟩ := Script.exists_yields_of_ok surroundings h
  cases (yields_runStatements query).1 hyields with
  | matching => exact .inl rfl
  | creating _ _ replaced => exact .inr ⟨_, replaced, rfl⟩

/-- A row in place has no row in its own place. -/
theorem Reachable.fallback_alone {supplied : Fragment → Prop} (reached : query.Reachable supplied)
    {fallback : Statement} (held : query.clauses.fallback = some fallback) :
    fallback.clauses.fallback = none := by
  obtain ⟨base, row, made, hmade, hheld⟩ := reached.exists_orCreate held
  obtain ⟨-, insertion, hinsertion, hconfigures⟩ := configures_orCreate hmade
  cases hheld.symm.trans hinsertion
  exact hconfigures.alone

/-- What runs for a query that methods lead to asks for rows only where it inserts rows, or has
been turned into a description, and what is said about its rows fits them. -/
theorem Reachable.fitting {supplied : Fragment → Prop} (reached : query.Reachable supplied)
    {told : Query} (runs : query.IsRunFor told) :
    told.clauses.Fitting ∧
      (told.clauses.related ≠ [] → told.clauses.InsertsRows ∨ told.clauses.verb.describes) := by
  have kept := reached.kept
  rcases runs with rfl | ⟨fallback, held, rfl⟩
  · exact ⟨kept.toFitting, kept.origin⟩
  · have hrepresented := kept.replaced fallback held
    exact ⟨hrepresented.toFitting, fun h ↦ .inl (hrepresented.owned h)⟩

/-! ## Executing -/

/-- What a hook behind a query is handed: the query or the row in its place, and the output that the
answer to the statement of this came to. The statement was sent before. What is handed is written
like it if it asks for no rows before, and not like it if one of its cells still waits for a key. -/
structure Handed (surroundings : Script.Surroundings σ) (query : Query) (hook : HookCall)
    (filled : Query) (sql : CompiledSql) (reply result : RowSet) (earlier : List Script.Step) :
    Prop where
  runs : query.IsRunFor hook.query
  answered : hook.query.AnsweredIn surroundings filled sql reply result earlier
  output : hook.output = some (filled.outputOf result)
  updates : hook.moment = .afterUpdate → ¬hook.query.AsksBefore
  same : ¬hook.query.AsksBefore → hook.query.compile = .ok sql
  pending : ∀ row column, hook.query.clauses.PendingAt row column →
    (∀ cells ∈ hook.query.insertedRows, ∀ cell ∈ cells, cell.bound ≤ 1) →
      hook.query.compile ≠ .ok sql

/-- The statements of a query run in its scope, and all their steps are steps of the run. -/
theorem exists_statements_between {session : Session} {outcome : Outcome}
    (h : ((query.runBetween session).run surroundings memory).result = .ok outcome) :
    ∃ opened, (query.runStatements.run surroundings opened).result = .ok outcome ∧
      ∀ step ∈ query.runStatements.steps surroundings opened,
        step ∈ (query.runBetween session).steps surroundings memory := by
  rcases query.runBetween_cases session with ⟨scope, -, -, hbetween⟩ | ⟨_, -, -, hbetween⟩ |
    ⟨-, hbetween⟩ <;> rw [hbetween] at h ⊢
  · obtain ⟨opened, before, rows, behind, rest, -, hbody, hsteps⟩ := steps_runWithin h
    refine ⟨opened, hbody, fun step hmem ↦ ?_⟩
    rw [hsteps]
    simp [hmem]
  · cases h
  · exact ⟨memory, h, fun _ ↦ id⟩

/-- A hook behind a query was handed the output of an earlier reply, which the run ends with. -/
theorem handed_exec {supplied : Fragment → Prop} (reached : query.Reachable supplied)
    {session : Session} {earlier later : List Script.Step} {hook : HookCall}
    {verdict : Except Error Unit} (called : (query.exec session).steps surroundings memory =
      earlier ++ .called hook verdict :: later) (behind : hook.moment.isAfter) :
    (∃ filled sql reply result, Handed surroundings query hook filled sql reply result earlier) ∧
      ∀ output, ((query.exec session).run surroundings memory).result = .ok output →
        hook.output = some output := by
  obtain ⟨ready, outcome, last, hresult, ⟨hhook, hends⟩, rfl, -⟩ :=
    exists_steps_between called behind
  obtain ⟨hsame, houtput, hupdates⟩ := told_hooksAfter hook hhook
  obtain ⟨opened, hbody, hwithin⟩ := exists_statements_between hresult
  obtain ⟨filled, sql, reply, result, hanswered, hcame⟩ := answered_runStatements hbody
  have hruns := isRunFor_created hbody
  rw [← hsame] at hanswered hupdates hruns
  obtain ⟨hfitting, horigin⟩ := reached.fitting hruns
  have hout : outcome.output = filled.outputOf result :=
    hcame fun fallback ↦ reached.fallback_alone
  obtain ⟨start, between, hbefore⟩ := hanswered.before
  refine ⟨⟨filled, sql, reply, result, ?_⟩, fun output hok ↦ ?_⟩
  · constructor
    case runs => exact hruns
    case answered =>
      refine hanswered.mono fun step hmem ↦ ?_
      simp [hwithin step hmem]
    case output => rw [houtput, hout]
    case updates =>
      rintro hmoment ⟨row, column, relation, data, hmem⟩
      obtain ⟨assignments, hverb⟩ := hupdates hmoment
      rcases horigin (List.ne_nil_of_mem hmem) with ⟨columns, rows, conflict, hinserts⟩ | hdescribes
      · cases hverb.symm.trans hinserts
      · rw [hverb] at hdescribes
        cases hdescribes
    case same =>
      intro hnone
      rw [← eq_of_completesBefore hbefore fun row column relation data hmem ↦
        hnone ⟨row, column, relation, data, hmem⟩]
      exact hanswered.compiled
    case pending =>
      intro row column hpending hsingle hwritten
      exact lt_irrefl _ (hanswered.fills.length_values_lt hfitting hpending
        (settled_of_completesBefore hfitting.awaits hbefore) hsingle hwritten hanswered.compiled)
  · rw [houtput, hends output hok]

theorem Handed.mono {hook : HookCall} {sql : CompiledSql} {reply result : RowSet}
    {steps more : List Script.Step}
    (h : Handed surroundings query hook filled sql reply result steps)
    (subset : ∀ step ∈ steps, step ∈ more) :
    Handed surroundings query hook filled sql reply result more :=
  { h with answered := h.answered.mono subset }

/-- The hooks behind a query are handed what ran, the query or the row in its place, whose statement
was answered before they are called, and the output that this answer came to, which is what the
query ends with. The query that they are handed is written like the statement that was sent if it
asks for no rows before, as with every update. If a cell of its rows still waits for the key of such
a row, it is not, provided no cell binds several values. -/
theorem exec_handing [SavepointName] {supplied : Fragment → Prop}
    (reached : query.Reachable supplied) (surroundings : Script.Surroundings σ) (memory : σ) :
    (∀ session earlier hook verdict later, hook.moment.isAfter →
      (query.exec session).steps surroundings memory = earlier ++ .called hook verdict :: later →
        (∃ filled sql reply result,
          Handed surroundings query hook filled sql reply result earlier) ∧
          ∀ output, ((query.exec session).run surroundings memory).result = .ok output →
            hook.output = some output) ∧
    ∀ earlier hook verdict later, hook.moment.isAfter → query.execInTransaction.steps surroundings
        memory = earlier ++ .called hook verdict :: later →
      (∃ filled sql reply result,
        Handed surroundings query hook filled sql reply result earlier) ∧
        ∀ output, (query.execInTransaction.run surroundings memory).result = .ok output →
          hook.output = some output := by
  refine ⟨fun session earlier hook verdict later behind called ↦ handed_exec reached called behind,
    fun earlier hook verdict later behind called ↦ ?_⟩
  obtain ⟨started, inner, last, rfl, hinner, -, hends⟩ := exists_steps_transaction called
  obtain ⟨⟨filled, sql, reply, result, hhanded⟩, houtput⟩ := handed_exec reached hinner behind
  exact ⟨⟨filled, sql, reply, result, hhanded.mono fun step ↦ List.mem_cons_of_mem _⟩,
    fun output hok ↦ houtput output (hends output hok)⟩

/-- A query without a row in its place calls its own hooks. -/
theorem calls_exec {session : Session} {ready last : σ} {outcome : Outcome}
    (alone : query.clauses.fallback = none) (own : outcome.created = none)
    (agreed : Script.Agree surroundings query.hooksBefore memory ready)
    (between : (query.runBetween session).Yields surroundings ready outcome ended)
    (after : Script.Agree surroundings (query.hooksAfter outcome.output) ended last) :
    ((query.exec session).run surroundings memory).calls =
      query.hooksBefore ++ query.hooksAfter outcome.output := by
  have hbefore : (Script.callAll query.hooksBefore).Calls surroundings memory query.hooksBefore ()
      ready := (Script.calls_callAll surroundings).2 ⟨agreed, rfl⟩
  have hbetween : (query.runBetween session).Calls surroundings ready [] outcome ended :=
    (Script.calls_of_quiet surroundings (quiet_runBetween session alone)).2 ⟨between, rfl⟩
  have hafter : (Script.callAll (query.hooksAfter outcome.output)).Calls surroundings ended
      (query.hooksAfter outcome.output) () last :=
    (Script.calls_callAll surroundings).2 ⟨after, rfl⟩
  have hexec : (query.exec session).Calls surroundings memory
      (query.hooksBefore ++ ([] ++ (query.hooksAfter outcome.output ++ []))) outcome.output
      last := by
    rw [exec_eq, Script.calls_bind]
    refine ⟨(), ready, _, _, hbefore, ?_, rfl⟩
    rw [Script.calls_bind]
    refine ⟨outcome, ended, _, _, hbetween, ?_, rfl⟩
    rw [own, Option.getD_none, Script.calls_bind]
    have hdone : (Script.done outcome.output).Calls surroundings last [] outcome.output last :=
      (Script.calls_of_quiet surroundings (Script.quiet_done _)).2 ⟨⟨rfl, rfl⟩, rfl⟩
    exact ⟨(), last, _, _, hafter, hdone, rfl⟩
  rw [hexec.2, List.nil_append, List.append_nil]

end Query

namespace Blog

theorem reachable_welcomed : welcomed.Reachable fun _ ↦ False := by
  have hgiven : (Call.insert (text "name" "Ada")).Given (fun _ ↦ False) (fun _ ↦ False)
      (Call.IsStatement fun _ ↦ False) := by
    intro key term hterm
    cases List.mem_singleton.1 hterm
    trivial
  exact .call_alone (.call_alone (.ofTable user (some catalog) none) _ hgiven rfl)
    (.afterInsert "notify") trivial rfl

def essay : Payload :=
  (text "title" "Rivers").put "author" (.create (text "name" "Ada"))

/-- The insertion of the post, with a hook behind it. -/
def submitted : Query := ((posts.insert essay).toOption.getD posts).afterInsert "notify"

def authorship : RowPlan := ⟨[[.cell "name" (.literal (.text "Ada"))]]⟩

/-- The insertion of the author, which hands back the key. -/
def authoring : Query :=
  (((submitted.on user).planned authorship false).selectItems [.ofColumn ⟨none, "id"⟩]).take

theorem insertionBefore_submitted :
    submitted.insertionBefore author (text "name" "Ada") = .ok authoring :=
  Query.insertionBefore_eq_ok.2
    ⟨user, authorship, ⟨none, "id"⟩, rfl, rfl, by decide +kernel, rfl⟩

def newAuthor : RowSet := ⟨1, [⟨["id"], [.int 1]⟩]⟩

def essayed : Row := ⟨["id", "title", "authorId"], [.int 2, .text "Rivers", .int 1]⟩

/-- In a transaction the author is inserted, and then the post with the key of the author. -/
theorem plays_submitted : ∃ first sent, authoring.compile = .ok first ∧
    (submitted.fillCell 0 1 (.int 1)).compile = .ok sent ∧
    (submitted.runBetween ⟨false, true⟩).Plays server [.ok newAuthor, .ok ⟨1, [essayed]⟩]
      [⟨"BEGIN", []⟩, first, sent, ⟨"COMMIT", []⟩] ⟨.one (some essayed), none⟩ [] := by
  obtain ⟨first, hfirst⟩ : ∃ sql, authoring.compile = .ok sql := ⟨_, rfl⟩
  obtain ⟨sent, hsent⟩ : ∃ sql, (submitted.fillCell 0 1 (.int 1)).compile = .ok sql := ⟨_, rfl⟩
  have hrelated : submitted.clauses.related = [.before 0 1 author (text "name" "Ada")] := rfl
  have hauthoring : authoring.runStatements.Plays server [.ok newAuthor, .ok ⟨1, [essayed]⟩]
      ([] ++ first :: []) ⟨authoring.outputOf newAuthor, none⟩ [.ok ⟨1, [essayed]⟩] :=
    Query.plays_runStatements nofun (Query.plays_runBefore_nil authoring _) hfirst
      (send_server hfirst _) rfl rfl (Query.plays_runAfter_nil _ _ _)
  have hsubmitted : submitted.runStatements.Plays server [.ok newAuthor, .ok ⟨1, [essayed]⟩]
      (([] ++ first :: []) ++ [] ++ sent :: [])
      ⟨(submitted.fillCell 0 1 (.int 1)).outputOf ⟨1, [essayed]⟩, none⟩ [] := by
    refine Query.plays_runStatements nofun ?_ hsent (send_server hsent [.ok ⟨1, [essayed]⟩]) rfl rfl
      ?_
    · rw [hrelated]
      refine Query.plays_runBefore_before insertionBefore_submitted hauthoring rfl ?_
      rw [Query.runBefore]
      exact (Script.plays_done server).2 ⟨rfl, rfl, rfl⟩
    · rw [hrelated, Query.runAfter]
      exact Query.plays_runAfter_nil _ _ _
  exact ⟨first, sent, hfirst, hsent, plays_inTransaction rfl hsubmitted⟩

end Blog

namespace Query

/-- The hook behind the insertion of the user is handed this insertion as it was sent. -/
theorem exec_handing_welcomed : ∃ insertion, Blog.welcomed.compile = .ok insertion ∧
    Blog.welcomed.Reachable (fun _ ↦ False) ∧ ∃ filled sql reply result,
      Handed Blog.refusing Blog.welcomed ⟨.afterInsert, "notify", Blog.welcomed,
        some (.one (some ⟨["id", "name"], [.int 1, .text "Ada"]⟩))⟩ filled sql reply result
        [.sent insertion.text insertion.values (.ok Blog.inserted)] := by
  obtain ⟨insertion, hinsertion⟩ : ∃ sql, Blog.welcomed.compile = .ok sql := ⟨_, rfl⟩
  have hbetween : Blog.welcomed.runBetween ⟨false, true⟩ = Blog.welcomed.runStatements := rfl
  obtain ⟨hexec, -⟩ :=
    exec_handing Blog.reachable_welcomed Blog.refusing [.ok Blog.inserted]
  obtain ⟨hhanded, -⟩ := hexec ⟨false, true⟩
    [.sent insertion.text insertion.values (.ok Blog.inserted)]
    ⟨.afterInsert, "notify", Blog.welcomed,
      some (.one (some ⟨["id", "name"], [.int 1, .text "Ada"]⟩))⟩ (.ok ()) [] rfl (by
        rw [exec_eq, hbetween, Blog.runStatements_welcomed, sendStatement_eq, hinsertion]
        rfl)
  exact ⟨insertion, hinsertion, Blog.reachable_welcomed, hhanded⟩

/-- The hook behind the insertion of the post is handed one without the author. -/
theorem exec_submitted : ∃ first sent handed,
    Blog.submitted.compile = .ok handed ∧
    handed.text =
      "INSERT INTO \"post\"(\"title\", \"authorId\") VALUES ($1, DEFAULT) RETURNING *" ∧
    handed.values = [.text "Rivers"] ∧
    ((Blog.submitted.exec ⟨false, true⟩).run Blog.server
      [.ok Blog.newAuthor, .ok ⟨1, [Blog.essayed]⟩]).transmissions =
        [⟨"BEGIN", []⟩, first, sent, ⟨"COMMIT", []⟩] ∧
    sent.text = "INSERT INTO \"post\"(\"title\", \"authorId\") VALUES ($1, $2) RETURNING *" ∧
    sent.values = [.text "Rivers", .int 1] ∧
    ((Blog.submitted.exec ⟨false, true⟩).run Blog.server
      [.ok Blog.newAuthor, .ok ⟨1, [Blog.essayed]⟩]).calls =
        [⟨.afterInsert, "notify", Blog.submitted, some (.one (some Blog.essayed))⟩] := by
  obtain ⟨first, sent, hfirst, hsent, hplays⟩ := Blog.plays_submitted
  obtain ⟨handed, hhanded⟩ : ∃ sql, Blog.submitted.compile = .ok sql := ⟨_, rfl⟩
  refine ⟨first, sent, handed, hhanded, ?_, ?_, transmissions_exec Blog.server rfl hplays, ?_, ?_,
    ?_⟩
  · cases hhanded
    decide +kernel
  · cases hhanded
    rfl
  · cases hsent
    decide +kernel
  · cases hsent
    rfl
  · have hagreed : Script.Agree Blog.server Blog.submitted.hooksBefore
        [.ok Blog.newAuthor, .ok ⟨1, [Blog.essayed]⟩]
        [.ok Blog.newAuthor, .ok ⟨1, [Blog.essayed]⟩] := rfl
    have hafter : Script.Agree Blog.server
        (Blog.submitted.hooksAfter (.one (some Blog.essayed))) [] [] := ⟨[], rfl, rfl⟩
    exact calls_exec rfl rfl hagreed hplays.1 hafter

end Query

end SqlComposer
