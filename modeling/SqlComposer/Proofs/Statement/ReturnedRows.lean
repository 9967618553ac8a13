import Mathlib.Data.List.Dedup
import SqlComposer.Proofs.Call.GuardedChanges
import SqlComposer.Proofs.Insertion.CopiedQueries
import SqlComposer.Proofs.Statement.RowLimits

/-!
# The rows that a selection returns

A selection is evaluated clause by clause in the order in which SQL does it: rows are read and
joined, filtered, put into groups, listed, combined, ordered and paged. What a database holds and
what conditions, groups and expressions come to in it is left open, so that what holds for every
evaluation holds for every content. It is the clauses that say how many rows there can be. A
selection returns one row at most if it is limited to one, if it is an aggregate that is not
grouped, or if it reads one row at most.
-/

namespace SqlComposer

/-! ## Aggregates and sets -/

/-- What fragments in the place of an expression are read as. -/
structure Fragment.Reading where
  /-- The fragment calls an aggregate. -/
  aggregates : Fragment → Bool
  /-- The fragment calls a function that returns a set of rows. -/
  spreads : Fragment → Bool

/-- Whether a path query is part of an expression; it returns a set. -/
def JsonExpr.spreads : JsonExpr → Bool
  | column _ => false
  | set target _ _ _ | insert target _ _ _ | remove target _ => target.spreads
  | query .. => true

namespace SelectExpr

variable {Sub : Type}

def aggregates (reading : Fragment.Reading) : SelectExpr Sub → Bool
  | count _ => true
  | raw fragment | term (.raw fragment) => reading.aggregates fragment
  | _ => false

def spreads (reading : Fragment.Reading) : SelectExpr Sub → Bool
  | json expression => expression.spreads
  | raw fragment | term (.raw fragment) => reading.spreads fragment
  | _ => false

end SelectExpr

namespace Clauses

variable {Sub : Type}

/-- Whether an expression that is listed or ordered by is an aggregate. -/
def aggregates (reading : Fragment.Reading) (clauses : Clauses Sub) : Bool :=
  clauses.selection.any (fun item ↦ item.expression.aggregates reading) ||
    clauses.order.any fun
      | .raw fragment => reading.aggregates fragment
      | .column .. => false

/-- Whether an expression that is listed, ordered by or grouped by returns a set. -/
def spreads (reading : Fragment.Reading) (clauses : Clauses Sub) : Bool :=
  clauses.selection.any (fun item ↦ item.expression.spreads reading) ||
    (clauses.order.any fun
      | .raw fragment => reading.spreads fragment
      | .column .. => false) ||
    clauses.groups.any fun
      | .raw fragment => reading.spreads fragment
      | .column _ => false

/-- The number of rows that a selection asks for: shapes of one row ask for one. -/
def asked (clauses : Clauses Sub) : Option Int :=
  if clauses.shape.limitsToOne then some 1 else clauses.limit

end Clauses

/-! ## Evaluation -/

/-- What a database holds and what expressions come to in it, for rows of a type. Clauses are given
with the rows of their sub-queries. -/
structure Evaluation (Row : Type) where
  reading : Fragment.Reading
  /-- The row that a selection from nothing starts with. -/
  blank : Row
  /-- The rows of a table or fragment. -/
  stored : Clauses (List Row) → List Row
  joined : Clauses (List Row) → List Row → List Row
  passes : Clauses (List Row) → Row → Bool
  /-- The groups of a `GROUP BY`, in each of which there is a row. -/
  grouped : Clauses (List Row) → List Row → List (List Row)
  length_grouped : ∀ clauses rows, (grouped clauses rows).length ≤ rows.length
  /-- Whether a `HAVING` is written, which makes one group of all rows. -/
  gathers : Clauses (List Row) → Bool
  admits : Clauses (List Row) → List Row → Bool
  /-- The row that the SELECT list makes of a group. -/
  listed : Clauses (List Row) → List Row → Row
  /-- The rows that a SELECT list with sets makes of a group. -/
  spread : Clauses (List Row) → List Row → List Row
  distinct : Clauses (List Row) → List Row → List Row
  distinct_sublist : ∀ clauses rows, (distinct clauses rows).Sublist rows
  combined : Clauses (List Row) → List Row → List Row
  ordered : Clauses (List Row) → List Row → List Row
  ordered_perm : ∀ clauses rows, (ordered clauses rows).Perm rows
  /-- The rows that a change hands back. -/
  changed : Clauses (List Row) → List Row

namespace Clauses

variable {Row : Type} (eval : Evaluation Row) (clauses : Clauses (List Row))

def readRows : List Row :=
  let rows := match clauses.source, clauses.table with
    | .body (.query rows), _ => rows
    | .table, none => [eval.blank]
    | _, _ => eval.stored clauses
  if clauses.joins.isEmpty then rows else eval.joined clauses rows

/-- The groups that a selection lists. Without a `GROUP BY` every row is a group, or all rows are
one, even if there is none. -/
def groupedRows : List (List Row) :=
  let rows := (clauses.readRows eval).filter (eval.passes clauses)
  let groups :=
    if !clauses.groups.isEmpty then eval.grouped clauses rows
    else if clauses.aggregates eval.reading || eval.gathers clauses then [rows]
    else rows.map fun row ↦ [row]
  groups.filter (eval.admits clauses)

/-- The rows that the SELECT list makes of the groups. -/
def listedRows : List Row :=
  let groups := clauses.groupedRows eval
  let rows :=
    if clauses.spreads eval.reading then groups.flatMap (eval.spread clauses)
    else groups.map (eval.listed clauses)
  if clauses.distinct.isSome then eval.distinct clauses rows else rows

/-- The rows that a selection would return if it asked for no number of rows. -/
def remainingRows : List Row :=
  let listed := clauses.listedRows eval
  let combined := if clauses.combinations.isEmpty then listed else eval.combined clauses listed
  (eval.ordered clauses combined).drop (clauses.offset.getD 0).toNat

/-- The rows that a statement hands back. -/
def rows : List Row :=
  match clauses.verb with
  | .select =>
    match clauses.asked with
    | some number => (clauses.remainingRows eval).take number.toNat
    | none => clauses.remainingRows eval
  | _ => eval.changed clauses

end Clauses

namespace Statement

variable {Row : Type} (eval : Evaluation Row)

/-- The rows that a statement hands back. -/
def rows (statement : Statement) : List Row := statement.fold (Clauses.rows eval)

/-- The rows that a selection would return if it asked for no number of rows. -/
def remainingRows (statement : Statement) : List Row :=
  (foldClauses (Clauses.rows eval) statement.clauses).remainingRows eval

end Statement

/-! ## One row at most -/

/-- The clauses of a selection that lists each group in one row and adds none. -/
structure Clauses.Plainly {Sub : Type} (clauses : Clauses Sub) (reading : Fragment.Reading) :
    Prop where
  combinations : clauses.combinations = []
  spreads : clauses.spreads reading = false

/-- A selection whose clauses leave one row at most. -/
inductive Statement.Single (reading : Fragment.Reading) : Statement → Prop
  | limited {clauses : Clauses Statement} {number : Int} (select : clauses.verb = .select)
      (asked : clauses.asked = some number) (small : number ≤ 1) : Single reading ⟨clauses⟩
  | aggregate {clauses : Clauses Statement} (select : clauses.verb = .select)
      (groups : clauses.groups = []) (aggregates : clauses.aggregates reading)
      (plainly : clauses.Plainly reading) : Single reading ⟨clauses⟩
  | nothing {clauses : Clauses Statement} (select : clauses.verb = .select)
      (source : clauses.source = .table) (table : clauses.table = none)
      (joins : clauses.joins = []) (plainly : clauses.Plainly reading) : Single reading ⟨clauses⟩
  | query {clauses : Clauses Statement} {sub : Statement} (select : clauses.verb = .select)
      (source : clauses.source = .body (.query sub)) (single : Single reading sub)
      (joins : clauses.joins = []) (plainly : clauses.Plainly reading) : Single reading ⟨clauses⟩

namespace Clauses

variable {Row : Type} {eval : Evaluation Row}

section

variable (eval) (clauses : Clauses (List Row))

theorem length_groupedRows (small : (clauses.readRows eval).length ≤ 1) :
    (clauses.groupedRows eval).length ≤ 1 := by
  have hpassing : ((clauses.readRows eval).filter (eval.passes clauses)).length ≤ 1 :=
    (List.length_filter_le _ _).trans small
  refine (List.length_filter_le _ _).trans ?_
  split
  · exact (eval.length_grouped _ _).trans hpassing
  · split
    · exact Nat.le_refl 1
    · rwa [List.length_map]

theorem length_groupedRows_of_aggregates (groups : clauses.groups = [])
    (aggregates : clauses.aggregates eval.reading) : (clauses.groupedRows eval).length ≤ 1 := by
  refine (List.length_filter_le _ _).trans ?_
  simp [groups, aggregates]

theorem length_listedRows (plainly : clauses.Plainly eval.reading) :
    (clauses.listedRows eval).length ≤ (clauses.groupedRows eval).length := by
  have hlisted : ((clauses.groupedRows eval).map (eval.listed clauses)).length =
      (clauses.groupedRows eval).length := List.length_map _
  unfold listedRows
  simp only [plainly.spreads, Bool.false_eq_true, ↓reduceIte]
  split
  · exact (eval.distinct_sublist _ _).length_le.trans hlisted.le
  · exact hlisted.le

/-- No more rows are handed back than there are groups. -/
theorem length_rows (plainly : clauses.Plainly eval.reading) (select : clauses.verb = .select) :
    (clauses.rows eval).length ≤ (clauses.groupedRows eval).length := by
  have hremaining : (clauses.remainingRows eval).length ≤ (clauses.groupedRows eval).length := by
    unfold remainingRows
    rw [plainly.combinations]
    calc
      _ ≤ (eval.ordered clauses (clauses.listedRows eval)).length := by
        rw [List.length_drop]
        exact Nat.sub_le _ _
      _ = (clauses.listedRows eval).length := (eval.ordered_perm _ _).length_eq
      _ ≤ (clauses.groupedRows eval).length := length_listedRows eval clauses plainly
  unfold rows
  rw [select]
  dsimp only
  split
  · exact (List.length_take_le' _ _).trans hremaining
  · exact hremaining

/-- A selection returns one row at most exactly if it asks for one at most or one at most is
left. -/
theorem length_rows_le_one_iff (select : clauses.verb = .select) :
    (clauses.rows eval).length ≤ 1 ↔
      (∃ number ≤ 1, clauses.asked = some number) ∨ (clauses.remainingRows eval).length ≤ 1 := by
  unfold rows
  rw [select]
  cases clauses.asked with
  | none => simp
  | some number =>
    have hsmall : (∃ small ≤ 1, some number = some small) ↔ number ≤ 1 := by simp
    rw [hsmall, List.length_take]
    omega

end

section

variable {Result : Type} {step : Clauses Result → Result} {reading : Fragment.Reading}
  {clauses : Clauses Statement}

theorem asked_fold : (Statement.foldClauses step clauses).asked = clauses.asked := by
  rw [asked, asked, Statement.shape_fold, Statement.limit_fold]

theorem expression_foldItem (item : SelectItem Statement) :
    (Statement.foldItem step item).expression = Statement.foldExpr step item.expression := by
  cases item
  rfl

/-- Asking the selected expressions is the same in front of a fold and behind it. -/
theorem any_selection_fold {picks : SelectExpr Result → Bool} {other : SelectExpr Statement → Bool}
    (agree : ∀ expression, picks (Statement.foldExpr step expression) = other expression) :
    (Statement.foldClauses step clauses).selection.any (fun item ↦ picks item.expression) =
      clauses.selection.any fun item ↦ other item.expression := by
  simp only [Statement.selection_fold, List.any_map, Function.comp_def, expression_foldItem, agree]

theorem aggregates_fold :
    (Statement.foldClauses step clauses).aggregates reading = clauses.aggregates reading := by
  unfold aggregates
  rw [any_selection_fold, Statement.order_fold]
  intro expression
  cases expression with
  | term value => cases value <;> rfl
  | _ => rfl

theorem spreads_fold :
    (Statement.foldClauses step clauses).spreads reading = clauses.spreads reading := by
  unfold spreads
  rw [any_selection_fold, Statement.order_fold, Statement.groups_fold]
  intro expression
  cases expression with
  | term value => cases value <;> rfl
  | _ => rfl

/-- Folding the embedded statements keeps a selection plain. -/
theorem Plainly.fold (plainly : clauses.Plainly reading) :
    (Statement.foldClauses step clauses).Plainly reading where
  combinations := by rw [Statement.combinations_fold, plainly.combinations, List.map_nil]
  spreads := by rw [spreads_fold, plainly.spreads]

end
end Clauses

/-- A selection whose clauses leave one row at most returns one row at most from every database. -/
theorem Statement.Single.length_rows {Row : Type} {eval : Evaluation Row} {statement : Statement}
    (single : Single eval.reading statement) : (statement.rows eval).length ≤ 1 := by
  have hselect {clauses : Clauses Statement} (select : clauses.verb = .select) :
      (foldClauses (Clauses.rows eval) clauses).verb = .select := by
    rw [verb_fold, select, foldVerb]
  have hjoins {clauses : Clauses Statement} (joins : clauses.joins = []) :
      (foldClauses (Clauses.rows eval) clauses).joins.isEmpty := by
    rw [joins_fold, joins]
    rfl
  induction single with
  | limited select asked small =>
    rw [rows, fold]
    exact (Clauses.length_rows_le_one_iff eval _ (hselect select)).2
      (.inl ⟨_, small, Clauses.asked_fold.trans asked⟩)
  | aggregate select groups aggregates plainly =>
    rw [rows, fold]
    calc
      _ ≤ _ := Clauses.length_rows eval _ plainly.fold (hselect select)
      _ ≤ 1 := Clauses.length_groupedRows_of_aggregates eval _ ((groups_fold ..).trans groups)
        (Clauses.aggregates_fold.trans aggregates)
  | nothing select source table joins plainly =>
    rw [rows, fold]
    calc
      _ ≤ _ := Clauses.length_rows eval _ plainly.fold (hselect select)
      _ ≤ 1 := by
        apply Clauses.length_groupedRows
        simp only [Clauses.readRows, hjoins joins, ↓reduceIte, source_fold, source, foldSource,
          table_fold, table]
        exact Nat.le_refl 1
  | query select source single joins plainly ih =>
    rw [rows, fold]
    calc
      _ ≤ _ := Clauses.length_rows eval _ plainly.fold (hselect select)
      _ ≤ 1 := by
        apply Clauses.length_groupedRows
        simp only [Clauses.readRows, hjoins joins, ↓reduceIte, source_fold, source, foldSource,
          foldBody]
        exact ih

/-! ## Insertions from a query -/

namespace Query

variable {query source next start : Query} {calls : List Call} {data : Payload} {table : Table}

theorem insertFrom_of_rows (target : query.clauses.table = some table)
    (many : source.clauses.shape.expectsOne = false) :
    query.insertFrom source data = .error .createFromMultipleRows := by
  unfold insertFrom Clauses.requireTable
  rw [target]
  simp only [many]
  rfl

/-- A run without a call that gives a number or aggregates leads to a selection that asks for one
row, if it hands back one at most. -/
theorem asked_of_unlimited (new : start.IsNew)
    (built : calls.foldlM Call.apply start = .ok source) (select : source.clauses.verb = .select)
    (expects : source.clauses.shape.expectsOne)
    (reading : ∀ call ∈ calls, call.aggregates = false ∧ ∀ number, call ≠ .limit number) :
    source.clauses.asked = some 1 := by
  unfold Clauses.asked
  split
  · rfl
  · rename_i hmany
    have hvalue : source.clauses.shape.isValue := by
      cases hshape : source.clauses.shape <;> simp_all [Shape.expectsOne, Shape.limitsToOne,
        Shape.isValue]
    have hsome := isSome_limit new built (fun call hcall ↦ (reading call hcall).1) select hvalue
    obtain ⟨number, hnumber⟩ := Option.isSome_iff_exists.1 hsome
    have hlimit := (new.carried.foldlM built).limit select
    rw [hnumber] at hlimit
    obtain ⟨before, call, after, rfl, hcall, -⟩ := Call.foldl_bounding_eq_some.1 hlimit.symm
    have hunlimited := (reading call (by simp)).2
    rw [hnumber]
    cases call with
    | limit number => exact absurd rfl (hunlimited number)
    | get | getOptional => exact (hcall none).symm
    | _ => cases hcall none

/-- A query whose selection is not of one row is not inserted from. From any other one the
selection with its own limit is inserted, and that is one row at most exactly if the limit is one at
most or one row at most is left for it. Its clauses leave one row at most in every evaluation if the
shape limits them, if no call gave a number or aggregated, and if the selection is an aggregate that
is neither grouped nor combined. -/
theorem length_inserted (new : start.IsNew) (built : calls.foldlM Call.apply start = .ok source)
    (target : query.clauses.table = some table) :
    (source.clauses.shape.expectsOne = false →
      query.insertFrom source data = .error .createFromMultipleRows) ∧
    ∀ next, query.insertFrom source data = .ok next →
      source.clauses.shape.expectsOne ∧ ∃ columns values,
        next.clauses.verb = .insert ⟨columns, .query ⟨source.extended values⟩, none⟩ ∧
        (Statement.foldClauses Clauses.code (source.extended values)).writtenLimit =
          (if source.clauses.shape.limitsToOne then some 1 else calls.foldl Call.bounding none) ∧
        (∀ reading, source.clauses.shape.limitsToOne ∨
            (∀ call ∈ calls, call.aggregates = false ∧ ∀ number, call ≠ .limit number) ∨
            source.clauses.aggregates reading ∧ source.clauses.groups = [] ∧
              (source.extended values).Plainly reading →
          Statement.Single reading ⟨source.extended values⟩) ∧
        ∀ (Row : Type) (eval : Evaluation Row),
          (Statement.Single eval.reading ⟨source.extended values⟩ →
            (Statement.rows eval ⟨source.extended values⟩).length ≤ 1) ∧
          ((Statement.rows eval ⟨source.extended values⟩).length ≤ 1 ↔
            (∃ number ≤ 1, (if source.clauses.shape.limitsToOne then some 1
              else calls.foldl Call.bounding none) = some number) ∨
            (Statement.remainingRows eval ⟨source.extended values⟩).length ≤ 1) := by
  refine ⟨insertFrom_of_rows target, fun next accepted ↦ ?_⟩
  obtain ⟨_, names, values, -, hone, hselect, -, -, -, -, hstored⟩ := exists_of_insertFrom accepted
  have hlimit := (new.carried.foldlM built).limit hselect
  have hasked : (source.extended values).asked = source.clauses.asked := rfl
  refine ⟨hone, _, values, hstored, ?_, fun reading hchain ↦ ?_,
    fun Row eval ↦ ⟨fun single ↦ single.length_rows, ?_⟩⟩
  · rw [Clauses.writtenLimit, Statement.shape_fold, Statement.limit_fold, ← hlimit]
    rfl
  · rcases hchain with hlimits | hreading | ⟨haggregates, hgroups, hplainly⟩
    · refine .limited hselect (hasked.trans ?_) (Int.le_refl 1)
      rw [Clauses.asked, if_pos hlimits]
    · refine .limited hselect (hasked.trans ?_) (Int.le_refl 1)
      exact asked_of_unlimited new built hselect hone hreading
    · refine .aggregate hselect hgroups ?_ hplainly
      simp only [Clauses.aggregates, Bool.or_eq_true] at haggregates ⊢
      refine haggregates.imp_left fun hitem ↦ ?_
      rw [extended, List.any_append, hitem, Bool.true_or]
  · have hfolded : (Statement.foldClauses (Clauses.rows eval) (source.extended values)).verb =
        .select := by
      rw [Statement.verb_fold]
      exact congrArg (Statement.foldVerb (Clauses.rows eval)) hselect
    have hone := Clauses.length_rows_le_one_iff eval _ hfolded
    rwa [Clauses.asked_fold, hasked, Clauses.asked, hlimit] at hone

end Query

namespace Blog

/-- Posts whose authors are the given numbers. -/
def authored (authors : List ℕ) : Evaluation ℕ where
  reading := ⟨fun _ ↦ false, fun _ ↦ false⟩
  blank := 0
  stored _ := authors
  joined _ rows := rows
  passes _ _ := true
  grouped _ rows := rows.dedup.map fun author ↦ rows.filter (· = author)
  length_grouped _ rows := by
    rw [List.length_map]
    exact rows.dedup_sublist.length_le
  gathers _ := false
  admits _ _ := true
  listed _ group := group.length
  spread _ group := group
  distinct _ rows := rows.dedup
  distinct_sublist _ rows := rows.dedup_sublist
  combined _ rows := rows
  ordered _ rows := rows
  ordered_perm _ rows := .refl rows
  changed _ := []

/-- The name of one user is inserted, however many users there are. -/
theorem length_inserted_name : ∃ source next columns values,
    [.get "name"].foldlM Call.apply users = .ok source ∧
    users.insertFrom source .empty = .ok next ∧
    next.clauses.verb = .insert ⟨columns, .query ⟨source.extended values⟩, none⟩ ∧
    ∀ (Row : Type) (eval : Evaluation Row),
      (Statement.rows eval ⟨source.extended values⟩).length ≤ 1 := by
  have hbuilt : [.get "name"].foldlM Call.apply users = .ok users.nameOfFirst := by
    rw [Query.foldlM_apply_cons (Query.apply_get_name rfl)]
    rfl
  obtain ⟨next, haccepted⟩ : ∃ next, users.insertFrom users.nameOfFirst .empty = .ok next :=
    ⟨_, rfl⟩
  have htarget : users.clauses.table = some user := rfl
  obtain ⟨-, columns, values, hstored, -, hsingle, hlength⟩ :=
    (Query.length_inserted (.ofTable user (some catalog) none) hbuilt htarget).2 next haccepted
  refine ⟨_, next, columns, values, hbuilt, haccepted, hstored, fun Row eval ↦ ?_⟩
  refine (hlength Row eval).1 (hsingle eval.reading (.inr (.inl fun call hcall ↦ ?_)))
  rw [List.mem_singleton.1 hcall]
  exact ⟨rfl, nofun⟩

/-- A number that is given for a value lets in as many rows. -/
example : ∃ source next columns values,
    [.get "name", .limit 2].foldlM Call.apply users = .ok source ∧
    users.insertFrom source .empty = .ok next ∧
    next.clauses.verb = .insert ⟨columns, .query ⟨source.extended values⟩, none⟩ ∧
    Statement.rows (authored [1, 2, 3]) ⟨source.extended values⟩ = [1, 1] := by
  have hbuilt : [.get "name", .limit 2].foldlM Call.apply users =
      .ok (users.nameOfFirst.limit 2) := by
    rw [Query.foldlM_apply_cons (Query.apply_get_name rfl)]
    rfl
  exact ⟨_, _, _, [], hbuilt, rfl, rfl, rfl⟩

def tallies : Query := ⟨.ofTable (.named "tally"), some catalog, none⟩

/-- The posts are counted author by author, and every count is inserted. -/
theorem rows_counts : ∃ source next columns values,
    [.count, .group ["authorId"]].foldlM Call.apply posts = .ok source ∧
    tallies.insertFrom source .empty = .ok next ∧
    next.clauses.verb = .insert ⟨columns, .query ⟨source.extended values⟩, none⟩ ∧
    Statement.rows (authored [1, 2]) ⟨source.extended values⟩ = [1, 1] := by
  have hgrouped (query : Query) : (Call.group ["authorId"]).apply query =
      .ok (query.modify fun clauses ↦
        { clauses with groups := clauses.groups ++ [.column ⟨none, "authorId"⟩] }) := by
    have hauthor : ColumnRef.parse "authorId" = .ok ⟨none, "authorId"⟩ := by decide +kernel
    simp only [Call.apply, Query.group, List.mapM_cons, List.mapM_nil, hauthor]
    rfl
  have hbuilt : [.count, .group ["authorId"]].foldlM Call.apply posts =
      .ok (posts.count.modify fun clauses ↦
        { clauses with groups := clauses.groups ++ [.column ⟨none, "authorId"⟩] }) := by
    rw [Query.foldlM_apply_cons rfl, Query.foldlM_apply_cons (hgrouped _)]
    rfl
  exact ⟨_, _, _, [], hbuilt, rfl, rfl, rfl⟩

end Blog
end SqlComposer
