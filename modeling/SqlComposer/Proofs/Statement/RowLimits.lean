import Mathlib.Data.List.Induction
import SqlComposer.Proofs.Call.CarriedClauses
import SqlComposer.Proofs.Statement.FoldedClauses

/-!
# The number of rows that a selection asks for

A selection is written as the same selection without paging, followed by its limit, its offset and
its lock. The shape decides about the limit only where one row is wanted, which is asked for
whatever number was given. All other selections ask for the number that was set last, be it by a
call that gives a number or by a call that reads a single value: such a call sets it to one in the
selection itself, so it stays when all rows are asked for afterwards, and it goes when a number is
given afterwards.
-/

namespace SqlComposer

namespace Call

/-- A call leaves the number of rows alone, or what it sets does not depend on it. -/
theorem bounding_cases (call : Call) :
    (∀ bound, call.bounding bound = bound) ∨ ∃ set, ∀ bound, call.bounding bound = set := by
  cases call with
  | limit number => exact .inr ⟨some number, fun _ ↦ rfl⟩
  | get | getOptional => exact .inr ⟨some 1, fun _ ↦ rfl⟩
  | sibling | json => exact .inr ⟨none, fun _ ↦ rfl⟩
  | _ => exact .inl fun _ ↦ rfl

/-- The number of rows behind calls is the one that the last of them sets which does not leave it
alone. -/
theorem foldl_bounding_eq_some {calls : List Call} {number : Int} :
    calls.foldl bounding none = some number ↔
      ∃ before call after, calls = before ++ call :: after ∧
        (∀ bound, call.bounding bound = some number) ∧
        ∀ later ∈ after, ∀ bound, later.bounding bound = bound := by
  constructor
  · intro h
    induction calls using List.reverseRecOn with
    | nil => cases h
    | append_singleton calls last ih =>
      rw [List.foldl_append, List.foldl_cons, List.foldl_nil] at h
      rcases last.bounding_cases with hkeeps | ⟨set, hsets⟩
      · rw [hkeeps] at h
        obtain ⟨before, call, after, rfl, hcall, hafter⟩ := ih h
        refine ⟨before, call, after ++ [last], List.append_assoc .., hcall, ?_⟩
        exact List.forall_mem_append.2 ⟨hafter, List.forall_mem_singleton.2 hkeeps⟩
      · rw [hsets] at h
        exact ⟨calls, last, [], rfl, fun bound ↦ (hsets bound).trans h, List.forall_mem_nil _⟩
  · rintro ⟨before, call, after, rfl, hcall, hafter⟩
    rw [List.foldl_append, List.foldl_cons, hcall]
    induction after with
    | nil => rfl
    | cons later rest ih =>
      rw [List.forall_mem_cons] at hafter
      rw [List.foldl_cons, hafter.1]
      exact ih hafter.2

end Call

/-! ## Selections without paging -/

namespace Clauses

/-- The same clauses without a number of rows, an offset and a lock. -/
def unpaged {Sub : Type} (clauses : Clauses Sub) : Clauses Sub :=
  { clauses with shape := .all, limit := none, offset := none, lock := none }

theorem foldClauses_unpaged {Result : Type} (step : Clauses Result → Result)
    (clauses : Clauses Statement) :
    Statement.foldClauses step clauses.unpaged = (Statement.foldClauses step clauses).unpaged := by
  rw [Statement.foldClauses_eq, Statement.foldClauses_eq]
  rfl

/-- What a selection writes behind everything else. -/
def pagingCode (clauses : Clauses Written) : Written := do
  let lock ← clauses.lockCode
  return numberCode " LIMIT " clauses.writtenLimit ++ numberCode " OFFSET " clauses.offset ++ lock

theorem selectCode_paged (clauses : Clauses Written) : clauses.selectCode = do
    let front ← clauses.unpaged.selectCode
    let paging ← clauses.pagingCode
    return front ++ paging := by
  have hfront : clauses.unpaged.selectCode = do
      let projection ← clauses.projectionCode
      let source ← clauses.sourceCode
      let joins ← clauses.joins.mapM Join.code
      let filter ← clauses.filterCode
      let groups ← clauses.groupsCode
      let having ← clauses.havingCode
      let windows ← clauses.windowsCode
      let combinations ← clauses.combinations.mapM Combination.code
      let order ← clauses.orderCode
      return .word "SELECT " :: clauses.distinctCode ++ projection ++ source ++ spaced joins ++
        filter ++ groups ++ having ++ windows ++ spaced combinations ++ order ++ [] ++ [] ++ [] :=
    rfl
  rw [hfront]
  simp only [selectCode, pagingCode, bind_assoc, pure_bind, List.append_nil, List.append_assoc,
    List.cons_append]

theorem code_paged (clauses : Clauses Written) (select : clauses.verb = .select) :
    clauses.code = do
      let front ← clauses.unpaged.code
      let paging ← clauses.pagingCode
      return front ++ paging := by
  have hverb : clauses.verbCode = clauses.selectCode := by simp only [verbCode, select]
  have hunpaged : clauses.unpaged.verbCode = clauses.unpaged.selectCode := by
    simp only [verbCode, unpaged, select]
  have hdeclared : clauses.unpaged.commonTables = clauses.commonTables := rfl
  simp only [code, hverb, hunpaged, hdeclared, selectCode_paged clauses, bind_assoc, pure_bind,
    List.append_assoc]

end Clauses

/-! ## Runs -/

namespace Query

variable {query start : Query} {calls : List Call}

/-- A selection that a run led to is written without paging first. Behind that stands its limit:
one, if one row is wanted, and otherwise the number that the calls of the run leave. A selection of
a single value asks for a number of rows unless it aggregates. -/
theorem compile_paged (new : start.IsNew) (built : calls.foldlM Call.apply start = .ok query)
    (select : query.clauses.verb = .select) :
    ∃ bound,
      (query.compile = do
        let front ← (query.modify Clauses.unpaged).statement.code
        let lock ← (Statement.foldClauses Clauses.code query.clauses).lockCode
        return (front ++ (Clauses.numberCode " LIMIT " bound ++
          Clauses.numberCode " OFFSET " query.clauses.offset ++ lock) : Code).compile) ∧
      (query.clauses.shape.limitsToOne → bound = some 1) ∧
      (query.clauses.shape.limitsToOne = false → bound = calls.foldl Call.bounding none) ∧
      (query.clauses.shape.isValue → (∀ call ∈ calls, call.aggregates = false) →
        bound.isSome) := by
  have hlimit := (new.carried.foldlM built).limit select
  have hcode (clauses : Clauses Statement) :
      Statement.code ⟨clauses⟩ = (Statement.foldClauses Clauses.code clauses).code := by
    rw [Statement.code, Statement.fold]
  refine ⟨(Statement.foldClauses Clauses.code query.clauses).writtenLimit, ?_, ?_, ?_, ?_⟩
  · have hverb : (Statement.foldClauses Clauses.code query.clauses).verb = .select := by
      rw [Statement.verb_fold, select, Statement.foldVerb]
    change Code.compile <$> query.statement.code = _
    simp only [statement, modify, hcode, Clauses.foldClauses_unpaged, Clauses.code_paged _ hverb,
      Clauses.pagingCode, Statement.offset_fold, bind_assoc, pure_bind, map_bind, map_pure]
  · intro h
    rw [Clauses.writtenLimit, Statement.shape_fold, if_pos h]
  · intro h
    rw [Clauses.writtenLimit, Statement.shape_fold, h, Statement.limit_fold, hlimit]
    rfl
  · intro hvalue hreading
    rw [Clauses.writtenLimit, Statement.limit_fold]
    split
    · rfl
    · exact isSome_limit new built hreading select hvalue

def nameOfFirst (query : Query) : Query :=
  query.modify fun clauses ↦ { clauses with
    selection := [.ofColumn ⟨none, "name"⟩], selectsAll := false, shape := .valueOrThrow
    limit := some 1 }

theorem apply_get_name (select : query.clauses.verb = .select) :
    (Call.get "name").apply query = .ok query.nameOfFirst := by
  have hname : ColumnRef.parse "name" = .ok ⟨none, "name"⟩ := by decide +kernel
  rw [Call.apply, Query.get, selectValue, selectSingle, hname]
  simp only [modify, select, nameOfFirst]
  rfl

/-- One name is asked for although five had been asked for before. -/
theorem compile_paged_name :
    ∃ query sql, [.limit 5, .get "name", .offset 2].foldlM Call.apply (.ofTable (.named "user")) =
        .ok query ∧
      query.clauses.verb = .select ∧ query.clauses.shape.isValue ∧ query.compile = .ok sql ∧
      sql.text = "SELECT \"user\".\"name\" FROM \"user\" LIMIT $1 OFFSET $2" ∧
      sql.values = [.int 1, .int 2] := by
  have hbuilt : [.limit 5, .get "name", .offset 2].foldlM Call.apply (.ofTable (.named "user")) =
      .ok ((nameOfFirst ((Query.ofTable (.named "user")).limit 5)).offset 2) := by
    rw [foldlM_apply_cons rfl, foldlM_apply_cons (apply_get_name rfl)]
    rfl
  obtain ⟨bound, hcompile, -, hbound, -⟩ := compile_paged (.ofTable _ none none) hbuilt rfl
  cases hbound rfl
  refine ⟨_, _, hbuilt, rfl, rfl, hcompile, ?_, ?_⟩
  · decide +kernel
  · rfl

/-- All names are asked for, but the text asks for one. -/
theorem compile_all_names :
    ∃ query sql, [.get "name", .all].foldlM Call.apply (.ofTable (.named "user")) = .ok query ∧
      query.clauses.verb = .select ∧ query.clauses.shape = .all ∧ query.compile = .ok sql ∧
      sql.text = "SELECT \"user\".\"name\" FROM \"user\" LIMIT $1" ∧ sql.values = [.int 1] := by
  have hbuilt : [.get "name", .all].foldlM Call.apply (.ofTable (.named "user")) =
      .ok (nameOfFirst (.ofTable (.named "user"))).all := by
    rw [foldlM_apply_cons (apply_get_name rfl)]
    rfl
  refine ⟨_, _, hbuilt, rfl, rfl, rfl, ?_, ?_⟩
  · decide +kernel
  · rfl

end Query
end SqlComposer
