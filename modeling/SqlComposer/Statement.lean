import SqlComposer.Clauses.Code

/-!
# Statements

A statement is a set of clauses whose sub-queries are statements again. What is computed from a
statement is given as a step from the clauses, with the results for the sub-queries in their places,
to the result; `Statement.fold` applies the step from the innermost statements outwards. The code of
a statement is the fold of `Clauses.code`.
-/

namespace SqlComposer

structure Statement where
  clauses : Clauses Statement

namespace Statement

variable {Result : Type}

/-! ## Folding

The functions of this block replace every sub-query of a clause by the result of folding it. -/

mutual

/-- The result of a statement: the step applied to its clauses, in which every sub-query is replaced
by its own result. -/
def fold (step : Clauses Result → Result) : Statement → Result
  | ⟨clauses⟩ => step (foldClauses step clauses)

def foldClauses (step : Clauses Result → Result) : Clauses Statement → Clauses Result
  | ⟨table, label, source, verb, shape, selection, selectsAll, distinct, joins, filter, everyRow,
      groups, having, windows, commonTables, combinations, order, limit, offset, lock, defaults,
      hooks, readBack, related, inTransaction, fallback⟩ =>
    ⟨table, label, foldSource step source, foldVerb step verb, shape, foldItems step selection,
      selectsAll, distinct, foldJoins step joins, foldFilter step filter, everyRow, groups,
      foldFilter step having, windows, foldCommonTables step commonTables,
      foldCombinations step combinations, order, limit, offset, lock, defaults, hooks, readBack,
      related, inTransaction, foldOption step fallback⟩

def foldOption (step : Clauses Result → Result) : Option Statement → Option Result
  | none => none
  | some statement => some (fold step statement)

def foldBody (step : Clauses Result → Result) : Body Statement → Body Result
  | .query sub => .query (fold step sub)
  | .raw fragment => .raw fragment

def foldSource (step : Clauses Result → Result) : Source Statement → Source Result
  | .table => .table
  | .body body => .body (foldBody step body)

def foldVerb (step : Clauses Result → Result) : Verb Statement → Verb Result
  | .select => .select
  | .insert insertion => .insert (foldInsertion step insertion)
  | .update assignments => .update assignments
  | .delete => .delete
  | .truncate options => .truncate options
  | .copy options => .copy options
  | .describe column => .describe column

def foldInsertion (step : Clauses Result → Result) : Insertion Statement → Insertion Result
  | ⟨columns, source, conflict⟩ => ⟨columns, foldInsertSource step source, conflict⟩

def foldInsertSource (step : Clauses Result → Result) :
    InsertSource Statement → InsertSource Result
  | .rows rows => .rows rows
  | .raw fragment => .raw fragment
  | .query sub => .query (fold step sub)

def foldExpr (step : Clauses Result → Result) : SelectExpr Statement → SelectExpr Result
  | .column reference => .column reference
  | .raw fragment => .raw fragment
  | .query sub => .query (fold step sub)
  | .json expression => .json expression
  | .term value => .term value
  | .count argument => .count argument
  | .window call => .window call

def foldItem (step : Clauses Result → Result) : SelectItem Statement → SelectItem Result
  | ⟨expression, label⟩ => ⟨foldExpr step expression, label⟩

def foldItems (step : Clauses Result → Result) :
    List (SelectItem Statement) → List (SelectItem Result)
  | [] => []
  | item :: rest => foldItem step item :: foldItems step rest

def foldTarget (step : Clauses Result → Result) : JoinTarget Statement → JoinTarget Result
  | .table name schema label => .table name schema label
  | .query sub label => .query (fold step sub) label

def foldJoin (step : Clauses Result → Result) : Join Statement → Join Result
  | ⟨kind, target, condition⟩ => ⟨kind, foldTarget step target, foldCondition step condition⟩

def foldJoins (step : Clauses Result → Result) : List (Join Statement) → List (Join Result)
  | [] => []
  | join :: rest => foldJoin step join :: foldJoins step rest

def foldComparand (step : Clauses Result → Result) : Comparand Statement → Comparand Result
  | .term value => .term value
  | .list terms => .list terms
  | .range lower upper => .range lower upper
  | .query sub => .query (fold step sub)

def foldCondition (step : Clauses Result → Result) : Condition Statement → Condition Result
  | .compare column comparison operand => .compare column comparison (foldComparand step operand)
  | .every conditions => .every (foldConditions step conditions)
  | .any conditions => .any (foldConditions step conditions)
  | .not condition => .not (foldCondition step condition)
  | .hasRow sub => .hasRow (fold step sub)
  | .raw fragment => .raw fragment
  | .aggregate call comparison operand =>
    .aggregate (foldCall step call) comparison (foldComparand step operand)

def foldConditions (step : Clauses Result → Result) :
    List (Condition Statement) → List (Condition Result)
  | [] => []
  | condition :: rest => foldCondition step condition :: foldConditions step rest

def foldGroups (step : Clauses Result → Result) :
    List (List (Condition Statement)) → List (List (Condition Result))
  | [] => []
  | group :: rest => foldConditions step group :: foldGroups step rest

def foldFilter (step : Clauses Result → Result) : Filter Statement → Filter Result
  | ⟨groups⟩ => ⟨foldGroups step groups⟩

def foldCall (step : Clauses Result → Result) : AggregateCall Statement → AggregateCall Result
  | ⟨function, argument, distinct, order, withinGroup, filter⟩ =>
    ⟨function, argument, distinct, order, withinGroup, foldFilter step filter⟩

def foldCommonTable (step : Clauses Result → Result) :
    CommonTable Statement → CommonTable Result
  | ⟨name, recursive, materialized, columns, body⟩ =>
    ⟨name, recursive, materialized, columns, foldBody step body⟩

def foldCommonTables (step : Clauses Result → Result) :
    List (CommonTable Statement) → List (CommonTable Result)
  | [] => []
  | declared :: rest => foldCommonTable step declared :: foldCommonTables step rest

def foldCombination (step : Clauses Result → Result) :
    Combination Statement → Combination Result
  | ⟨operation, operand, wrapped⟩ => ⟨operation, foldBody step operand, wrapped⟩

def foldCombinations (step : Clauses Result → Result) :
    List (Combination Statement) → List (Combination Result)
  | [] => []
  | combination :: rest => foldCombination step combination :: foldCombinations step rest

end

/-- Folding clauses changes those that hold sub-queries and keeps all others. -/
theorem foldClauses_eq (step : Clauses Result → Result) (clauses : Clauses Statement) :
    foldClauses step clauses =
      ⟨clauses.table, clauses.label, foldSource step clauses.source, foldVerb step clauses.verb,
        clauses.shape, foldItems step clauses.selection, clauses.selectsAll, clauses.distinct,
        foldJoins step clauses.joins, foldFilter step clauses.filter, clauses.everyRow,
        clauses.groups, foldFilter step clauses.having, clauses.windows,
        foldCommonTables step clauses.commonTables, foldCombinations step clauses.combinations,
        clauses.order, clauses.limit, clauses.offset, clauses.lock, clauses.defaults,
        clauses.hooks, clauses.readBack, clauses.related, clauses.inTransaction,
        foldOption step clauses.fallback⟩ := by
  cases clauses; rfl

/-! ## Code -/

def code (statement : Statement) : Written := statement.fold Clauses.code

def compile (statement : Statement) : Except Error CompiledSql :=
  statement.code.map Code.compile

end Statement
end SqlComposer
