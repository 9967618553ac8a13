import SqlComposer.Statement

/-!
# Clauses of a folded statement

Folding replaces sub-queries and nothing else: it goes through lists item by item and leaves alone
what holds no sub-query.
-/

namespace SqlComposer.Statement

variable {Result : Type} (step : Clauses Result → Result) (clauses : Clauses Statement)

@[simp]
theorem foldItems_eq (items : List (SelectItem Statement)) :
    foldItems step items = items.map (foldItem step) := by
  induction items with
  | nil => rfl
  | cons item rest ih => rw [foldItems, List.map_cons, ih]

@[simp]
theorem foldJoins_eq (joins : List (Join Statement)) :
    foldJoins step joins = joins.map (foldJoin step) := by
  induction joins with
  | nil => rfl
  | cons join rest ih => rw [foldJoins, List.map_cons, ih]

@[simp]
theorem kind_foldJoin (join : Join Statement) : (foldJoin step join).kind = join.kind := by
  cases join; rfl

@[simp]
theorem target_foldJoin (join : Join Statement) :
    (foldJoin step join).target = foldTarget step join.target := by
  cases join; rfl

@[simp]
theorem condition_foldJoin (join : Join Statement) :
    (foldJoin step join).condition = foldCondition step join.condition := by
  cases join; rfl

@[simp]
theorem aliasName_foldTarget (target : JoinTarget Statement) :
    (foldTarget step target).aliasName = target.aliasName := by
  cases target <;> rfl

@[simp]
theorem foldConditions_eq (conditions : List (Condition Statement)) :
    foldConditions step conditions = conditions.map (foldCondition step) := by
  induction conditions with
  | nil => rfl
  | cons condition rest ih => rw [foldConditions, List.map_cons, ih]

@[simp]
theorem foldGroups_eq (groups : List (List (Condition Statement))) :
    foldGroups step groups = groups.map (List.map (foldCondition step)) := by
  induction groups with
  | nil => rfl
  | cons group rest ih => rw [foldGroups, List.map_cons, ih, foldConditions_eq]

@[simp]
theorem foldCommonTables_eq (declared : List (CommonTable Statement)) :
    foldCommonTables step declared = declared.map (foldCommonTable step) := by
  induction declared with
  | nil => rfl
  | cons table rest ih => rw [foldCommonTables, List.map_cons, ih]

@[simp]
theorem foldCombinations_eq (combinations : List (Combination Statement)) :
    foldCombinations step combinations = combinations.map (foldCombination step) := by
  induction combinations with
  | nil => rfl
  | cons combination rest ih => rw [foldCombinations, List.map_cons, ih]

/-! ## Clauses -/

@[simp]
theorem table_fold : (foldClauses step clauses).table = clauses.table := by
  rw [foldClauses_eq]

@[simp]
theorem label_fold : (foldClauses step clauses).label = clauses.label := by
  rw [foldClauses_eq]

@[simp]
theorem aliasName_fold : (foldClauses step clauses).aliasName = clauses.aliasName := by
  rw [Clauses.aliasName, table_fold, label_fold, Clauses.aliasName]

@[simp]
theorem qualifier_fold :
    (foldClauses step clauses).qualifier = clauses.aliasName.map Piece.name := by
  rw [Clauses.qualifier, aliasName_fold]

@[simp]
theorem source_fold : (foldClauses step clauses).source = foldSource step clauses.source := by
  rw [foldClauses_eq]

@[simp]
theorem verb_fold : (foldClauses step clauses).verb = foldVerb step clauses.verb := by
  rw [foldClauses_eq]

@[simp]
theorem shape_fold : (foldClauses step clauses).shape = clauses.shape := by
  rw [foldClauses_eq]

@[simp]
theorem selection_fold :
    (foldClauses step clauses).selection = clauses.selection.map (foldItem step) := by
  rw [foldClauses_eq, foldItems_eq]

@[simp]
theorem selectsAll_fold : (foldClauses step clauses).selectsAll = clauses.selectsAll := by
  rw [foldClauses_eq]

@[simp]
theorem distinct_fold : (foldClauses step clauses).distinct = clauses.distinct := by
  rw [foldClauses_eq]

@[simp]
theorem joins_fold : (foldClauses step clauses).joins = clauses.joins.map (foldJoin step) := by
  rw [foldClauses_eq, foldJoins_eq]

@[simp]
theorem filter_fold : (foldClauses step clauses).filter = foldFilter step clauses.filter := by
  rw [foldClauses_eq]

@[simp]
theorem groups_fold : (foldClauses step clauses).groups = clauses.groups := by
  rw [foldClauses_eq]

@[simp]
theorem having_fold : (foldClauses step clauses).having = foldFilter step clauses.having := by
  rw [foldClauses_eq]

@[simp]
theorem windows_fold : (foldClauses step clauses).windows = clauses.windows := by
  rw [foldClauses_eq]

@[simp]
theorem commonTables_fold :
    (foldClauses step clauses).commonTables = clauses.commonTables.map (foldCommonTable step) := by
  rw [foldClauses_eq, foldCommonTables_eq]

@[simp]
theorem combinations_fold :
    (foldClauses step clauses).combinations = clauses.combinations.map (foldCombination step) := by
  rw [foldClauses_eq, foldCombinations_eq]

@[simp]
theorem order_fold : (foldClauses step clauses).order = clauses.order := by
  rw [foldClauses_eq]

@[simp]
theorem limit_fold : (foldClauses step clauses).limit = clauses.limit := by
  rw [foldClauses_eq]

@[simp]
theorem offset_fold : (foldClauses step clauses).offset = clauses.offset := by
  rw [foldClauses_eq]

@[simp]
theorem lock_fold : (foldClauses step clauses).lock = clauses.lock := by
  rw [foldClauses_eq]

@[simp]
theorem readBack_fold : (foldClauses step clauses).readBack = clauses.readBack := by
  rw [foldClauses_eq]

end SqlComposer.Statement
