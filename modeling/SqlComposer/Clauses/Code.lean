import SqlComposer.Clauses

/-!
# Writing statements

A statement is written from its clauses, with the code of its sub-queries given. Clauses are written
in the order in which they stand in the text, so the first fault in that order is the one reported.
-/

namespace SqlComposer

namespace Clauses

def targetCode (clauses : Clauses Written) (table : Table) : Code :=
  table.code ++ Code.renamed table.name clauses.label

def filterCode (clauses : Clauses Written) : Written := do
  match ← clauses.filter.code? clauses.qualifier with
  | some condition => return .word " WHERE " :: condition
  | none => return []

/-! ## SELECT -/

def distinctCode (clauses : Clauses Written) : Code :=
  match clauses.distinct with
  | none => []
  | some [] => [.word "DISTINCT "]
  | some columns =>
    .word "DISTINCT ON " ::
      (Code.parenthesized (ColumnRef.listCode columns clauses.qualifier) ++ [.word " "])

/-- The columns selected when no item is: the visible ones if some column of the table is hidden,
all of them otherwise. -/
def defaultProjection (clauses : Clauses Written) : Code :=
  let visible : Option (List String) := match clauses.table, clauses.source with
    | some table, .table => if clauses.selectsAll then none else table.defaultSelection
    | _, _ => none
  match visible, clauses.qualifier with
  | some columns, qualifier =>
    ColumnRef.listCode (columns.map ColumnRef.unqualified) qualifier
  | none, some qualifier => [qualifier, .word ".*"]
  | none, none => [.word "*"]

def projectionCode (clauses : Clauses Written) : Written :=
  if clauses.selection.isEmpty then .ok clauses.defaultProjection
  else do return Code.separated ", " (← SelectItem.codes clauses.qualifier clauses.selection)

def sourceCode (clauses : Clauses Written) : Written :=
  match clauses.source with
  | .table =>
    match clauses.table with
    | some table => .ok (.word " FROM " :: clauses.targetCode table)
    | none => .ok []
  | .body (.query sub) =>
    match clauses.aliasName with
    | some label => do
      return .word " FROM " :: Code.parenthesized (← sub) ++ Code.aliased label
    | none => .error .sourceUnnamed
  | .body (.raw fragment) => do
    let name : Code := match clauses.label with
      | some label => Code.aliased label
      | none => []
    return .word " FROM " :: (← fragment.code) ++ name

/-- Clauses that each start with a blank. -/
def spaced (codes : List Code) : Code := codes.flatMap fun code => .word " " :: code

def groupsCode (clauses : Clauses Written) : Written :=
  if clauses.groups.isEmpty then .ok []
  else do
    return .word " GROUP BY " :: (← GroupItem.listCode clauses.qualifier clauses.groups)

def havingCode (clauses : Clauses Written) : Written := do
  match ← clauses.having.code? clauses.qualifier with
  | some condition => return .word " HAVING " :: condition
  | none => return []

def windowsCode (clauses : Clauses Written) : Written :=
  if clauses.windows.isEmpty then .ok []
  else do
    return .word " WINDOW " :: (← Window.declarations clauses.qualifier clauses.windows)

def orderCode (clauses : Clauses Written) : Written :=
  if clauses.order.isEmpty then .ok []
  else do
    return .word " ORDER BY " :: (← OrderItem.listCode clauses.qualifier clauses.order)

/-- The number of rows asked for: shapes of one row ask for one. -/
def writtenLimit (clauses : Clauses Written) : Option Int :=
  if clauses.shape.limitsToOne then some 1 else clauses.limit

def numberCode (keyword : String) (number : Option Int) : Code :=
  match number with
  | some number => [.word keyword, .bind (.int number)]
  | none => []

def lockCode (clauses : Clauses Written) : Written :=
  match clauses.lock with
  | some lock => do return .word " " :: (← lock.code)
  | none => .ok []

def selectCode (clauses : Clauses Written) : Written := do
  let projection ← clauses.projectionCode
  let source ← clauses.sourceCode
  let joins ← clauses.joins.mapM Join.code
  let filter ← clauses.filterCode
  let groups ← clauses.groupsCode
  let having ← clauses.havingCode
  let windows ← clauses.windowsCode
  let combinations ← clauses.combinations.mapM Combination.code
  let order ← clauses.orderCode
  let lock ← clauses.lockCode
  return .word "SELECT " :: clauses.distinctCode ++ projection ++ source ++ spaced joins ++
    filter ++ groups ++ having ++ windows ++ spaced combinations ++ order ++
    numberCode " LIMIT " clauses.writtenLimit ++ numberCode " OFFSET " clauses.offset ++ lock

/-! ## RETURNING -/

def returnsAll (clauses : Clauses Written) : Bool :=
  clauses.selection.isEmpty && (clauses.selectsAll ||
    match clauses.verb with
    | .insert _ => clauses.shape.returnsRows
    | _ => false)

/-- What a change hands back: the selected items and the columns that related rows refer to. -/
def returningCode (clauses : Clauses Written) : Written :=
  if clauses.returnsAll then .ok [.word " RETURNING *"]
  else do
    let items ← SelectItem.codes clauses.qualifier clauses.selection
    let columns := clauses.readBack.map fun column =>
      (ColumnRef.unqualified column).code clauses.qualifier
    if items.isEmpty && columns.isEmpty then return []
    return [.word " RETURNING ", .itemsThenMissing items columns]

/-! ## Changes -/

def updateCode (clauses : Clauses Written) (table : Table) (assignments : List Assignment) :
    Written := do
  clauses.checkGuarded "update"
  if !clauses.joins.isEmpty then throw .joinsInUpdate
  let values ← Assignment.listCode assignments table.updatedAt
  let filter ← clauses.filterCode
  return .word "UPDATE " :: clauses.targetCode table ++ .word " SET " :: values ++ filter

/-- The code of a deletion. Joined tables are listed, their conditions joined to the filter. -/
def deleteCode (clauses : Clauses Written) (table : Table) : Written := do
  clauses.checkGuarded "delete"
  let targets ← clauses.joins.mapM fun join => join.target.code
  let filter ←
    if clauses.joins.isEmpty then clauses.filter.code? clauses.qualifier
    else clauses.filter.conjunct? clauses.qualifier
  let joined ← clauses.joins.mapM fun join => join.condition.conjunct? join.qualifier
  let conditions := filter.toList ++ joined.filterMap id
  let sources : Code :=
    if targets.isEmpty then [] else .word " USING " :: Code.separated ", " targets
  let condition : Code :=
    if conditions.isEmpty then [] else .word " WHERE " :: Code.separated " AND " conditions
  return .word "DELETE FROM " :: clauses.targetCode table ++ sources ++ condition

/-! ## Descriptions of columns -/

def describeCode (table : Table) (column : Option String) : Code :=
  let schema : Code := match table.schema with
    | some schema => [.word " AND table_schema = ", .bind (.text schema)]
    | none => [.word " AND table_schema = current_schema()"]
  let column : Code := match column with
    | some column => [.word " AND column_name = ", .bind (.text column)]
    | none => []
  [.word "SELECT * FROM information_schema.columns WHERE table_name = ",
    .bind (.text table.name), .word " AND table_catalog = current_database()"] ++ schema ++ column

/-! ## Statements -/

/-- The code of what a statement does, without the tables declared in front of it. -/
def verbCode (clauses : Clauses Written) : Written :=
  match clauses.verb with
  | .select => clauses.selectCode
  | .truncate options => do return options.code (← clauses.requireTable "truncate").code
  | .describe column => do return describeCode (← clauses.requireTable "column info") column
  | .copy options => do return options.code (← clauses.requireTable "copy").code
  | .insert insertion => do
    let target := clauses.targetCode (← clauses.requireTable "insert")
    let change ← insertion.code target clauses.filter clauses.qualifier
    return change ++ (← clauses.returningCode)
  | .update assignments => do
    let change ← clauses.updateCode (← clauses.requireTable "update") assignments
    return change ++ (← clauses.returningCode)
  | .delete => do
    let change ← clauses.deleteCode (← clauses.requireTable "delete")
    return change ++ (← clauses.returningCode)

def code (clauses : Clauses Written) : Written := do
  let declarations ← CommonTable.declarations clauses.commonTables
  return declarations ++ (← clauses.verbCode)

end Clauses
end SqlComposer
