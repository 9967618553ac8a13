import SqlComposer.Condition.Code

/-!
# Sources of rows

Where the rows of a statement come from: its table or what replaces it, joined tables, common tables
declared in front of the statement, and statements combined with it. Sub-queries are values of a
type `Sub`; the functions that write a clause take them as code that is written already.
-/

namespace SqlComposer

/-- What stands in a place where a statement is expected. -/
inductive Body (Sub : Type) where
  | query (query : Sub)
  | raw (fragment : Fragment)

def Body.code : Body Written → Written
  | .query sub => sub
  | .raw fragment => fragment.code

/-- The name an item is given behind its own name, unless both are the same. -/
def Code.renamed (name : String) (label : Option String) : Code :=
  match label with
  | some label => if label = name then [] else Code.aliased label
  | none => []

/-! ## FROM -/

inductive Source (Sub : Type) where
  | table
  /-- A sub-query or fragment that replaces the table. -/
  | body (body : Body Sub)

/-! ## JOIN -/

inductive JoinKind where
  | inner
  | left
  | right
  | full
  | cross
  deriving DecidableEq, Repr

def JoinKind.toSql : JoinKind → String
  | inner => "JOIN"
  | left => "LEFT JOIN"
  | right => "RIGHT JOIN"
  | full => "FULL JOIN"
  | cross => "CROSS JOIN"

inductive JoinTarget (Sub : Type) where
  | table (name : String) (schema label : Option String)
  | query (query : Sub) (label : String)

namespace JoinTarget

def aliasName {Sub : Type} : JoinTarget Sub → String
  | table name _ label => label.getD name
  | query _ label => label

def code : JoinTarget Written → Written
  | table name schema label => .ok (Code.table schema name ++ Code.renamed name label)
  | query sub label => do return Code.parenthesized (← sub) ++ Code.aliased label

end JoinTarget

/-- One JOIN clause; the condition of a cross join without one is empty. -/
structure Join (Sub : Type) where
  kind : JoinKind
  target : JoinTarget Sub
  condition : Condition Sub

namespace Join

/-- Columns without a table in the condition belong to what is joined. -/
def qualifier {Sub : Type} (join : Join Sub) : Qualifier := some (.name join.target.aliasName)

/-- The code of a join; an empty condition is written as `true`. -/
def code (join : Join Written) : Written := do
  let target ← join.target.code
  let condition : Code ←
    if join.kind = .cross then pure []
    else do
      let condition ← join.condition.code? join.qualifier
      pure (.word " ON " :: condition.getD [.word "true"])
  return .word join.kind.toSql :: .word " " :: target ++ condition

end Join

/-! ## WITH -/

/-- A table declared in front of a statement. -/
structure CommonTable (Sub : Type) where
  name : String
  recursive : Bool
  materialized : Option Bool
  columns : List String
  body : Body Sub

namespace CommonTable

def code (declared : CommonTable Written) : Written := do
  let columns : Code :=
    if declared.columns.isEmpty then [] else Code.parenthesized (Code.nameList declared.columns)
  let hint : Code := match declared.materialized with
    | some true => [.word "MATERIALIZED "]
    | some false => [.word "NOT MATERIALIZED "]
    | none => []
  return .name declared.name :: columns ++ .word " AS " :: hint ++
    Code.parenthesized (← declared.body.code)

def declarations (declared : List (CommonTable Written)) : Written := do
  if declared.isEmpty then return []
  let mark : Code :=
    if declared.any CommonTable.recursive then [.word "RECURSIVE "] else []
  let items ← declared.mapM code
  return .word "WITH " :: mark ++ Code.separated ", " items ++ [.word " "]

end CommonTable

/-! ## UNION, INTERSECT, EXCEPT -/

inductive SetOperation where
  | union
  | unionAll
  | intersect
  | intersectAll
  | except
  | exceptAll
  deriving DecidableEq, Repr

def SetOperation.toSql : SetOperation → String
  | union => "UNION"
  | unionAll => "UNION ALL"
  | intersect => "INTERSECT"
  | intersectAll => "INTERSECT ALL"
  | except => "EXCEPT"
  | exceptAll => "EXCEPT ALL"

/-- A statement combined with the one before it, in parentheses if `wrapped`. -/
structure Combination (Sub : Type) where
  operation : SetOperation
  operand : Body Sub
  wrapped : Bool

def Combination.code (combination : Combination Written) : Written := do
  let operand ← combination.operand.code
  return .word combination.operation.toSql :: .word " " ::
    if combination.wrapped then Code.parenthesized operand else operand

end SqlComposer
