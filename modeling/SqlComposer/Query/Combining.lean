import SqlComposer.Query

/-!
# Several sources together

Methods that join tables and sub-queries, declare tables in front of a query and combine queries
into one result.
-/

namespace SqlComposer.Query

/-! ## Joins -/

/-- The target of a join, in the schema the catalog has for its table. -/
def resolved (query : Query) : JoinTarget Statement → JoinTarget Statement
  | .table name none label =>
    let registered := query.catalog.bind fun catalog => catalog.table? name
    .table name (registered.bind Table.schema) label
  | target => target

def addJoin (query : Query) (join : Join Statement) : Query :=
  query.modify fun clauses => { clauses with joins := clauses.joins ++ [join] }

/-- Joins where two columns agree. The left column belongs to the joined table and the right one to
the table of the query unless they say otherwise. -/
def join (query : Query) (kind : JoinKind) (target : JoinTarget Statement)
    (left right : String) : Except Error Query := do
  let target := query.resolved target
  let left := (← ColumnRef.parse left).orTable target.aliasName
  let right ← ColumnRef.parse right
  let right := match query.clauses.aliasName with
    | some label => right.orTable label
    | none => right
  return query.addJoin ⟨kind, target, .compare left .equals (.term (.column right))⟩

/-- Joins where a condition holds, whose columns belong to the joined table unless they say
otherwise. -/
def joinOn (query : Query) (kind : JoinKind) (target : JoinTarget Statement)
    (condition : Condition Statement) : Query :=
  query.addJoin ⟨kind, query.resolved target, condition⟩

/-- Joins every row to every row. -/
def crossJoin (query : Query) (target : JoinTarget Statement) : Query :=
  query.joinOn .cross target (.every [])

/-! ## Declared tables -/

structure CommonTableOptions where
  recursive : Bool
  materialized : Option Bool
  columns : List String
  deriving DecidableEq, Repr

def declare (query : Query) (name : String) (body : Body Statement)
    (options : CommonTableOptions) : Query :=
  query.modify fun clauses => { clauses with
    commonTables := clauses.commonTables ++
      [⟨name, options.recursive, options.materialized, options.columns, body⟩] }

/-- Declares the rows of a query as a table. -/
def withQuery (query : Query) (name : String) (inner : Query) (options : CommonTableOptions) :
    Query :=
  query.declare name (.query inner.statement) options

def withRaw (query : Query) (name : String) (fragment : Fragment)
    (options : CommonTableOptions) : Query :=
  query.declare name (.raw fragment) options

/-! ## Set operations -/

/-- Combines the result with those of other queries, each in parentheses if `wrapped`. -/
def combine (query : Query) (operation : SetOperation) (others : List Query) (wrapped : Bool) :
    Query :=
  query.modify fun clauses => { clauses with
    combinations := clauses.combinations ++
      others.map fun other => ⟨operation, .query other.statement, wrapped⟩ }

def combineRaw (query : Query) (operation : SetOperation) (fragment : Fragment)
    (wrapped : Bool) : Query :=
  query.modify fun clauses => { clauses with
    combinations := clauses.combinations ++ [⟨operation, .raw fragment, wrapped⟩] }

end SqlComposer.Query
