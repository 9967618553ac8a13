import SqlComposer.Clause.Change
import SqlComposer.Clause.Lock
import SqlComposer.Clause.Selection
import SqlComposer.Clause.Shape
import SqlComposer.Clause.Transfer
import SqlComposer.Order

/-!
# Clauses

The clauses of one statement, together with what has to happen around it when it runs. Sub-queries
occur in the clauses as values of a type `Sub`: statements while a query is being put together, and
their code while it is being written.
-/

namespace SqlComposer

/-- What a statement does. -/
inductive Verb (Sub : Type) where
  | select
  | insert (insertion : Insertion Sub)
  | update (assignments : List Assignment)
  | delete
  | truncate (options : TruncateOptions)
  | copy (options : CopyOptions)
  | describe (column : Option String)

namespace Verb

variable {Sub : Type}

def name : Verb Sub → String
  | select => "select"
  | insert _ => "insert"
  | update _ => "update"
  | delete => "delete"
  | truncate _ => "truncate"
  | copy _ => "copy"
  | describe _ => "column info"

/-- Whether the statement changes single rows. -/
def isMutation : Verb Sub → Bool
  | insert _ | update _ | delete => true
  | _ => false

end Verb

/-- The names under which callers registered what is called around inserts and updates. -/
structure Hooks where
  beforeInsert : List String
  afterInsert : List String
  beforeUpdate : List String
  afterUpdate : List String
  deriving DecidableEq, Repr

def Hooks.none : Hooks := ⟨[], [], [], []⟩

/-- The clauses of one statement. -/
structure Clauses (Sub : Type) where
  table : Option Table
  label : Option String
  source : Source Sub
  verb : Verb Sub
  shape : Shape
  selection : List (SelectItem Sub)
  /-- Whether all columns are asked for, hidden ones included. -/
  selectsAll : Bool
  /-- The columns on which selected rows differ; none of them means all. -/
  distinct : Option (List ColumnRef)
  joins : List (Join Sub)
  filter : Filter Sub
  /-- Whether a missing filter is intended. -/
  everyRow : Bool
  groups : List GroupItem
  having : Filter Sub
  windows : List (String × Window)
  commonTables : List (CommonTable Sub)
  combinations : List (Combination Sub)
  order : List OrderItem
  limit : Option Int
  offset : Option Int
  lock : Option RowLock
  /-- Values for keys that an insertion does not set. -/
  defaults : Payload
  hooks : Hooks
  /-- Columns that are handed back because related rows refer to them. -/
  readBack : List String
  related : List RelatedInsert
  /-- Whether the statement has to run in a transaction of its own. -/
  inTransaction : Bool
  /-- The insertion that runs when the statement matches no row. -/
  fallback : Option Sub

namespace Clauses

variable {Sub : Type}

def empty : Clauses Sub where
  table := none
  label := none
  source := .table
  verb := .select
  shape := .all
  selection := []
  selectsAll := false
  distinct := none
  joins := []
  filter := .unset
  everyRow := false
  groups := []
  having := .unset
  windows := []
  commonTables := []
  combinations := []
  order := []
  limit := none
  offset := none
  lock := none
  defaults := .empty
  hooks := .none
  readBack := []
  related := []
  inTransaction := false
  fallback := none

def ofTable (table : Table) : Clauses Sub := { empty with table := some table }

/-- The name that columns are qualified with. -/
def aliasName (clauses : Clauses Sub) : Option String :=
  clauses.label.or (clauses.table.map Table.name)

/-- The qualifier of columns without a table. -/
def qualifier (clauses : Clauses Sub) : Qualifier := clauses.aliasName.map Piece.name

/-- Whether a condition was given or none was asked for. -/
def isGuarded (clauses : Clauses Sub) : Bool := clauses.everyRow || clauses.filter.isSet

def counts (clauses : Clauses Sub) : Bool := clauses.selection.any SelectItem.isCount

/-- Whether the statement hands rows back to the caller. -/
def returnsRecords (clauses : Clauses Sub) : Bool :=
  let selects := !clauses.selection.isEmpty || clauses.selectsAll
  match clauses.verb with
  | .select | .describe _ => true
  | .insert _ => selects || clauses.shape.returnsRows
  | .update _ | .delete => selects
  | .truncate _ | .copy _ => false

/-- The table, which the purpose needs. -/
def requireTable (clauses : Clauses Sub) (purpose : String) : Except Error Table :=
  match clauses.table with
  | some table => .ok table
  | none => .error (.tableMissing purpose)

/-- Refuses to touch every row unless that was asked for. -/
def checkGuarded (clauses : Clauses Sub) (action : String) : Except Error Unit :=
  if clauses.isGuarded then .ok () else .error (.unguarded action)

end Clauses
end SqlComposer
