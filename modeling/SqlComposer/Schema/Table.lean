import SqlComposer.Code
import SqlComposer.Schema.ColumnType

/-!
# Tables

A table lists its columns, its relations to other tables and the column that every update stamps
with the current time.
-/

namespace SqlComposer

structure Column where
  name : String
  type : ColumnType
  nullable : Bool
  hasDefault : Bool
  primaryKey : Bool
  /-- Hidden columns are left out of the default selection. -/
  hidden : Bool
  deriving DecidableEq, Repr

def Column.plain (name : String) (type : ColumnType) : Column :=
  ⟨name, type, false, false, false, false⟩

/-- Which side of a relation holds the foreign key, and how many rows may be there. -/
inductive RelationKind where
  /-- The declaring table holds the foreign key. -/
  | belongsTo
  /-- The target table holds it, in at most one row. -/
  | hasOne
  /-- The target table holds it. -/
  | hasMany
  deriving DecidableEq, Repr

def RelationKind.name : RelationKind → String
  | belongsTo => "BelongsTo"
  | hasOne => "HasOne"
  | hasMany => "HasMany"

/-- A relation from the declaring table to `table`. The foreign key is a column of the side that
holds it, the primary key a column of the other side. -/
structure Relation where
  name : String
  kind : RelationKind
  table : String
  foreignKey : String
  primaryKey : String
  deriving DecidableEq, Repr

structure Table where
  name : String
  schema : Option String
  columns : List Column
  relations : List Relation
  /-- The column set to the current time by every update. -/
  updatedAt : Option String
  deriving DecidableEq, Repr

namespace Table

def named (name : String) : Table := ⟨name, none, [], [], none⟩

def addColumn (table : Table) (column : Column) : Table :=
  { table with columns := table.columns ++ [column] }

def addRelation (table : Table) (relation : Relation) : Table :=
  { table with relations := table.relations ++ [relation] }

def column? (table : Table) (name : String) : Option Column :=
  table.columns.find? fun column => column.name == name

def hasColumn (table : Table) (name : String) : Bool := (table.column? name).isSome

def relation? (table : Table) (name : String) : Option Relation :=
  table.relations.find? fun relation => relation.name == name

/-- Whether a payload key names a column; a table that declares none takes every key. -/
def takesKey (table : Table) (key : String) : Bool :=
  table.columns.isEmpty || table.hasColumn key

def primaryKeys (table : Table) : List String :=
  (table.columns.filter Column.primaryKey).map Column.name

/-- The columns selected when nothing is selected explicitly, if some column is hidden. -/
def defaultSelection (table : Table) : Option (List String) :=
  if table.columns.any Column.hidden then
    some ((table.columns.filter fun column => !column.hidden).map Column.name)
  else none

def code (table : Table) : Code := Code.table table.schema table.name

/-- Prepares a literal for a column; unknown columns take it unchanged. -/
def encode (table : Table) (column : String) (value : Literal) : Literal :=
  match table.column? column with
  | some column => column.type.encode value
  | none => value

/-- Reads a result value: text for a column of another type is read as that type. -/
def decodeText (table : Table) (column : String) (value : Literal) : Except Error Literal :=
  match table.column? column, value with
  | some declared, .text content =>
    if declared.type.isTextual then .ok value else declared.type.decode column content
  | _, _ => .ok value

end Table
end SqlComposer
