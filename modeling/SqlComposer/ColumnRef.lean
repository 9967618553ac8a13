import SqlComposer.Code

/-!
# Column references

A column is referred to by its name, or by a table name or alias and its name. The name `*` stands
for all columns. A reference without a table is written behind the qualifier of the place where it
stands, if that place has one.
-/

namespace SqlComposer

/-- What a reference without a table is qualified with. -/
abbrev Qualifier := Option Piece

structure ColumnRef where
  table : Option String
  name : String
  deriving DecidableEq, Repr

namespace ColumnRef

def unqualified (name : String) : ColumnRef := ⟨none, name⟩

def isStar (column : ColumnRef) : Bool := column.name == "*"

/-- The reference with a table, which counts only if there is none yet. -/
def orTable (column : ColumnRef) (table : String) : ColumnRef :=
  { column with table := some (column.table.getD table) }

def partName : IdentPart → String
  | .name text => text
  | .star => "*"

/-- Reads `column`, `table.column`, `*` or `table.*`. -/
def parse (text : String) : Except Error ColumnRef := do
  match (← Ident.parse text).parts with
  | [column] => .ok ⟨none, partName column⟩
  | [table, column] => .ok ⟨some (partName table), partName column⟩
  | _ => .error (.notAColumn text)

def code (column : ColumnRef) (qualifier : Qualifier) : Code :=
  let owner : Code := match column.table, qualifier with
    | some table, _ => [.name table, .word "."]
    | none, some qualifier => [qualifier, .word "."]
    | none, none => []
  owner ++ [if column.isStar then .word "*" else .name column.name]

def listCode (columns : List ColumnRef) (qualifier : Qualifier) : Code :=
  Code.separated ", " (columns.map fun column => column.code qualifier)

end ColumnRef
end SqlComposer
