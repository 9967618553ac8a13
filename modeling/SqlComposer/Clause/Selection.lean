import SqlComposer.Json.Edit
import SqlComposer.Window

/-!
# Selections

The items a statement selects or hands back: columns, fragments, scalar sub-queries, JSON
expressions, bound values, counts and window functions, each with an optional name.
-/

namespace SqlComposer

inductive SelectExpr (Sub : Type) where
  | column (reference : ColumnRef)
  | raw (fragment : Fragment)
  | query (query : Sub)
  | json (expression : JsonExpr)
  | term (value : Term)
  /-- The number of rows, or of values of a column. -/
  | count (argument : Option ColumnRef)
  | window (call : WindowCall)

structure SelectItem (Sub : Type) where
  expression : SelectExpr Sub
  label : Option String

namespace SelectItem

variable {Sub : Type}

def ofColumn (column : ColumnRef) : SelectItem Sub := ⟨.column column, none⟩

def isCount (item : SelectItem Sub) : Bool :=
  match item.expression with
  | .count _ => true
  | _ => false

/-- The name written behind an item: its alias, or the column of a JSON expression. -/
def writtenName? (item : SelectItem Sub) : Option String :=
  match item.label, item.expression with
  | some label, _ => some label
  | none, .json expression => some expression.root.name
  | none, _ => none

/-- The name of the output column as far as it is known. -/
def outputName? (item : SelectItem Sub) : Option String :=
  match item.label, item.expression with
  | some label, _ => some label
  | none, .column reference => if reference.isStar then none else some reference.name
  | none, .json expression => some expression.root.name
  | none, .count _ => some "count"
  | none, _ => none

def expressionCode (qualifier : Qualifier) : SelectExpr Written → Written
  | .column reference => .ok (reference.code qualifier)
  | .raw fragment => fragment.code
  | .query sub => do return Code.parenthesized (← sub)
  | .json expression => .ok (expression.code qualifier)
  | .term value => value.code qualifier
  | .count argument =>
    let argument : Code := match argument with
      | some column => column.code qualifier
      | none => [.word "*"]
    .ok (.word "count" :: Code.parenthesized argument)
  | .window call => call.code qualifier

def code (qualifier : Qualifier) (item : SelectItem Written) : Written := do
  let name : Code := match item.writtenName? with
    | some name => Code.aliased name
    | none => []
  return (← expressionCode qualifier item.expression) ++ name

def codes (qualifier : Qualifier) (items : List (SelectItem Written)) :
    Except Error (List Code) :=
  items.mapM (code qualifier)

end SelectItem
end SqlComposer
