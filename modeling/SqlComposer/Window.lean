import SqlComposer.Order

/-!
# Windows

A window partitions and orders the rows that a window function looks at. It is declared with a name
or given in place.
-/

namespace SqlComposer

/-- Whether a name can be written as a function name without quotes: ASCII letters, digits and
underscores, not starting with a digit. -/
def isFunctionName (name : String) : Bool :=
  match name.toList with
  | [] => false
  | c :: rest =>
    (c == '_' || c.isAlpha) && rest.all fun c => c == '_' || c.isAlpha || c.isDigit

def checkFunctionName (name : String) : Except Error Unit :=
  if isFunctionName name then .ok () else .error (.invalidFunctionName name)

structure Window where
  partition : List ColumnRef
  order : List OrderItem

namespace Window

/-- The window of all rows in no order. -/
def whole : Window := ⟨[], []⟩

def partitionBy (window : Window) (column : String) : Except Error Window := do
  return { window with partition := window.partition ++ [← ColumnRef.parse column] }

def orderBy (window : Window) (column : String) (direction : Direction) :
    Except Error Window := do
  return { window with order := window.order ++ [← OrderItem.ofColumn column (some direction)] }

def orderByRaw (window : Window) (fragment : Fragment) : Window :=
  { window with order := window.order ++ [.raw fragment] }

def code (qualifier : Qualifier) (window : Window) : Written := do
  let partition : Code :=
    if window.partition.isEmpty then []
    else .word "PARTITION BY " :: ColumnRef.listCode window.partition qualifier
  let gap : Code :=
    if window.partition.isEmpty || window.order.isEmpty then [] else [.word " "]
  let order : Code ←
    if window.order.isEmpty then pure []
    else do pure (.word "ORDER BY " :: (← OrderItem.listCode qualifier window.order))
  return Code.parenthesized (partition ++ gap ++ order)

end Window

inductive Over where
  | named (window : String)
  | window (window : Window)

structure WindowCall where
  function : String
  argument : Option ColumnRef
  window : Over

namespace WindowCall

def code (qualifier : Qualifier) (call : WindowCall) : Written := do
  let argument : Code := match call.argument with
    | some column => column.code qualifier
    | none => []
  let window ← match call.window with
    | .named window => pure [.name window]
    | .window window => window.code qualifier
  return .word call.function :: Code.parenthesized argument ++ .word " OVER " :: window

end WindowCall

/-- Named windows as they are declared, separated by commas. -/
def Window.declarations (qualifier : Qualifier) (windows : List (String × Window)) : Written := do
  let items ← windows.mapM fun (name, window) => do
    return .name name :: .word " AS " :: (← window.code qualifier)
  return Code.separated ", " items

end SqlComposer
