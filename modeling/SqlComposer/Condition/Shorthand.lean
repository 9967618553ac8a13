import SqlComposer.Condition

/-!
# Conditions as JSON objects

A shorthand object maps column names to a value, to null or to an object of comparisons; the names
`AND`, `OR` and `NOT` hold further objects. For aggregates it maps function names to columns and
these to comparisons and options, and the name `count` also to a number of rows.
-/

namespace SqlComposer.Shorthand

variable {Sub : Type}

/-- The failure of a malformed shorthand. -/
def malformed {α : Type} (fault : ShorthandFault) : Except Error α :=
  .error (.malformedShorthand fault)

/-- The right-hand side that a comparison takes from JSON. -/
def operand (comparison : Comparison) (value : Json) : Except Error (Comparand Sub) :=
  match comparison with
  | .in | .notIn =>
    match value with
    | .list items => .ok (.list (items.map fun item => .literal (.ofJson item)))
    | _ => malformed (.notAList comparison.name)
  | .between =>
    match value with
    | .list [lower, upper] => .ok (.range (.literal (.ofJson lower)) (.literal (.ofJson upper)))
    | _ => malformed .notAPair
  | .jsonSupersetOf | .jsonSubsetOf => .ok (.term (.literal (.json value)))
  | _ =>
    match value with
    | .list _ | .object _ => malformed (.notAScalar comparison.name)
    | scalar => .ok (.term (.literal (.ofJson scalar)))

def columnConditions (column : String) (value : Json) : Except Error (List (Condition Sub)) :=
  match value with
  | .object [] => malformed (.noComparisons column)
  | .object members => members.mapM fun (key, value) => do
    let comparison ← Comparison.ofKey key
    Condition.ofColumn column comparison (← operand comparison value)
  | scalar => do return [← Condition.ofTerm column .equals (.literal (.ofJson scalar))]

mutual

def condition : Json → Except Error (Condition Sub)
  | .object members => do return .every (← memberConditions members)
  | _ => malformed (.notAnObject "where")

def memberConditions : List (String × Json) → Except Error (List (Condition Sub))
  | [] => .ok []
  | (name, value) :: rest => do
    let first ←
      if name = "AND" then do pure [.every (← branches value)]
      else if name = "OR" then do pure [.any (← branches value)]
      else if name = "NOT" then do pure [.not (.every (← branches value))]
      else columnConditions name value
    return first ++ (← memberConditions rest)

def branches : Json → Except Error (List (Condition Sub))
  | .list items => conditions items
  | .object members => do return [.every (← memberConditions members)]
  | _ => malformed .notAnObjectOrList

def conditions : List Json → Except Error (List (Condition Sub))
  | [] => .ok []
  | item :: rest => do
    let first ← condition item
    return first :: (← conditions rest)

end

/-! ## Aggregates -/

/-- The names that hold options of an aggregate rather than comparisons. -/
def aggregateOptions : List String := ["distinct", "order", "filter", "filterOr", "withinGroup"]

/-- A switch of an aggregate, off unless given. -/
def switch (name : String) (options : Json) : Except Error Bool :=
  match options.get? name with
  | none => .ok false
  | some (.bool value) => .ok value
  | some _ => malformed (.notABoolean name)

/-- The order of an aggregate: columns with their directions. -/
def aggregateOrder (options : Json) : Except Error (List OrderItem) :=
  match options.get? "order" with
  | none => .ok []
  | some (.object members) => members.mapM fun (column, direction) => do
    match direction with
    | .text direction => OrderItem.ofColumn column (some (← Direction.parse direction))
    | _ => malformed .directionNotText
  | some _ => malformed (.notAnObject "order")

/-- The filter of an aggregate: one object, and a list of alternatives to it. -/
def aggregateFilter (options : Json) : Except Error (Filter Sub) := do
  let first ← match options.get? "filter" with
    | some value => do pure (Filter.unset.and (← condition value))
    | none => pure Filter.unset
  match options.get? "filterOr" with
  | some (.list items) => do return (← conditions items).foldl Filter.or first
  | some _ => malformed .filterOrNotAList
  | none => return first

def aggregateConditions (function column : String) (value : Json) :
    Except Error (List (Condition Sub)) := do
  let call ← (← AggregateCall.start function).on column
  match value with
  | .object members =>
    let options := Json.object members
    let distinct ← switch "distinct" options
    let withinGroup ← switch "withinGroup" options
    let order ← aggregateOrder options
    let filter ← aggregateFilter options
    let call := { call with distinct, withinGroup, order, filter }
    let compared := members.filter fun (name, _) => name ∉ aggregateOptions
    let conditions ← compared.mapM fun (name, value) => do
      let comparison ← Comparison.ofKey name
      call.compare comparison (← operand comparison value)
    if conditions.isEmpty then malformed (.nothingCompared function column)
    else return conditions
  | scalar => return [← call.compare .equals (.term (.literal (.ofJson scalar)))]

def numberText? : Json → Option String
  | .int value => some (toString value)
  | .float value => some (Json.floatText value)
  | _ => none

/-- The comparisons of one function of an aggregate shorthand. A number for `count` is written into
the text. -/
def functionConditions (function : String) (value : Json) :
    Except Error (List (Condition Sub)) :=
  match value with
  | .object columns => do
    return (← columns.mapM fun (column, value) => aggregateConditions function column value).flatten
  | value =>
    match numberText? value with
    | some number =>
      if function = "count" then do
        let call ← AggregateCall.start function
        return [← call.compare .equals (.term (.raw (.verbatim number)))]
      else malformed (.notAColumnMap function)
    | none => malformed (.notAColumnMap function)

def aggregateCondition (value : Json) : Except Error (Condition Sub) :=
  match value with
  | .object functions => do
    return .every
      (← functions.mapM fun (function, value) => functionConditions function value).flatten
  | _ => malformed (.notAnObject "having")

end SqlComposer.Shorthand
