import SqlComposer.Window

/-!
# Conditions

A condition is a tree of comparisons, existence tests, raw fragments and aggregate comparisons under
AND, OR and NOT. Sub-queries occur in it as values of a type `Sub`: statements while a query is
being put together, and their code while it is being written. A filter collects conditions in
groups; inside a group they are joined by AND, the groups by OR.
-/

namespace SqlComposer

/-- How two sides are compared. -/
inductive Comparison where
  | equals
  | not
  | in
  | notIn
  | lt
  | lte
  | gt
  | gte
  | contains
  | containsInsensitive
  | startsWith
  | startsWithInsensitive
  | endsWith
  | endsWithInsensitive
  | between
  | jsonSupersetOf
  | jsonSubsetOf
  deriving DecidableEq, Repr

namespace Comparison

def name : Comparison → String
  | equals => "Equals"
  | not => "Not"
  | .in => "In"
  | notIn => "NotIn"
  | lt => "Lt"
  | lte => "Lte"
  | gt => "Gt"
  | gte => "Gte"
  | contains => "Contains"
  | containsInsensitive => "ContainsInsensitive"
  | startsWith => "StartsWith"
  | startsWithInsensitive => "StartsWithInsensitive"
  | endsWith => "EndsWith"
  | endsWithInsensitive => "EndsWithInsensitive"
  | between => "Between"
  | jsonSupersetOf => "JsonSupersetOf"
  | jsonSubsetOf => "JsonSubsetOf"

/-- The key of a comparison in a shorthand object. -/
def key : Comparison → String
  | equals => "equals"
  | not => "not"
  | .in => "in"
  | notIn => "notIn"
  | lt => "lt"
  | lte => "lte"
  | gt => "gt"
  | gte => "gte"
  | contains => "contains"
  | containsInsensitive => "containsInsensitive"
  | startsWith => "startsWith"
  | startsWithInsensitive => "startsWithInsensitive"
  | endsWith => "endsWith"
  | endsWithInsensitive => "endsWithInsensitive"
  | between => "between"
  | jsonSupersetOf => "jsonSupersetOf"
  | jsonSubsetOf => "jsonSubsetOf"

def all : List Comparison :=
  [equals, not, .in, notIn, lt, lte, gt, gte, contains, containsInsensitive, startsWith,
    startsWithInsensitive, endsWith, endsWithInsensitive, between, jsonSupersetOf, jsonSubsetOf]

def ofKey (key : String) : Except Error Comparison :=
  match all.find? fun comparison => comparison.key == key with
  | some comparison => .ok comparison
  | none => .error (.unknownComparison key)

def operator : Comparison → String
  | equals => "="
  | not => "<>"
  | .in => "IN"
  | notIn => "NOT IN"
  | lt => "<"
  | lte => "<="
  | gt => ">"
  | gte => ">="
  | between => "BETWEEN"
  | contains | startsWith | endsWith => "LIKE"
  | containsInsensitive | startsWithInsensitive | endsWithInsensitive => "ILIKE"
  | jsonSupersetOf => "@>"
  | jsonSubsetOf => "<@"

/-- Whether a comparison matches a text against a pattern. -/
def isPattern : Comparison → Bool
  | contains | containsInsensitive | startsWith | startsWithInsensitive | endsWith
  | endsWithInsensitive => true
  | _ => false

def anyBefore : Comparison → Bool
  | contains | containsInsensitive | endsWith | endsWithInsensitive => true
  | _ => false

def anyAfter : Comparison → Bool
  | contains | containsInsensitive | startsWith | startsWithInsensitive => true
  | _ => false

/-- Whether a comparison orders or equates two values, so that a sub-query may be one of them. -/
def takesScalarQuery : Comparison → Bool
  | equals | not | lt | lte | gt | gte => true
  | _ => false

end Comparison

inductive Comparand (Sub : Type) where
  | term (term : Term)
  | list (terms : List Term)
  | range (lower upper : Term)
  | query (query : Sub)

namespace Comparand

variable {Sub Other : Type}

def isNull : Comparand Sub → Bool
  | .term value => value.isNull
  | _ => false

def map (f : Sub → Other) : Comparand Sub → Comparand Other
  | .term value => .term value
  | .list terms => .list terms
  | .range lower upper => .range lower upper
  | .query sub => .query (f sub)

end Comparand

/-- Whether a right-hand side has the form that a comparison takes. -/
def Comparison.accepts {Sub : Type} (comparison : Comparison) : Comparand Sub → Bool
  | .list _ => comparison = .in || comparison = .notIn
  | .range _ _ => comparison = .between
  | .query _ => comparison = .in || comparison = .notIn || comparison.takesScalarQuery
  | .term _ => !(comparison = .in || comparison = .notIn || comparison = .between)

mutual

inductive Condition (Sub : Type) where
  | compare (column : ColumnRef) (comparison : Comparison) (operand : Comparand Sub)
  | every (conditions : List (Condition Sub))
  | any (conditions : List (Condition Sub))
  | not (condition : Condition Sub)
  /-- The query has a row. -/
  | hasRow (query : Sub)
  | raw (fragment : Fragment)
  | aggregate (call : AggregateCall Sub) (comparison : Comparison) (operand : Comparand Sub)

/-- An aggregate function applied to a column, or to all columns. -/
structure AggregateCall (Sub : Type) where
  function : String
  argument : Option ColumnRef
  distinct : Bool
  order : List OrderItem
  /-- Whether the order is given behind the call instead of inside it. -/
  withinGroup : Bool
  filter : Filter Sub

/-- Groups of conditions: all conditions of some group. -/
structure Filter (Sub : Type) where
  groups : List (List (Condition Sub))

end

namespace Condition

variable {Sub : Type}

/-- A comparison whose right-hand side has the form that the comparison takes. -/
def ofColumn (column : String) (comparison : Comparison) (operand : Comparand Sub) :
    Except Error (Condition Sub) :=
  if comparison.accepts operand then
    (ColumnRef.parse column).map fun reference => .compare reference comparison operand
  else .error (.operandMismatchFor comparison.name column)

def ofTerm (column : String) (comparison : Comparison) (term : Term) :
    Except Error (Condition Sub) :=
  ofColumn column comparison (.term term)

def isNull (column : String) : Except Error (Condition Sub) :=
  ofTerm column .equals (.literal .null)

def isNotNull (column : String) : Except Error (Condition Sub) :=
  ofTerm column .not (.literal .null)

mutual

/-- Whether a condition has no comparison in it. -/
def isEmpty : Condition Sub → Bool
  | .every conditions | .any conditions => allEmpty conditions
  | .not condition => condition.isEmpty
  | _ => false

def allEmpty : List (Condition Sub) → Bool
  | [] => true
  | condition :: rest => condition.isEmpty && allEmpty rest

end

end Condition

namespace Filter

variable {Sub : Type}

def unset : Filter Sub := ⟨[]⟩

/-- The groups with a condition added to the last one. -/
def addToLast (condition : Condition Sub) :
    List (List (Condition Sub)) → List (List (Condition Sub))
  | [] => [[condition]]
  | [group] => [group ++ [condition]]
  | group :: rest => group :: addToLast condition rest

def and (filter : Filter Sub) (condition : Condition Sub) : Filter Sub :=
  ⟨addToLast condition filter.groups⟩

def or (filter : Filter Sub) (condition : Condition Sub) : Filter Sub :=
  ⟨filter.groups ++ [[condition]]⟩

def isEmpty (filter : Filter Sub) : Bool := filter.groups.all Condition.allEmpty

/-- Whether any condition was added, an empty one included. -/
def isSet (filter : Filter Sub) : Bool := !filter.groups.isEmpty

def condition (filter : Filter Sub) : Condition Sub := .any (filter.groups.map Condition.every)

end Filter

namespace AggregateCall

variable {Sub : Type}

def start (function : String) : Except Error (AggregateCall Sub) := do
  checkFunctionName function
  return ⟨function, none, false, [], false, .unset⟩

/-- Calls the function on the column named by a text. -/
def on (call : AggregateCall Sub) (column : String) : Except Error (AggregateCall Sub) := do
  return { call with argument := some (← ColumnRef.parse column) }

def compare (call : AggregateCall Sub) (comparison : Comparison) (operand : Comparand Sub) :
    Except Error (Condition Sub) :=
  if comparison.accepts operand then .ok (.aggregate call comparison operand)
  else .error (.operandMismatch comparison.name)

end AggregateCall
end SqlComposer
