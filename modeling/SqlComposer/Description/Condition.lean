import SqlComposer.Condition.Shorthand
import SqlComposer.Description.Clause

/-!
# Descriptions of conditions

A condition is a list that starts with a word: a comparison, a connective over further conditions,
or one of the shorthand forms. Sub-queries are read by a reader that is handed in. Parts are looked
at from left to right, so the first one that is refused decides the failure.
-/

namespace SqlComposer.Description

variable {Sub : Type}

def readComparison (json : Json) : Reading Comparison := do lift (Comparison.ofKey (← text json))

def readComparand (subquery : Json → Reading Sub) (json : Json) : Reading (Comparand Sub) := do
  match json with
  | .object [("v", value)] => return .term (← readTerm value)
  | .object [("list", values)] => return .list (← (← items values).mapM readTerm)
  | .object [("range", .list [lower, upper])] =>
    return .range (← readTerm lower) (← readTerm upper)
  | .object [("query", query)] => return .query (← subquery query)
  | _ => malformed "operand"

/-- The comparisons that have a word of their own and take one term. -/
def shortComparisons : List (String × Comparison) :=
  [("eq", .equals), ("ne", .not), ("gt", .gt), ("gte", .gte), ("lt", .lt), ("lte", .lte)]

/-- A condition that is described without further conditions. -/
def readLeaf (subquery : Json → Reading Sub) (word : String) (arguments : List Json) :
    Reading (Condition Sub) := do
  let compare (column : Json) (comparison : Comparison) (operand : Comparand Sub) :
      Reading (Condition Sub) := do
    lift (Condition.ofColumn (← text column) comparison operand)
  match word, arguments with
  | "cmp", [column, key, operand] =>
    let comparison ← readComparison key
    compare column comparison (← readComparand subquery operand)
  | "unchecked", [column, key, operand] =>
    let column ← readColumn column
    let comparison ← readComparison key
    return .compare column comparison (← readComparand subquery operand)
  | "is_null", [column] => lift (Condition.isNull (← text column))
  | "is_not_null", [column] => lift (Condition.isNotNull (← text column))
  | "in", [column, values] => compare column .in (.list (← (← items values).mapM readTerm))
  | "not_in", [column, values] => compare column .notIn (.list (← (← items values).mapM readTerm))
  | "in_query", [column, query] => compare column .in (.query (← subquery query))
  | "eq_query", [column, query] => compare column .equals (.query (← subquery query))
  | "between", [column, lower, upper] =>
    compare column .between (.range (← readTerm lower) (← readTerm upper))
  | "exists", [query] => return .hasRow (← subquery query)
  | "raw", [fragment] => return .raw (← readFragment fragment)
  | "where", [json] => lift (Shorthand.condition (← nested json))
  | "having", [json] => lift (Shorthand.aggregateCondition (← nested json))
  | word, [column, value] =>
    compare column (← need "condition" (shortComparisons.lookup word)) (.term (← readTerm value))
  | _, _ => malformed "condition"

/-- The comparison of an aggregate, whose filter is read already. -/
def readAggregate (subquery : Json → Reading Sub) (json : Json)
    (filter : AggregateCall Sub → Reading (AggregateCall Sub)) : Reading (Condition Sub) := do
  let call : AggregateCall Sub ← lift (AggregateCall.start (← field json "fn" text))
  let call ← match ← optional json "col" text with
    | some column => lift (call.on column)
    | none => pure call
  let distinct ← switch json "distinct"
  let order ← listField json "order" readOrderItem
  let withinGroup ← switch json "within"
  let call ← filter { call with distinct, order, withinGroup }
  let comparison ← field json "cmp" readComparison
  lift (call.compare comparison (← field json "operand" (readComparand subquery)))

mutual

def readCondition (subquery : Json → Reading Sub) : Json → Reading (Condition Sub)
  | .list [.text "and", .list nodes] => do return .every (← readConditions subquery nodes)
  | .list [.text "or", .list nodes] => do return .any (← readConditions subquery nodes)
  | .list [.text "not", node] => do return .not (← readCondition subquery node)
  | .list [.text "agg", .object members] =>
    readAggregate subquery (.object members) fun call => do
      let first ← readMember subquery "filter" members
      let others ← readMember subquery "filter_or" members
      return { call with filter := others.foldl Filter.or (first.foldl Filter.and Filter.unset) }
  | .list (.text word :: arguments) => readLeaf subquery word arguments
  | _ => malformed "condition"

def readConditions (subquery : Json → Reading Sub) : List Json → Reading (List (Condition Sub))
  | [] => .ok []
  | node :: rest => do
    let condition ← readCondition subquery node
    return condition :: (← readConditions subquery rest)

/-- The conditions that a member of an object lists, none if it is missing. -/
def readMember (subquery : Json → Reading Sub) (name : String) :
    List (String × Json) → Reading (List (Condition Sub))
  | [] => .ok []
  | (key, .list nodes) :: rest =>
    if key = name then readConditions subquery nodes else readMember subquery name rest
  | _ :: rest => readMember subquery name rest

end

end SqlComposer.Description
