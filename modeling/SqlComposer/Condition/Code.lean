import SqlComposer.Condition
import SqlComposer.Condition.Formula

/-!
# Writing conditions

A condition over the code of its sub-queries is written by writing each comparison, fragment and
existence test as an atom and laying out the formula of these atoms. Columns without a table are
qualified by the place where the condition stands.
-/

namespace SqlComposer

/-- The code of a comparison whose left-hand side is written already. Comparing with an empty list
has a constant result and drops the left-hand side. -/
def comparisonCode (left : Code) (comparison : Comparison) (operand : Comparand Written)
    (qualifier : Qualifier) : Written :=
  match operand with
  | .term term =>
    if comparison = .equals ∧ term.isNull then .ok (left ++ [.word " IS NULL"])
    else if comparison = .not ∧ term.isNull then .ok (left ++ [.word " IS NOT NULL"])
    else do
      let right ← term.code qualifier
      if comparison.isPattern then
        let before : Code := if comparison.anyBefore then [.text "%", .word " || "] else []
        let after : Code := if comparison.anyAfter then [.word " || ", .text "%"] else []
        return left ++ [.word " ", .word comparison.operator, .word " "] ++ before ++ right ++ after
      else
        return left ++ [.word " ", .word comparison.operator, .word " "] ++ right
  | .list terms =>
    if comparison = .in ∨ comparison = .notIn then
      if terms.isEmpty then
        .ok (Code.dropped left ++ [.word (if comparison = .in then "1=0" else "1=1")])
      else do
        let right ← Term.listCode qualifier terms
        return left ++ [.word " ", .word comparison.operator, .word " "] ++
          Code.parenthesized right
    else .error (.operandMismatch comparison.name)
  | .range lower upper =>
    if comparison = .between then do
      let lower ← lower.code qualifier
      let upper ← upper.code qualifier
      return left ++ [.word " BETWEEN "] ++ lower ++ [.word " AND "] ++ upper
    else .error (.operandMismatch comparison.name)
  | .query query => do
    return left ++ [.word " ", .word comparison.operator, .word " "] ++
      Code.parenthesized (← query)

namespace Condition

mutual

/-- The formula of a condition, with every atom written. -/
def formula (qualifier : Qualifier) : Condition Written → Except Error Formula
  | .compare column comparison operand => do
    return .atom (← comparisonCode (column.code qualifier) comparison operand qualifier)
  | .every conditions => do return .every (← formulas qualifier conditions)
  | .any conditions => do return .any (← formulas qualifier conditions)
  | .not condition => do return .not (← condition.formula qualifier)
  | .hasRow query => do return .atom (.word "EXISTS " :: Code.parenthesized (← query))
  | .raw fragment => do return .atom (← fragment.code)
  | .aggregate call comparison operand => do
    let left ← callCode qualifier call
    return .atom (← comparisonCode left comparison operand qualifier)

def formulas (qualifier : Qualifier) : List (Condition Written) → Except Error (List Formula)
  | [] => .ok []
  | condition :: rest => do
    let first ← condition.formula qualifier
    return first :: (← formulas qualifier rest)

def groupFormulas (qualifier : Qualifier) :
    List (List (Condition Written)) → Except Error (List Formula)
  | [] => .ok []
  | group :: rest => do
    let first ← formulas qualifier group
    return .every first :: (← groupFormulas qualifier rest)

def callCode (qualifier : Qualifier) : AggregateCall Written → Written
  | ⟨function, argument, distinct, order, withinGroup, ⟨groups⟩⟩ => do
    let argument : Code := match argument with
      | some column => column.code qualifier
      | none => [.word "*"]
    let distinct : Code := if distinct then [.word "DISTINCT "] else []
    let order ←
      if order.isEmpty then pure none
      else do pure (some (.word "ORDER BY " :: (← OrderItem.listCode qualifier order)))
    let inner : Code := match order with
      | some order => if withinGroup then [] else .word " " :: order
      | none => []
    let outer : Code := match order with
      | some order =>
        if withinGroup then .word " WITHIN GROUP " :: Code.parenthesized order else []
      | none => []
    let filter : Code := match (Formula.any (← groupFormulas qualifier groups)).code? with
      | some filter => .word " FILTER " :: Code.parenthesized (.word "WHERE " :: filter)
      | none => []
    return .word function :: Code.parenthesized (distinct ++ argument ++ inner) ++ outer ++ filter

end

/-- The code of a condition; none for an empty one. -/
def code? (condition : Condition Written) (qualifier : Qualifier) : Except Error (Option Code) := do
  return (← condition.formula qualifier).code?

def conjunct? (condition : Condition Written) (qualifier : Qualifier) :
    Except Error (Option Code) := do
  return (← condition.formula qualifier).conjunct?

end Condition

namespace Filter

/-- The formula of a filter: some group with all its conditions. -/
def formula (filter : Filter Written) (qualifier : Qualifier) : Except Error Formula :=
  filter.condition.formula qualifier

def code? (filter : Filter Written) (qualifier : Qualifier) : Except Error (Option Code) :=
  filter.condition.code? qualifier

def conjunct? (filter : Filter Written) (qualifier : Qualifier) : Except Error (Option Code) :=
  filter.condition.conjunct? qualifier

end Filter
end SqlComposer
