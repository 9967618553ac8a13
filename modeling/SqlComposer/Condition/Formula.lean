import SqlComposer.Code

/-!
# Formulas

A formula is a condition whose comparisons are written already: atoms under AND, OR and NOT. Laying
it out puts in no more parentheses than needed for its meaning to survive. AND binds tighter than
OR, but alternating levels are kept apart by parentheses all the same. A group of one is written
like its only member, and a group of none, or the negation of one, is not written at all.
-/

namespace SqlComposer

/-- Written atoms under AND, OR and NOT. -/
inductive Formula where
  | atom (code : Code)
  | every (formulas : List Formula)
  | any (formulas : List Formula)
  | not (formula : Formula)

/-- What joins the parts of a written formula at its top. -/
inductive Joiner where
  | and
  | or
  | atom
  deriving DecidableEq, Repr

namespace Joiner

def word : Joiner → String
  | or => " OR "
  | _ => " AND "

/-- Which parts stand in parentheses when joined: those that are chains of the other kind. -/
def wraps : Joiner → Joiner
  | or => and
  | _ => or

end Joiner

/-- A written formula and what joins its parts. -/
structure Layout where
  code : Code
  joiner : Joiner

namespace Layout

def within (joiner : Joiner) (layout : Layout) : Code :=
  if layout.joiner = joiner.wraps then Code.parenthesized layout.code else layout.code

def joined (joiner : Joiner) : List Layout → Option Layout
  | [] => none
  | [layout] => some layout
  | layouts => some ⟨Code.separated joiner.word (layouts.map (within joiner)), joiner⟩

def negated (layout : Layout) : Layout :=
  ⟨.word "NOT " :: Code.parenthesized layout.code, .atom⟩

/-- The code in a form that can be joined to others by AND. -/
def conjunct (layout : Layout) : Code := layout.within .and

end Layout

namespace Formula

mutual

/-- Lays out a formula; nothing is written for an empty one. -/
def layout : Formula → Option Layout
  | .atom code => some ⟨code, .atom⟩
  | .every formulas => Layout.joined .and (layouts formulas)
  | .any formulas => Layout.joined .or (layouts formulas)
  | .not formula => formula.layout.map Layout.negated

/-- The layouts of those formulas that are not empty. -/
def layouts : List Formula → List Layout
  | [] => []
  | formula :: rest => formula.layout.toList ++ layouts rest

end

def code? (formula : Formula) : Option Code := formula.layout.map Layout.code

def conjunct? (formula : Formula) : Option Code := formula.layout.map Layout.conjunct

end Formula
end SqlComposer
