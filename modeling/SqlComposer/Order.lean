import SqlComposer.Fragment
import SqlComposer.Text.Characters

/-!
# Sorting and grouping

One ORDER BY item is a column with an optional direction, or a raw fragment. The same items are used
by statements, windows and ordered aggregates. One GROUP BY item is a column or a raw fragment.
-/

namespace SqlComposer

inductive Direction where
  | asc
  | desc
  | ascNullsFirst
  | ascNullsLast
  | descNullsFirst
  | descNullsLast
  deriving DecidableEq, Repr

namespace Direction

def toSql : Direction → String
  | asc => "ASC"
  | desc => "DESC"
  | ascNullsFirst => "ASC NULLS FIRST"
  | ascNullsLast => "ASC NULLS LAST"
  | descNullsFirst => "DESC NULLS FIRST"
  | descNullsLast => "DESC NULLS LAST"

def all : List Direction :=
  [asc, desc, ascNullsFirst, ascNullsLast, descNullsFirst, descNullsLast]

/-- Reads a direction in any case of the ASCII letters, ignoring blanks around it. -/
def parse (text : String) : Except Error Direction :=
  let word := String.ofList ((trimBlanks text).toList.map Char.toUpper)
  match all.find? fun direction => direction.toSql == word with
  | some direction => .ok direction
  | none => .error (.unknownDirection text)

end Direction

inductive OrderItem where
  | column (reference : ColumnRef) (direction : Option Direction)
  | raw (fragment : Fragment)

namespace OrderItem

def ofColumn (text : String) (direction : Option Direction) : Except Error OrderItem :=
  (ColumnRef.parse text).map fun reference => .column reference direction

def code (qualifier : Qualifier) : OrderItem → Written
  | .column reference direction =>
    let suffix : Code := match direction with
      | some direction => [.word " ", .word direction.toSql]
      | none => []
    .ok (reference.code qualifier ++ suffix)
  | .raw fragment => fragment.code

def listCode (qualifier : Qualifier) (items : List OrderItem) : Written := do
  return Code.separated ", " (← items.mapM (code qualifier))

end OrderItem

inductive GroupItem where
  | column (reference : ColumnRef)
  | raw (fragment : Fragment)

namespace GroupItem

def code (qualifier : Qualifier) : GroupItem → Written
  | .column reference => .ok (reference.code qualifier)
  | .raw fragment => fragment.code

def listCode (qualifier : Qualifier) (items : List GroupItem) : Written := do
  return Code.separated ", " (← items.mapM (code qualifier))

end GroupItem
end SqlComposer
