/-!
# Shapes of results

The shape of a query says what its caller gets back: all rows, one row, single values, a count of
rows or nothing.
-/

namespace SqlComposer

/-- What a query hands back. -/
inductive Shape where
  /-- Every row with its column names. -/
  | all
  /-- The first row, if there is one. -/
  | one
  /-- The first row, which has to exist. -/
  | oneOrThrow
  | rows
  /-- The first value of every row. -/
  | pluck
  /-- The first value of the first row, if there is one. -/
  | value
  /-- The first value of the first row, which has to exist. -/
  | valueOrThrow
  | rowCount
  | void
  deriving DecidableEq, Repr

namespace Shape

/-- Whether a selection of this shape is limited to one row when it is written. -/
def limitsToOne : Shape → Bool
  | one | oneOrThrow => true
  | _ => false

/-- Whether at most one row is expected. -/
def expectsOne : Shape → Bool
  | one | oneOrThrow | value | valueOrThrow => true
  | _ => false

/-- Whether rows are handed back at all. -/
def returnsRows : Shape → Bool
  | rowCount | void => false
  | _ => true

/-- Whether finding no row is a failure. -/
def requiresRow : Shape → Bool
  | oneOrThrow | valueOrThrow => true
  | _ => false

end Shape
end SqlComposer
