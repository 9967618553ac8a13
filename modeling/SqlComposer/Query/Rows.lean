import SqlComposer.Query

/-!
# Which rows, and in what form

Methods that say how many rows of a query are wanted and what is handed back, that name its table or
replace it, and that order, page and lock what is read.
-/

namespace SqlComposer.Query

/-! ## Source -/

/-- Gives the table another name. -/
def as (query : Query) (label : String) : Query :=
  query.modify fun clauses => { clauses with label := some label }

/-- Reads from a sub-query instead of the table. -/
def fromQuery (query inner : Query) (label : String) : Query :=
  query.modify fun clauses =>
    { clauses with source := .body (.query inner.statement), label := some label }

def fromRaw (query : Query) (fragment : Fragment) : Query :=
  query.modify fun clauses => { clauses with source := .body (.raw fragment) }

/-! ## Order and number -/

def order (query : Query) (column : String) (direction : Direction) : Except Error Query := do
  let item ← OrderItem.ofColumn column (some direction)
  return query.modify fun clauses => { clauses with order := clauses.order ++ [item] }

def orderBy (query : Query) (columns : List String) : Except Error Query := do
  let items ← columns.mapM fun column => OrderItem.ofColumn column none
  return query.modify fun clauses => { clauses with order := clauses.order ++ items }

def orderRaw (query : Query) (fragment : Fragment) : Query :=
  query.modify fun clauses => { clauses with order := clauses.order ++ [.raw fragment] }

def limit (query : Query) (count : Int) : Query :=
  query.modify fun clauses => { clauses with limit := some count }

def offset (query : Query) (count : Int) : Query :=
  query.modify fun clauses => { clauses with offset := some count }

/-! ## Shape -/

/-- Hands back results in another shape. -/
def shaped (query : Query) (shape : Shape) : Query :=
  query.modify fun clauses => { clauses with shape }

/-- Hands back the first row, which has to exist. -/
def take (query : Query) : Query := query.shaped .oneOrThrow

/-- Hands back the first row, if there is one. -/
def takeOptional (query : Query) : Query := query.shaped .one

/-- Hands back every row as a list of values. -/
def rows (query : Query) : Query := query.shaped .rows

/-- Hands back every row; a change without a filter is intended from now on. -/
def all (query : Query) : Query :=
  query.modify fun clauses => { clauses with
    everyRow := true
    shape := if clauses.shape.expectsOne || clauses.shape = .rows then .all else clauses.shape }

def selectSingle (query : Query) (column : String) (shape : Shape) : Except Error Query := do
  let reference ← ColumnRef.parse column
  return query.modify fun clauses => { clauses with
    selection := [.ofColumn reference], selectsAll := false, shape }

def pluck (query : Query) (column : String) : Except Error Query :=
  query.selectSingle column .pluck

/-- Selects a single column in a shape of one value; a selection is limited to one row. -/
def selectValue (query : Query) (column : String) (shape : Shape) : Except Error Query := do
  let query ← query.selectSingle column shape
  return query.modify fun clauses =>
    match clauses.verb with
    | .select => { clauses with limit := some 1 }
    | _ => clauses

/-- Hands back one column of the first row, which has to exist. -/
def get (query : Query) (column : String) : Except Error Query :=
  query.selectValue column .valueOrThrow

/-- Hands back one column of the first row, if there is one. -/
def getOptional (query : Query) (column : String) : Except Error Query :=
  query.selectValue column .value

/-! ## Locks -/

def lock (query : Query) (strength : LockStrength) : Query :=
  query.modify fun clauses => { clauses with lock := some ⟨strength, none, none⟩ }

/-- Changes the locking clause, which has to be there. -/
def modifyLock (query : Query) (change : RowLock → RowLock) : Except Error Query :=
  match query.clauses.lock with
  | some lock => .ok (query.modify fun clauses => { clauses with lock := some (change lock) })
  | none => .error .lockMissing

def lockOf (query : Query) (tables : List String) : Except Error Query :=
  query.modifyLock fun lock => { lock with tables := some (.names tables) }

def lockOfRaw (query : Query) (fragment : Fragment) : Except Error Query :=
  query.modifyLock fun lock => { lock with tables := some (.raw fragment) }

/-- Fails at rows that are locked already. -/
def noWait (query : Query) : Except Error Query :=
  query.modifyLock fun lock => { lock with wait := some .noWait }

/-- Passes over rows that are locked already. -/
def skipLocked (query : Query) : Except Error Query :=
  query.modifyLock fun lock => { lock with wait := some .skipLocked }

end SqlComposer.Query
