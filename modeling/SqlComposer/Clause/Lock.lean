import SqlComposer.Fragment

/-!
# Row locks

A selection may lock the rows it reads, restricted to some of its tables, and say what to do about
rows that are locked already.
-/

namespace SqlComposer

inductive LockStrength where
  | update
  | noKeyUpdate
  | share
  | keyShare
  deriving DecidableEq, Repr

def LockStrength.toSql : LockStrength → String
  | update => "UPDATE"
  | noKeyUpdate => "NO KEY UPDATE"
  | share => "SHARE"
  | keyShare => "KEY SHARE"

/-- What happens at a row that is locked already; waiting is not written. -/
inductive LockWait where
  | noWait
  | skipLocked
  deriving DecidableEq, Repr

def LockWait.toSql : LockWait → String
  | noWait => "NOWAIT"
  | skipLocked => "SKIP LOCKED"

inductive LockTables where
  | names (tables : List String)
  | raw (fragment : Fragment)

/-- A locking clause. -/
structure RowLock where
  strength : LockStrength
  tables : Option LockTables
  wait : Option LockWait

namespace RowLock

def code (lock : RowLock) : Written := do
  let tables : Code ← match lock.tables with
    | some (.names tables) => pure (.word " OF " :: Code.nameList tables)
    | some (.raw fragment) => do pure (.word " OF " :: (← fragment.code))
    | none => pure []
  let wait : Code := match lock.wait with
    | some wait => [.word " ", .word wait.toSql]
    | none => []
  return .word "FOR " :: .word lock.strength.toSql :: tables ++ wait

end RowLock
end SqlComposer
