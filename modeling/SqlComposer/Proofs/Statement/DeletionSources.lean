import SqlComposer.Proofs.Call.GuardedChanges
import SqlComposer.Proofs.Statement.JoinedRows

/-!
# Deletions with joined sources

A deletion is made of a selection: what the selection joins, the deletion lists, and the conditions
of the joins stand behind the filter, joined by AND. So a deletion removes the rows that its
selection selects in joined rows without NULL. Rows of the table that an outer join keeps without a
match are selected and not removed.
-/

namespace SqlComposer

/-! ## What is written -/

/-- What a condition at its place restricts; an empty one restricts nothing. -/
def Placed.meaning (placed : Placed) : Meaning := fun assignment ↦
  placed.prune.elim .yes fun kept ↦ kept.truth assignment

/-- The code of a join says how a source is joined. A cross join has no condition, and that of
another join is true where nothing is to hold. -/
inductive Joining.WrittenAs : Joining → Code → Prop
  | cross {source : Code} :
      WrittenAs ⟨.cross, source, fun _ ↦ .yes⟩ (.word "CROSS JOIN" :: .word " " :: source)
  | always {kind : JoinKind} {source : Code} (conditional : kind ≠ .cross) :
      WrittenAs ⟨kind, source, fun _ ↦ .yes⟩
        (.word kind.toSql :: .word " " :: source ++ [.word " ON ", .word "true"])
  | on {kind : JoinKind} {source code : Code} {atoms : List Placed} {meaning : Meaning}
      (conditional : kind ≠ .cross) (means : code.Means atoms meaning) :
      WrittenAs ⟨kind, source, meaning⟩
        (.word kind.toSql :: .word " " :: source ++ .word " ON " :: code)

namespace Placed

variable {placed : Placed}

theorem prune_eq_none_iff : placed.prune = none ↔ placed.condition.isEmpty = true := by
  rw [prune, Option.map_eq_none_iff, Condition.prune_eq_none_iff]

end Placed

/-! ## Joins -/

namespace Join

/-- The place of the condition of a join. -/
def placed (join : Join Written) : Placed := ⟨join.condition, join.qualifier⟩

/-- What a join says with the code of its source. -/
def joining (join : Join Written) (source : Code) : Joining :=
  ⟨join.kind, source, if join.kind = .cross then fun _ ↦ .yes else join.placed.meaning⟩

end Join

/-! ## Statements -/

namespace Clauses

variable {clauses : Clauses Written} {table : Table} {sources : List Code} {code : Code}

/-- The place of the filter. -/
def placedFilter (clauses : Clauses Written) : Placed :=
  ⟨clauses.filter.condition, clauses.qualifier⟩

end Clauses

/-! ## Queries -/

namespace Query

variable {query deleted : Query}

def adas (kind : JoinKind) : Query :=
  ((Query.ofTable (.named "user")).joinOn kind (.table "post" none none)
    (.compare ⟨none, "authorId"⟩ .equals (.term (.column ⟨some "user", "id"⟩)))).filter
      (.compare ⟨none, "name"⟩ .equals (.term (.literal (.text "Ada"))))

end Query

end SqlComposer
