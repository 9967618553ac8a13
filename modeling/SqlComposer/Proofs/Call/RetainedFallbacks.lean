import SqlComposer.Proofs.Call.CallFrames
import SqlComposer.Proofs.Insertion.PendingCells

/-!
# What further calls leave alone

The row that is inserted in place of a query is settled by the call that asks for it: apart from
the calls that ask for another one, no call changes it any more. Hooks keep being registered,
behind those that are registered already.
-/

namespace SqlComposer

namespace Call

/-- The hooks that calls register, in order. -/
def registered (calls : List Call) : Hooks :=
  calls.foldl (fun hooks call ↦ hooks ++ call.registers) .none

theorem registered_append (calls : List Call) (call : Call) :
    registered (calls ++ [call]) = registered calls ++ call.registers := by
  simp [registered]

end Call

namespace Query

variable {query between next : Query}

/-- A method leaves the row in place of a query and the hooks alone, and lets no cell wait for a row
that is not inserted. -/
structure Retains (query next : Query) : Prop where
  fallback : next.clauses.fallback = query.clauses.fallback
  hooks : next.clauses.hooks = query.clauses.hooks
  awaits : query.clauses.Awaits → next.clauses.Awaits

theorem Retains.countOf (query : Query) (argument : Option ColumnRef) :
    query.Retains (query.countOf argument) := by
  rw [countOf_eq]
  exact ⟨rfl, rfl, id⟩

theorem Retains.pushUpdate {assignments : List Assignment}
    (h : query.pushUpdate assignments = .ok next) : query.Retains next := by
  obtain ⟨_, _, rfl⟩ := pushUpdate_eq_ok h
  simp only [countingRows_eq]
  exact ⟨rfl, rfl, fun _ ↦ Clauses.awaits_of_verb nofun⟩

theorem Retains.update {data : Payload} (h : query.update data = .ok next) :
    query.Retains next := by
  obtain ⟨_, _, _, _, h⟩ := update_eq_ok h
  exact .pushUpdate h

/-- The cells of a planned insertion wait for rows of its plan, and another reaction to conflicts
leaves the cells alone. -/
theorem Becomes.retains (becomes : query.Becomes next) : query.Retains next := by
  cases becomes with
  | plans many => exact ⟨rfl, rfl, fun _ ↦ awaits_planned query _ many⟩
  | inserts _ _ source =>
    refine ⟨rfl, rfl, fun _ ↦ Clauses.awaits_of_verb fun _ rows h ↦ ?_⟩
    cases h
    exact source rows
  | settles _ hverb =>
    refine ⟨rfl, rfl, fun h row column ↦ ?_⟩
    rintro ⟨_, rows, cells, hinsertion, hsource, hcells, hpending⟩
    cases hinsertion
    exact h row column ⟨_, rows, cells, hverb, hsource, hcells, hpending⟩
  | deletes =>
    simp only [countingRows_eq]
    exact ⟨rfl, rfl, fun _ ↦ Clauses.awaits_of_verb nofun⟩
  | truncates | describes | copies => exact ⟨rfl, rfl, fun _ ↦ Clauses.awaits_of_verb nofun⟩

/-- The row in place of a query stays as it is, its hooks are followed by others, and no cell waits
for a row that is not inserted. -/
structure Grows (query : Query) (later : Hooks) (next : Query) : Prop where
  fallback : next.clauses.fallback = query.clauses.fallback
  hooks : next.clauses.hooks = query.clauses.hooks ++ later
  awaits : query.clauses.Awaits → next.clauses.Awaits

theorem Retains.grows (retains : query.Retains next) : query.Grows .none next :=
  ⟨retains.fallback, by rw [retains.hooks, Hooks.append_none], retains.awaits⟩

theorem Grows.trans {later last : Hooks} (first : query.Grows later between)
    (second : between.Grows last next) : query.Grows (later ++ last) next :=
  ⟨second.fallback.trans first.fallback,
    by rw [second.hooks, first.hooks, Hooks.append_assoc], fun h ↦ second.awaits (first.awaits h)⟩

end Query

/-- A call that goes on with a query and asks for no row in its place leaves that row alone, and
registers its hooks behind those of the query. -/
theorem Call.grows_apply {query next : Query} {call : Call} (done : call.apply query = .ok next)
    (continues : call.continues) (keeps : call.replaces = false) :
    query.Grows call.registers next := by
  cases call with
  | sibling | json => cases continues
  | orCreate | upsert => cases keeps
  | insert | insertMany | insertRaw | insertFrom | ignoreConflict | mergeConflict | setConflict
  | delete | truncate | describe | copy => exact (becomes_apply done rfl).retains.grows
  | update => exact (Query.Retains.update done).grows
  | updateRaw | increment | decrement => exact (Query.Retains.pushUpdate done).grows
  | _ =>
    have frames := frames_apply done rfl
    exact ⟨frames.fallback, frames.hooks, fun h ↦ h.congr frames.verb frames.related⟩

/-! ## Further calls -/

/-- Further calls on a query that go on with it and ask for no row in its place. -/
inductive Query.Continues (query : Query) : List Call → Query → Prop
  | done : Continues query [] query
  | call {calls : List Call} {between next : Query} {call : Call}
      (earlier : Continues query calls between) (continues : call.continues)
      (keeps : call.replaces = false) (done : call.apply between = .ok next) :
      Continues query (calls ++ [call]) next

/-- Further calls leave the row in place of a query alone and register their hooks, in order, behind
those of the query. -/
theorem Query.Continues.grows {query next : Query} {calls : List Call}
    (further : query.Continues calls next) : query.Grows (Call.registered calls) next := by
  induction further with
  | done => exact Retains.grows ⟨rfl, rfl, id⟩
  | call _ continues keeps done ih =>
    rw [Call.registered_append]
    exact ih.trans (Call.grows_apply done continues keeps)

end SqlComposer
