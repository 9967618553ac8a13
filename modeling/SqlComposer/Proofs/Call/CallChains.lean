import SqlComposer.Proofs.Call.CallFrames

/-!
# Chains of calls

What a chain of calls says about the rows that an update or a deletion touches. A query that may
still change rows remembers every condition demanded in its chain, and that no filter is needed it
knows only from a call that says so. An insertion forgets both, but it never becomes a change of
existing rows.
-/

namespace SqlComposer

variable {Sub : Type}

/-! ## Filters -/

def Filter.members (filter : Filter Sub) : List (Condition Sub) := filter.groups.flatten

@[simp]
theorem Filter.members_and (filter : Filter Sub) (condition : Condition Sub) :
    (filter.and condition).members = filter.members ++ [condition] := by
  have hlast (groups : List (List (Condition Sub))) :
      (Filter.addToLast condition groups).flatten = groups.flatten ++ [condition] := by
    induction groups with
    | nil => rfl
    | cons group rest ih =>
      cases rest with
      | nil => simp [Filter.addToLast]
      | cons second others =>
        simp [Filter.addToLast, ih]
  exact hlast filter.groups

@[simp]
theorem Filter.members_or (filter : Filter Sub) (condition : Condition Sub) :
    (filter.or condition).members = filter.members ++ [condition] := by
  simp [Filter.or, members]

/-! ## Calls -/

/-- Whether a statement changes existing rows or may become one that does. -/
def Verb.mayChange : Verb Sub → Bool
  | .select | .update _ | .delete => true
  | .insert _ | .truncate _ | .copy _ | .describe _ => false

namespace Call

/-- The condition that a call demands of rows. -/
def demands (query : Query) : Call → List (Condition Statement)
  | filter condition | orFilter condition | findBy condition | findByOptional condition =>
    [condition]
  | filterNot condition => [.not condition]
  | filterJson shorthand | orFilterJson shorthand => (Shorthand.condition shorthand).toOption.toList
  | filterHasRow inner => [.hasRow inner.statement]
  | filterHasNoRow inner => [.not (.hasRow inner.statement)]
  | find key | findOptional key => (query.keyCondition key).toOption.toList
  | _ => []

/-- How a call that leaves a query able to change rows acts on what it knows about the rows. -/
structure Extends (call : Call) (query next : Query) : Prop where
  verb : query.clauses.verb.mayChange
  members : next.clauses.filter.members = query.clauses.filter.members ++ call.demands query
  everyRow : next.clauses.everyRow → query.clauses.everyRow ∨ call = .all
  isSet : next.clauses.filter.isSet → query.clauses.filter.isSet ∨ call.selectsRows

variable {call : Call} {query next : Query}

/-- A call that adds the condition it demands. -/
theorem Extends.filtered {condition : Condition Statement} (verb : query.clauses.verb.mayChange)
    (filter : next.clauses.filter.members = query.clauses.filter.members ++ [condition])
    (everyRow : next.clauses.everyRow = query.clauses.everyRow)
    (demands : call.demands query = [condition]) (selects : call.selectsRows) :
    call.Extends query next where
  verb := verb
  members := by rw [filter, demands]
  everyRow h := .inl (everyRow ▸ h)
  isSet _ := .inr selects

end Call

namespace Query

variable {query next : Query}

/-- A method that leaves alone which rows a query means. -/
structure Keeps (query next : Query) : Prop where
  verb : next.clauses.verb.mayChange → query.clauses.verb.mayChange
  filter : next.clauses.filter = query.clauses.filter
  everyRow : next.clauses.everyRow = query.clauses.everyRow

theorem Keeps.trans {between : Query} (first : query.Keeps between) (second : between.Keeps next) :
    query.Keeps next where
  verb h := first.verb (second.verb h)
  filter := second.filter.trans first.filter
  everyRow := second.everyRow.trans first.everyRow

/-- A method that leaves alone which rows are meant extends a query by no demand. -/
theorem Keeps.extends {call : Call} (keeps : query.Keeps next)
    (verb : next.clauses.verb.mayChange) (demands : call.demands query = []) :
    call.Extends query next where
  verb := keeps.verb verb
  members := by rw [keeps.filter, demands, List.append_nil]
  everyRow h := .inl (keeps.everyRow ▸ h)
  isSet h := .inl (keeps.filter ▸ h)

theorem Keeps.pushUpdate {assignments : List Assignment}
    (h : query.pushUpdate assignments = .ok next) : query.Keeps next := by
  obtain ⟨earlier, hverb, rfl⟩ := pushUpdate_eq_ok h
  simp only [countingRows_eq]
  refine ⟨fun _ ↦ ?_, rfl, rfl⟩
  rcases hverb with hverb | ⟨hverb, -⟩ <;>
  · rw [hverb]
    rfl

theorem Keeps.update {data : Payload} (h : query.update data = .ok next) : query.Keeps next := by
  obtain ⟨_, _, _, _, h⟩ := update_eq_ok h
  exact .pushUpdate h

theorem Keeps.orCreate {row : Payload} (h : query.orCreate row = .ok next) : query.Keeps next := by
  obtain ⟨_, _, _, _, _, rfl⟩ := orCreate_eq_ok h
  exact ⟨id, rfl, rfl⟩

theorem Keeps.upsert {data row : Payload} (h : query.upsert data row = .ok next) :
    query.Keeps next := by
  rcases upsert_eq_ok.1 h with ⟨-, h⟩ | ⟨-, updated, hupdated, h⟩
  · exact .orCreate h
  · exact (Keeps.update hupdated).trans (.orCreate h)

/-- The one statement that is made of another and may change rows is a deletion. -/
theorem Becomes.keeps (becomes : query.Becomes next) (verb : next.clauses.verb.mayChange) :
    query.Keeps next := by
  cases becomes with
  | deletes selects =>
    simp only [countingRows_eq]
    exact ⟨fun _ ↦ by rw [selects]; rfl, rfl, rfl⟩
  | _ => cases verb

end Query

/-! ## Steps -/

namespace Call

variable {call : Call} {query next : Query}

theorem Frames.keeps (frames : call.Frames query next) (rows : call.selectsRows = false)
    (filtered : call.meansAll = false) : query.Keeps next where
  verb h := frames.verb ▸ h
  filter := frames.filter rows
  everyRow := frames.everyRow filtered

/-- Every call that leaves a query able to change rows keeps the conditions demanded before it and
adds the one that it demands itself. -/
theorem extends_apply (done : call.apply query = .ok next) (continues : call.continues)
    (verb : next.clauses.verb.mayChange) : call.Extends query next := by
  cases call with
  | sibling | json => cases continues
  | all =>
    cases done
    exact ⟨verb, (List.append_nil _).symm, fun _ ↦ .inr rfl, .inl⟩
  | filter | filterNot | filterHasRow | filterHasNoRow | findBy | findByOptional =>
    cases done
    exact .filtered verb (Filter.members_and _ _) rfl rfl rfl
  | orFilter =>
    cases done
    exact .filtered verb (Filter.members_or _ _) rfl rfl rfl
  | filterJson shorthand =>
    obtain ⟨condition, hcondition, done⟩ := bind_eq_ok.1 done
    cases done
    refine .filtered verb (Filter.members_and _ condition) rfl ?_ rfl
    simp [demands, hcondition, Except.toOption]
  | orFilterJson shorthand =>
    obtain ⟨condition, hcondition, done⟩ := bind_eq_ok.1 done
    cases done
    refine .filtered verb (Filter.members_or _ condition) rfl ?_ rfl
    simp [demands, hcondition, Except.toOption]
  | find key | findOptional key =>
    obtain ⟨found, hfound, rfl⟩ := map_eq_ok.1 done
    obtain ⟨condition, hcondition, rfl⟩ := Query.filterKey_eq_ok.1 hfound
    refine .filtered verb (Filter.members_and _ condition) rfl ?_ rfl
    simp [demands, hcondition, Except.toOption]
  | insert | insertMany | insertRaw | insertFrom | ignoreConflict | mergeConflict | setConflict
  | delete | truncate | describe | copy =>
    exact ((becomes_apply done rfl).keeps verb).extends verb rfl
  | update => exact (Query.Keeps.update done).extends verb rfl
  | updateRaw | increment | decrement => exact (Query.Keeps.pushUpdate done).extends verb rfl
  | orCreate => exact (Query.Keeps.orCreate done).extends verb rfl
  | upsert => exact (Query.Keeps.upsert done).extends verb rfl
  | _ => exact ((frames_apply done rfl).keeps rfl rfl).extends verb rfl

end Call

/-! ## Runs -/

/-- The calls that lead to a query and the conditions demanded by them, in order. A chain starts
from a table, from a fragment or from the query around another one that hands back its rows as JSON.
-/
inductive Query.Chain : List Call → List (Condition Statement) → Query → Prop
  | ofTable (table : Table) (catalog : Option Catalog) (log : Option LogSettings) :
      Chain [] [] ⟨.ofTable table, catalog, log⟩
  | ofRaw (fragment : Fragment) : Chain [] [] (.ofRaw fragment)
  | json (inner : Query) : Chain [] [] inner.json
  | call {calls : List Call} {demanded : List (Condition Statement)} {query next : Query}
      {call : Call} (chain : Chain calls demanded query) (continues : call.continues)
      (done : call.apply query = .ok next) :
      Chain (calls ++ [call]) (demanded ++ call.demands query) next

/-- A query that may change rows holds all conditions demanded in its chain, and that no filter is
needed or that one is given goes back to a call in the chain. -/
theorem Query.Chain.knows {calls : List Call} {demanded : List (Condition Statement)}
    {query : Query} (chain : Chain calls demanded query) (verb : query.clauses.verb.mayChange) :
    query.clauses.filter.members = demanded ∧ (query.clauses.everyRow → .all ∈ calls) ∧
      (query.clauses.filter.isSet → ∃ call ∈ calls, call.selectsRows) := by
  induction chain with
  | ofTable | ofRaw | json =>
    exact ⟨rfl, fun h ↦ absurd h Bool.false_ne_true, fun h ↦ absurd h Bool.false_ne_true⟩
  | @call calls demanded query next call _ continues done ih =>
    have step := call.extends_apply done continues verb
    obtain ⟨members, everyRow, isSet⟩ := ih step.verb
    refine ⟨by rw [step.members, members], fun h ↦ ?_, fun h ↦ ?_⟩
    · rcases step.everyRow h with h | rfl
      · exact List.mem_append_left _ (everyRow h)
      · exact List.mem_append_right _ List.mem_cons_self
    · rcases step.isSet h with h | h
      · obtain ⟨earlier, hearlier, hselects⟩ := isSet h
        exact ⟨earlier, List.mem_append_left _ hearlier, hselects⟩
      · exact ⟨call, List.mem_append_right _ List.mem_cons_self, h⟩

end SqlComposer
