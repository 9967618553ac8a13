import SqlComposer.Proofs.Call.CallChains

/-!
# What calls leave in a selection

A selection remembers two things from the calls that led to it which a later call may replace or
extend: the number of rows it asks for, and the payloads that were laid over its defaults. A number
is set by a call that gives one and by a call that reads a single value; whatever else is called
later leaves it in place, whether or not a single row is still wanted. A query that is started anew
forgets both.
-/

namespace SqlComposer

/-- One value is handed back, of one row. -/
def Shape.isValue : Shape → Bool
  | value | valueOrThrow => true
  | _ => false

/-- Payloads laid over each other, the later ones on top. -/
def Payload.layered (payloads : List Payload) : Payload :=
  payloads.foldl (fun under payload ↦ payload.onto under) .empty

theorem Payload.layered_append_singleton (payloads : List Payload) (payload : Payload) :
    layered (payloads ++ [payload]) = payload.onto (layered payloads) := by
  simp [layered]

/-! ## Calls -/

namespace Call

/-- The number of rows that a selection asks for behind a call. -/
def bounding (bound : Option Int) : Call → Option Int
  | limit number => some number
  | get _ | getOptional _ => some 1
  | sibling _ | json => none
  | _ => bound

/-- The payloads that lie over each other as defaults behind a call. -/
def defaulting (given : List Payload) : Call → List Payload
  | defaults data => given ++ [data]
  | sibling _ | json => []
  | _ => given

/-- Whether a call makes a query hand back a value that is not read from a row. -/
def aggregates : Call → Bool
  | count | countColumn _ | json => true
  | _ => false

/-- What a call makes of the number of rows, of the defaults and of the shape. -/
structure Carries (call : Call) (query next : Query) : Prop where
  verb : call.continues → query.clauses.verb = .select
  limit : next.clauses.limit = call.bounding query.clauses.limit
  defaults : ∀ given, (call.continues → query.clauses.defaults = Payload.layered given) →
    next.clauses.defaults = Payload.layered (call.defaulting given)
  value : call.aggregates = false → next.clauses.shape.isValue →
    call.continues ∧ query.clauses.shape.isValue ∨ next.clauses.limit.isSome

end Call

namespace Query

variable {query next : Query} {call : Call}

/-- A method that leaves all of it as it is. -/
structure Spares (query next : Query) : Prop where
  verb : next.clauses.verb = query.clauses.verb
  limit : next.clauses.limit = query.clauses.limit
  defaults : next.clauses.defaults = query.clauses.defaults
  value : next.clauses.shape.isValue → query.clauses.shape.isValue

/-- A method that spares the clauses carries them through a call that neither bounds nor presets. -/
theorem Spares.carries (spares : query.Spares next) (select : next.clauses.verb = .select)
    (continues : call.continues)
    (bounding : call.bounding query.clauses.limit = query.clauses.limit)
    (defaulting : ∀ given, call.defaulting given = given) : call.Carries query next where
  verb _ := spares.verb ▸ select
  limit := spares.limit.trans bounding.symm
  defaults given h := by rw [spares.defaults, h continues, defaulting]
  value _ h := .inl ⟨continues, spares.value h⟩

theorem exists_of_sibling {name : String} (h : query.sibling name = .ok next) :
    ∃ table, next = ⟨.ofTable table, query.catalog, query.log⟩ := by
  obtain ⟨table, -, rfl⟩ := sibling_eq_ok.1 h
  exact ⟨table, rfl⟩

theorem Spares.all (query : Query) : query.Spares query.all := by
  refine ⟨rfl, rfl, rfl, fun h ↦ ?_⟩
  simp only [Query.all, modify] at h
  split at h
  · cases h
  · exact h

theorem Spares.orCreate {row : Payload} (h : query.orCreate row = .ok next) :
    query.Spares next := by
  obtain ⟨_, _, _, _, _, rfl⟩ := orCreate_eq_ok h
  refine ⟨rfl, rfl, rfl, fun h ↦ ?_⟩
  simp only [modify] at h
  split at h
  · exact h
  · cases h

theorem exists_verb_pushUpdate {assignments : List Assignment}
    (h : query.pushUpdate assignments = .ok next) :
    ∃ all, next.clauses.verb = .update all := by
  obtain ⟨_, _, rfl⟩ := pushUpdate_eq_ok h
  simp only [countingRows_eq]
  exact ⟨_, rfl⟩

theorem exists_verb_update {data : Payload} (h : query.update data = .ok next) :
    ∃ all, next.clauses.verb = .update all := by
  obtain ⟨_, _, _, _, h⟩ := update_eq_ok h
  exact exists_verb_pushUpdate h

/-- No selection is made of another statement. -/
theorem Becomes.verb_ne_select (becomes : query.Becomes next) : next.clauses.verb ≠ .select := by
  cases becomes with
  | deletes =>
    simp only [countingRows_eq]
    exact nofun
  | _ => exact nofun

/-- A selection is updated or inserted into by no call that leaves it one, so only the insertion
in place of a missing row is left. -/
theorem Spares.upsert {data row : Payload} (h : query.upsert data row = .ok next)
    (select : next.clauses.verb = .select) : query.Spares next := by
  rcases upsert_eq_ok.1 h with ⟨-, h⟩ | ⟨-, updated, hupdated, h⟩
  · exact .orCreate h
  · obtain ⟨_, hverb⟩ := exists_verb_update hupdated
    rw [(Spares.orCreate h).verb, hverb] at select
    cases select

/-- A single selected value bounds a selection to one row and leaves its defaults. -/
theorem spared_selectValue {column : String} {shape : Shape}
    (h : query.selectValue column shape = .ok next) (select : next.clauses.verb = .select) :
    query.clauses.verb = .select ∧ next.clauses.limit = some 1 ∧
      next.clauses.defaults = query.clauses.defaults := by
  obtain ⟨_, _, rfl⟩ := selectValue_eq_ok.1 h
  have hverb : query.clauses.verb = .select := select
  exact ⟨hverb, by simp only [modify, hverb], rfl⟩

end Query

namespace Call

variable {call : Call} {query next : Query}

/-- A call spares the clauses that it neither bounds nor presets. -/
theorem Frames.spares (frames : call.Frames query next) (bounds : call.bounds = false)
    (defaults : call.presets = false)
    (value : next.clauses.shape.isValue → query.clauses.shape.isValue) : query.Spares next where
  verb := frames.verb
  limit := frames.limit bounds
  defaults := frames.defaults defaults
  value := value

/-- What every call that leaves a selection makes of its limit and its defaults. -/
theorem carries_apply (done : call.apply query = .ok next) (select : next.clauses.verb = .select) :
    call.Carries query next := by
  have hvalue {column : String} {shape : Shape}
      (h : query.selectValue column shape = .ok next) (continues : call.continues)
      (bounding : call.bounding query.clauses.limit = some 1)
      (defaulting : ∀ given, call.defaulting given = given) : call.Carries query next := by
    obtain ⟨hverb, hlimit, hdefaults⟩ := Query.spared_selectValue h select
    exact ⟨fun _ ↦ hverb, hlimit.trans bounding.symm,
      fun given hgiven ↦ by rw [hdefaults, hgiven continues, defaulting],
      fun _ _ ↦ .inr (by rw [hlimit]; rfl)⟩
  cases call with
  | sibling name =>
    obtain ⟨table, rfl⟩ := Query.exists_of_sibling done
    exact ⟨fun h ↦ Bool.noConfusion h, rfl, fun _ _ ↦ rfl, fun _ h ↦ Bool.noConfusion h⟩
  | json =>
    cases done
    exact ⟨fun h ↦ Bool.noConfusion h, rfl, fun _ _ ↦ rfl, fun h ↦ Bool.noConfusion h⟩
  | limit number =>
    cases done
    exact ⟨fun _ ↦ select, rfl, fun _ h ↦ h rfl, fun _ _ ↦ .inr rfl⟩
  | defaults data =>
    obtain ⟨-, rfl⟩ := Query.defaults_eq_ok.1 done
    refine ⟨fun _ ↦ select, rfl, fun given h ↦ ?_, fun _ h ↦ .inl ⟨rfl, h⟩⟩
    simp only [defaulting, Payload.layered_append_singleton, Query.modify, h rfl]
  | get | getOptional => exact hvalue done rfl rfl fun _ ↦ rfl
  | count | countColumn =>
    have frames := frames_apply done rfl
    exact ⟨fun _ ↦ frames.verb ▸ select, frames.limit rfl,
      fun _ h ↦ (frames.defaults rfl).trans (h rfl), fun h ↦ Bool.noConfusion h⟩
  | take | takeOptional | rows | findBy | findByOptional =>
    cases done
    exact Query.Spares.carries ⟨rfl, rfl, rfl, fun h ↦ by cases h⟩ select rfl rfl fun _ ↦ rfl
  | all =>
    cases done
    exact (Query.Spares.all query).carries select rfl rfl fun _ ↦ rfl
  | pluck =>
    obtain ⟨_, _, rfl⟩ := Query.selectSingle_eq_ok.1 done
    exact Query.Spares.carries ⟨rfl, rfl, rfl, fun h ↦ by cases h⟩ select rfl rfl fun _ ↦ rfl
  | find | findOptional =>
    have frames := frames_apply done rfl
    obtain ⟨found, _, rfl⟩ := map_eq_ok.1 done
    exact (frames.spares rfl rfl fun h ↦ by cases h).carries select rfl rfl fun _ ↦ rfl
  | insert | insertMany | insertRaw | insertFrom | ignoreConflict | mergeConflict | setConflict
  | delete | truncate | describe | copy =>
    exact absurd select (becomes_apply done rfl).verb_ne_select
  | update =>
    obtain ⟨_, hverb⟩ := Query.exists_verb_update done
    cases select.symm.trans hverb
  | updateRaw | increment | decrement =>
    obtain ⟨_, hverb⟩ := Query.exists_verb_pushUpdate done
    cases select.symm.trans hverb
  | orCreate => exact (Query.Spares.orCreate done).carries select rfl rfl fun _ ↦ rfl
  | upsert => exact (Query.Spares.upsert done select).carries select rfl rfl fun _ ↦ rfl
  | _ =>
    have frames := frames_apply done rfl
    have spares := frames.spares rfl rfl fun h ↦ frames.shape rfl ▸ h
    exact spares.carries select rfl rfl fun _ ↦ rfl

theorem isSome_bounding {bound : Option Int} (h : bound.isSome) (continues : call.continues) :
    (call.bounding bound).isSome := by
  cases call <;> first | exact h | rfl | cases continues

end Call

/-! ## Runs -/

namespace Query

/-- What chains of calls start from: all rows of a table, or a fragment. -/
inductive IsNew : Query → Prop
  | ofTable (table : Table) (catalog : Option Catalog) (log : Option LogSettings) :
      IsNew ⟨.ofTable table, catalog, log⟩
  | ofRaw (fragment : Fragment) : IsNew (.ofRaw fragment)

/-- What a query, as long as it is a selection, remembers from the calls that led to it. -/
structure Carried (query : Query) (bound : Option Int) (given : List Payload) : Prop where
  limit : query.clauses.verb = .select → query.clauses.limit = bound
  defaults : query.clauses.verb = .select → query.clauses.defaults = Payload.layered given

variable {query next start : Query} {calls : List Call} {bound : Option Int}
  {given : List Payload}

/-- A run goes on where its first call led to. -/
theorem foldlM_apply_cons {call : Call} (done : call.apply query = .ok next) :
    (call :: calls).foldlM Call.apply query = calls.foldlM Call.apply next := by
  rw [List.foldlM_cons, done]
  rfl

theorem IsNew.carried (new : start.IsNew) : start.Carried none [] := by
  cases new <;> exact ⟨fun _ ↦ rfl, fun _ ↦ rfl⟩

theorem Carried.apply {call : Call} (carried : query.Carried bound given)
    (done : call.apply query = .ok next) :
    next.Carried (call.bounding bound) (call.defaulting given) := by
  refine ⟨fun select ↦ ?_, fun select ↦ ?_⟩
  · have carries := Call.carries_apply done select
    rw [carries.limit]
    cases hcontinues : call.continues with
    | true => rw [carried.limit (carries.verb hcontinues)]
    | false => cases call <;> first | rfl | cases hcontinues
  · have carries := Call.carries_apply done select
    exact carries.defaults given fun hcontinues ↦ carried.defaults (carries.verb hcontinues)

/-- What is carried after a chain of calls is computed call by call. -/
theorem Carried.foldlM (carried : start.Carried bound given)
    (built : calls.foldlM Call.apply start = .ok query) :
    query.Carried (calls.foldl Call.bounding bound) (calls.foldl Call.defaulting given) := by
  induction calls generalizing start bound given with
  | nil =>
    cases built
    exact carried
  | cons call rest ih =>
    obtain ⟨next, hnext, hrest⟩ := bind_eq_ok.1 built
    exact ih (carried.apply hnext) hrest

/-- A selection that hands back a value of a row asks for a number of rows, unless calls that
aggregate led to it. -/
theorem isSome_limit (new : start.IsNew) (built : calls.foldlM Call.apply start = .ok query)
    (reading : ∀ call ∈ calls, call.aggregates = false) (select : query.clauses.verb = .select)
    (value : query.clauses.shape.isValue) : query.clauses.limit.isSome := by
  have hrun {start : Query} {calls : List Call}
      (h : start.clauses.verb = .select → start.clauses.shape.isValue → start.clauses.limit.isSome)
      (built : calls.foldlM Call.apply start = .ok query)
      (reading : ∀ call ∈ calls, call.aggregates = false) : query.clauses.limit.isSome := by
    induction calls generalizing start with
    | nil =>
      cases built
      exact h select value
    | cons call rest ih =>
      obtain ⟨next, hnext, hrest⟩ := bind_eq_ok.1 built
      rw [List.forall_mem_cons] at reading
      refine ih (fun hselect hvalue ↦ ?_) hrest reading.2
      have carries := Call.carries_apply hnext hselect
      rcases carries.value reading.1 hvalue with ⟨hcontinues, hbefore⟩ | hset
      · rw [carries.limit]
        exact Call.isSome_bounding (h (carries.verb hcontinues) hbefore) hcontinues
      · exact hset
  refine hrun (fun _ h ↦ ?_) built reading
  cases new <;> cases h

end Query

end SqlComposer
