import SqlComposer.Proofs.Call.MethodResults

/-!
# What calls leave alone

Most calls are about one clause of a statement and leave the others alone. The calls that are about
more than a clause fall into four kinds: some start another query, some make another statement of
the one there is, some add to an update, and some ask for a row in place of the query. What a call
of the first sort leaves alone, and which statements a call makes of another, is found out once for
every call; what is true behind all of them follows from that.
-/

namespace SqlComposer

namespace Hooks

instance : Append Hooks where
  append hooks later :=
    ⟨hooks.beforeInsert ++ later.beforeInsert, hooks.afterInsert ++ later.afterInsert,
      hooks.beforeUpdate ++ later.beforeUpdate, hooks.afterUpdate ++ later.afterUpdate⟩

theorem append_eq (hooks later : Hooks) : hooks ++ later =
    ⟨hooks.beforeInsert ++ later.beforeInsert, hooks.afterInsert ++ later.afterInsert,
      hooks.beforeUpdate ++ later.beforeUpdate, hooks.afterUpdate ++ later.afterUpdate⟩ := rfl

@[simp]
theorem append_none (hooks : Hooks) : hooks ++ none = hooks := by
  simp [append_eq, none]

theorem append_assoc (hooks later last : Hooks) :
    hooks ++ later ++ last = hooks ++ (later ++ last) := by
  simp [append_eq]

end Hooks

/-! ## Kinds of calls -/

namespace Call

/-- Whether a call goes on with the query it is made on, instead of starting another one. -/
def continues : Call → Bool
  | json | sibling _ => false
  | _ => true

/-- Whether a call makes another statement of the one there is. -/
def restates : Call → Bool
  | insert _ | insertMany _ | insertRaw _ _ | insertFrom _ _ | ignoreConflict _ | mergeConflict _ _
  | setConflict _ _ | delete | truncate _ | describe _ | copy _ => true
  | _ => false

/-- Whether a call asks for a row in place of the query. -/
def replaces : Call → Bool
  | orCreate _ | upsert _ _ => true
  | _ => false

/-- Whether a call starts another query, turns it into another statement or changes what runs around
it. -/
def turns : Call → Bool
  | sibling _ | json | insert _ | insertMany _ | insertRaw _ _ | insertFrom _ _ | ignoreConflict _
  | mergeConflict _ _ | setConflict _ _ | update _ | updateRaw _ | increment _ _ | decrement _ _
  | orCreate _ | upsert _ _ | delete | truncate _ | describe _ | copy _ => true
  | _ => false

/-- Whether a call gives a query something else to read from. -/
def redirects : Call → Bool
  | fromQuery _ _ | fromRaw _ => true
  | _ => false

def selects : Call → Bool
  | pluck _ | get _ | getOptional _ | select _ | selectAs _ _ | selectRaw _ _ | selectQuery _ _
  | selectAll | count | countColumn _ | selectOver _ _ _ _ | selectJson _ _
  | selectJsonPath _ _ _ => true
  | _ => false

/-- Whether a call says which rows are meant. -/
def selectsRows : Call → Bool
  | filter _ | orFilter _ | filterNot _ | filterJson _ | orFilterJson _ | filterHasRow _
  | filterHasNoRow _ | find _ | findOptional _ | findBy _ | findByOptional _ => true
  | _ => false

/-- Whether a call means every row of a table. -/
def meansAll : Call → Bool
  | all => true
  | _ => false

/-- Whether a call says how many rows are meant. -/
def bounds : Call → Bool
  | limit _ | get _ | getOptional _ => true
  | _ => false

/-- Whether a call says in what form results are handed back. -/
def shapes : Call → Bool
  | take | takeOptional | rows | all | pluck _ | get _ | getOptional _ | count | countColumn _
  | find _ | findOptional _ | findBy _ | findByOptional _ => true
  | _ => false

/-- Whether a call says what columns without a value are given. -/
def presets : Call → Bool
  | defaults _ => true
  | _ => false

/-- The hooks that a call registers. -/
def registers : Call → Hooks
  | beforeInsert hook => { Hooks.none with beforeInsert := [hook] }
  | afterInsert hook => { Hooks.none with afterInsert := [hook] }
  | beforeUpdate hook => { Hooks.none with beforeUpdate := [hook] }
  | afterUpdate hook => { Hooks.none with afterUpdate := [hook] }
  | _ => .none

/-- The way of logging that a call leads to. -/
def logging (log : Option LogSettings) : Call → Option LogSettings
  | .logged settings => some settings
  | _ => log

/-! ## Calls about a clause -/

/-- What a call about a clause makes of a query: it goes on with the statement and with what runs
around it, and leaves alone the clauses that it is not about. -/
structure Frames (call : Call) (query next : Query) : Prop where
  table : next.clauses.table = query.clauses.table
  verb : next.clauses.verb = query.clauses.verb
  related : next.clauses.related = query.clauses.related
  readBack : next.clauses.readBack = query.clauses.readBack
  inTransaction : next.clauses.inTransaction = query.clauses.inTransaction
  fallback : next.clauses.fallback = query.clauses.fallback
  hooks : next.clauses.hooks = query.clauses.hooks ++ call.registers
  log : next.log = call.logging query.log
  source : call.redirects = false → next.clauses.source = query.clauses.source
  selection : call.selects = false → next.clauses.selection = query.clauses.selection
  selectsAll : call.selects = false → next.clauses.selectsAll = query.clauses.selectsAll
  filter : call.selectsRows = false → next.clauses.filter = query.clauses.filter
  everyRow : call.meansAll = false → next.clauses.everyRow = query.clauses.everyRow
  limit : call.bounds = false → next.clauses.limit = query.clauses.limit
  defaults : call.presets = false → next.clauses.defaults = query.clauses.defaults
  shape : call.shapes = false → next.clauses.shape = query.clauses.shape

variable {call : Call} {query next : Query}

theorem frames_apply (done : call.apply query = .ok next) (stays : call.turns = false) :
    call.Frames query next := by
  cases call
  case sibling | json | insert | insertMany | insertRaw | insertFrom | ignoreConflict
    | mergeConflict | setConflict | update | updateRaw | increment | decrement | orCreate | upsert
    | delete | truncate | describe | copy => cases stays
  -- First what each call makes of the query, then a look at its clauses for all of them.
  case' order | orderBy | select | selectAs | filterJson | orFilterJson | group | havingJson
    | countColumn =>
    obtain ⟨_, _, done⟩ := bind_eq_ok.1 done
    cases done
  case' lockOf | lockOfRaw | noWait | skipLocked =>
    obtain ⟨_, _, rfl⟩ := Query.modifyLock_eq_ok.1 done
  case' pluck => obtain ⟨_, _, rfl⟩ := Query.selectSingle_eq_ok.1 done
  case' get | getOptional => obtain ⟨_, _, rfl⟩ := Query.selectValue_eq_ok.1 done
  case' distinctOn => obtain ⟨_, _, _, rfl⟩ := Query.distinctOn_eq_ok.1 done
  case' selectOver => obtain ⟨_, _, _, rfl⟩ := Query.selectOver_eq_ok.1 done
  case' selectJsonPath => obtain ⟨_, rfl⟩ := Query.selectJsonPath_eq_ok.1 done
  case' defaults => obtain ⟨_, rfl⟩ := Query.defaults_eq_ok.1 done
  case' join =>
    obtain ⟨_, _, done⟩ := bind_eq_ok.1 done
    obtain ⟨_, _, done⟩ := bind_eq_ok.1 done
    cases done
  case' find | findOptional =>
    obtain ⟨found, hfound, rfl⟩ := map_eq_ok.1 done
    obtain ⟨_, _, rfl⟩ := Query.filterKey_eq_ok.1 hfound
  case' logged | as | fromQuery | fromRaw | orderRaw | limit | offset | take | takeOptional | rows
    | all | lock | selectRaw | selectQuery | selectAll | distinct | window | selectJson | filter
    | orFilter | filterNot | filterHasRow | filterHasNoRow | findBy | findByOptional | groupRaw
    | having | havingAny | havingRaw | joinOn | crossJoin | withQuery | withRaw | combine
    | combineRaw | count | beforeInsert | afterInsert | beforeUpdate | afterUpdate => cases done
  case' count | countColumn => simp only [Query.count, Query.countOf_eq]
  all_goals constructor
  all_goals first
    | rfl
    | exact fun _ ↦ rfl
    | exact fun about ↦ Bool.noConfusion about
    | exact (Hooks.append_none _).symm
    | simp [registers, Hooks.append_eq, Hooks.none, Query.beforeInsert, Query.afterInsert,
        Query.beforeUpdate, Query.afterUpdate, Query.modifyHooks, Query.modify]

/-! ## Calls that make another statement -/

end Call

/-- The statements that are made of that of a query. A selection becomes any of them, an insertion
is given another reaction to conflicts, and the description of columns takes the place of any
statement. -/
inductive Query.Becomes (query : Query) : Query → Prop
  | plans {table : Table} {payloads : List Payload} {plan : RowPlan} (many : Bool)
      (verb : query.clauses.verb = .select)
      (planned : RowPlan.ofPayloads table query.catalog.isSome payloads = .ok plan) :
      Becomes query (query.planned plan many)
  | inserts {insertion : Insertion Statement} (many : Bool) (verb : query.clauses.verb = .select)
      (source : ∀ rows, insertion.source ≠ .rows rows)
      (named : ∀ sub, insertion.source = .query sub → insertion.columns ≠ []) :
      Becomes query (query.inserting insertion many [] [])
  | settles {insertion : Insertion Statement} (conflict : Option Conflict)
      (verb : query.clauses.verb = .insert insertion) :
      Becomes query (query.modify fun clauses ↦
        { clauses with verb := .insert { insertion with conflict } })
  | deletes (verb : query.clauses.verb = .select) :
      Becomes query (query.modify fun clauses ↦
        Query.countingRows { clauses with verb := .delete })
  | truncates (options : TruncateOptions) (verb : query.clauses.verb = .select) :
      Becomes query (query.modify fun clauses ↦
        { clauses with verb := .truncate options, shape := .void })
  | describes (column : Option String) :
      Becomes query (query.modify fun clauses ↦ { clauses with
        verb := .describe column
        shape := if column.isSome then .oneOrThrow else .all })
  | copies (options : CopyOptions) (verb : query.clauses.verb = .select) :
      Becomes query (query.modify fun clauses ↦
        { clauses with verb := .copy options, shape := .rowCount })

namespace Query

variable {query next : Query}

theorem Becomes.insertRows {rows : List Payload} {many : Bool}
    (h : query.insertRows rows many = .ok next) : query.Becomes next := by
  obtain ⟨table, plan, -, hplan, -, hverb, rfl⟩ := insertRows_eq_ok.1 h
  exact .plans many hverb hplan

theorem Becomes.insertFrom {source : Query} {data : Payload}
    (h : query.insertFrom source data = .ok next) : query.Becomes next := by
  obtain ⟨table, columns, values, -, -, -, hselected, hcolumns, -, hverb, rfl⟩ :=
    insertFrom_eq_ok h
  refine .inserts false hverb nofun fun _ _ hnone ↦ hselected ?_
  have hlength := (forall₂_of_mapM hcolumns).length_eq
  rwa [(List.append_eq_nil_iff.1 hnone).1, List.length_nil, List.length_eq_zero_iff] at hlength

theorem Becomes.settle {target : ConflictTarget} {pending : PendingConflict}
    (h : query.onConflict target = .ok pending) (action : ConflictAction) :
    query.Becomes (pending.settle action) := by
  obtain ⟨insertion, hverb, rfl⟩ := onConflict_eq_ok.1 h
  exact .settles _ hverb

end Query

namespace Call

variable {call : Call} {query next : Query}

theorem becomes_apply (done : call.apply query = .ok next) (restates : call.restates) :
    query.Becomes next := by
  cases call with
  | insert => exact .insertRows done
  | insertMany => exact .insertRows (Query.insertMany_eq_ok.1 done).2
  | insertRaw =>
    obtain ⟨hverb, rfl⟩ := Query.insertRaw_eq_ok done
    exact .inserts true hverb nofun nofun
  | insertFrom => exact .insertFrom done
  | ignoreConflict =>
    obtain ⟨pending, hpending, rfl⟩ := map_eq_ok.1 done
    exact .settle hpending .ignore
  | mergeConflict target spec =>
    obtain ⟨pending, hpending, done⟩ := bind_eq_ok.1 done
    unfold PendingConflict.merge at done
    split at done <;> cases done
    exact .settle hpending (.merge spec)
  | setConflict =>
    obtain ⟨pending, hpending, done⟩ := bind_eq_ok.1 done
    simp only [PendingConflict.set, refusing_eq_ok, bind_eq_ok, pure_eq_ok] at done
    obtain ⟨_, _, _, values, _, rfl⟩ := done
    exact .settle hpending (.merge (.values values))
  | delete =>
    obtain ⟨hverb, rfl⟩ := Query.delete_eq_ok done
    exact .deletes hverb
  | truncate options =>
    obtain ⟨hverb, rfl⟩ := Query.truncate_eq_ok done
    exact .truncates options hverb
  | describe column =>
    cases Query.describe_eq_ok done
    exact .describes column
  | copy options =>
    obtain ⟨-, hverb, rfl⟩ := Query.copy_eq_ok done
    exact .copies options hverb
  | _ => cases restates

end Call
end SqlComposer
