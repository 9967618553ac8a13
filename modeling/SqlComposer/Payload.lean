import SqlComposer.Fragment
import SqlComposer.Schema.Table

/-!
# Payloads

A payload is what an insert or an update is given: keys with values, in the order in which they were
first set. A key that is not set is left out of the statement, a key set to null writes null. A key
may also name a relation and hold the rows to be created through it. However a payload is built, it
holds every key once.
-/

namespace SqlComposer

mutual

/-- Distinct keys with what is written under them. -/
structure Payload where
  keys : List String
  distinct : keys.Nodup
  entryAt : Fin keys.length → Entry

inductive Entry where
  | value (term : Term)
  | create (data : Payload)
  | createMany (rows : List Payload)

end

/-! ## Keys -/

section Keys

variable {key : String} {entry : Entry} {entries : List (String × Entry)}

theorem putEntry_of_not_mem (h : key ∉ entries.map Prod.fst) :
    putEntry key entry entries = entries ++ [(key, entry)] := by
  induction entries with
  | nil => rfl
  | cons other rest ih =>
    rw [List.map_cons, List.mem_cons, not_or] at h
    rw [putEntry, if_neg (Ne.symm h.1), ih h.2, List.cons_append]

theorem map_fst_putEntry_of_mem (h : key ∈ entries.map Prod.fst) :
    (putEntry key entry entries).map Prod.fst = entries.map Prod.fst := by
  induction entries with
  | nil => cases h
  | cons other rest ih =>
    unfold putEntry
    split
    · rename_i hkey
      simp [hkey]
    · rename_i hkey
      rw [List.map_cons, List.mem_cons] at h
      rw [List.map_cons, List.map_cons, ih (h.resolve_left (Ne.symm hkey))]

/-- Setting a key leaves keys distinct. -/
theorem nodup_putEntry (h : (entries.map Prod.fst).Nodup) :
    ((putEntry key entry entries).map Prod.fst).Nodup := by
  by_cases hkey : key ∈ entries.map Prod.fst
  · rwa [map_fst_putEntry_of_mem hkey]
  · rw [putEntry_of_not_mem hkey, List.map_append, List.nodup_append]
    refine ⟨h, by simp, fun name hname other hother hsame => hkey ?_⟩
    rw [List.map_singleton, List.mem_singleton] at hother
    rwa [hsame, hother] at hname

end Keys

namespace Payload

def entries (payload : Payload) : List (String × Entry) :=
  List.ofFn fun index => (payload.keys.get index, payload.entryAt index)

/-- The payload of entries under distinct keys. -/
def ofEntries (entries : List (String × Entry)) (distinct : (entries.map Prod.fst).Nodup) :
    Payload where
  keys := entries.map Prod.fst
  distinct := distinct
  entryAt index := (entries.get (index.cast (List.length_map Prod.fst))).2

@[simp]
theorem entries_ofEntries {entries : List (String × Entry)}
    (distinct : (entries.map Prod.fst).Nodup) : (ofEntries entries distinct).entries = entries := by
  apply List.ext_getElem <;> simp [Payload.entries, ofEntries]

@[simp]
theorem map_fst_entries (payload : Payload) : payload.entries.map Prod.fst = payload.keys := by
  apply List.ext_getElem <;> simp [entries]

theorem nodup_entries (payload : Payload) : (payload.entries.map Prod.fst).Nodup :=
  payload.map_fst_entries ▸ payload.distinct

theorem eq_of_entries_eq {payload other : Payload} (h : payload.entries = other.entries) :
    payload = other := by
  obtain ⟨keys, _, entryAt⟩ := payload
  obtain ⟨others, _, otherAt⟩ := other
  have hkeys : keys = others := by
    have hmapped := congrArg (List.map Prod.fst) h
    rwa [map_fst_entries, map_fst_entries] at hmapped
  subst hkeys
  have hentries : entryAt = otherAt := funext fun index => by
    have hat := congrArg (fun entries => entries[index.val]?) h
    simpa [entries] using hat
  rw [hentries]

def empty : Payload := ofEntries [] List.nodup_nil

@[simp]
theorem entries_empty : empty.entries = [] := rfl

def size (payload : Payload) : Nat := payload.keys.length

/-- Sets a key to an entry, in place if it was set before. -/
def put (payload : Payload) (key : String) (entry : Entry) : Payload :=
  ofEntries (putEntry key entry payload.entries) (nodup_putEntry payload.nodup_entries)

def set (payload : Payload) (key : String) (term : Term) : Payload :=
  payload.put key (.value term)

/-- Sets a key if there is a value for it. -/
def setOption (payload : Payload) (key : String) (term : Option Term) : Payload :=
  match term with
  | some term => payload.set key term
  | none => payload

def setRaw (payload : Payload) (key : String) (fragment : Fragment) : Payload :=
  payload.set key (.raw fragment)

/-- The payload of a JSON object; nested lists and objects stay JSON. -/
def ofJson : Json → Except Error Payload
  | .object members => .ok <|
      members.foldl (fun payload (key, value) => payload.set key (.literal (.ofJson value))) empty
  | _ => .error .dataNotAnObject

/-- What an entry holds under a key, if it is a plain value. -/
def termAt? (key : String) : String × Entry → Option Term
  | (other, .value term) => if other = key then some term else none
  | _ => none

def get? (payload : Payload) (key : String) : Option Term :=
  payload.entries.findSome? (termAt? key)

/-- The payload laid over defaults: the keys of the defaults come first and are overridden in
place. -/
def onto (payload defaults : Payload) : Payload :=
  payload.entries.foldl (fun merged (key, entry) => merged.put key entry) defaults

def isNested : Entry → Bool
  | .value _ => false
  | _ => true

def hasNested (payload : Payload) : Bool := payload.entries.any fun (_, entry) => isNested entry

end Payload

/-- A term as it is written to a column: literals are prepared for the column's type. -/
def Table.encodeTerm (table : Table) (key : String) : Term → Term
  | .literal value => .literal (table.encode key value)
  | term => term

/-- The plain values for the columns of a table, prepared for their types. Keys that the table does
not take are dropped; rows to be created are refused, `purpose` saying what they are refused for. -/
def Payload.columnValues (payload : Payload) (table : Table) (purpose : String) :
    Except Error (List (String × Term)) := do
  let values ← payload.entries.mapM fun (key, entry) =>
    match entry with
    | .value term =>
      .ok (if table.takesKey key then some (key, table.encodeTerm key term) else none)
    | _ => .error (.nestedWriteUnsupported key purpose)
  return values.filterMap id

end SqlComposer
