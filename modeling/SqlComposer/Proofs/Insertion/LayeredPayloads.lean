import Mathlib.Data.List.Induction
import SqlComposer.Proofs.Call.CarriedClauses
import SqlComposer.Proofs.Insertion.PayloadKeys
import SqlComposer.Proofs.Insertion.PendingCells

/-!
# Payloads laid over each other

Payloads that are laid over each other hold every key once, in the order in which the keys are first
met from the lowest payload upwards. Under a key stands what the topmost payload that has the key
holds there, whatever kind of entry it is: a row to be created takes the place of a plain value.
-/

namespace SqlComposer

variable {α β : Type} {key : String}

/-! ## Entries -/

/-- Looking up a key that was put finds its entry, any other key what it had. -/
theorem lookup_putEntry (key name : String) (entry : Entry) (entries : List (String × Entry)) :
    (putEntry key entry entries).lookup name =
      if name = key then some entry else entries.lookup name := by
  induction entries with
  | nil => grind [putEntry]
  | cons other rest ih => grind [putEntry]

/-- Putting a key adds it at the end unless it is there. -/
theorem map_fst_putEntry (key : String) (entry : Entry) (entries : List (String × Entry)) :
    (putEntry key entry entries).map Prod.fst =
      if key ∈ entries.map Prod.fst then entries.map Prod.fst
      else entries.map Prod.fst ++ [key] := by
  split
  · rename_i hold
    exact map_fst_putEntry_of_mem hold
  · rename_i hnew
    rw [putEntry_of_not_mem hnew, List.map_append]
    rfl

/-- With distinct keys every entry is found under its key. -/
theorem lookup_of_nodup {entries : List (String × Entry)} (distinct : (entries.map Prod.fst).Nodup)
    {entry : String × Entry} (mem : entry ∈ entries) : entries.lookup entry.1 = some entry.2 := by
  obtain ⟨before, after, rfl⟩ := List.append_of_mem mem
  rw [List.map_append, List.map_cons, List.nodup_middle, List.nodup_cons, List.mem_append,
    not_or] at distinct
  refine List.lookup_eq_some_iff.2 ⟨before, after, rfl, fun other hother ↦ ?_⟩
  exact bne_iff_ne.2 fun h ↦ distinct.1.1 (h ▸ List.mem_map_of_mem hother)

def putEntries (entries : List (String × Entry)) : List (String × Entry) :=
  entries.foldl (fun under entry ↦ putEntry entry.1 entry.2 under) []

theorem map_fst_putEntries (entries : List (String × Entry)) :
    (putEntries entries).map Prod.fst = (entries.map Prod.fst).eraseDups := by
  induction entries using List.reverseRecOn with
  | nil => rfl
  | append_singleton entries last ih =>
    rw [putEntries, List.foldl_append, List.foldl_cons, List.foldl_nil, ← putEntries,
      map_fst_putEntry, ih, List.map_append, List.eraseDups_append]
    by_cases hold : last.1 ∈ entries.map Prod.fst <;>
      simp [hold, List.removeAll, List.mem_eraseDups, List.eraseDups_cons]

theorem lookup_putEntries (entries : List (String × Entry)) (key : String) :
    (putEntries entries).lookup key = entries.reverse.lookup key := by
  induction entries using List.reverseRecOn with
  | nil => rfl
  | append_singleton entries last ih =>
    rw [putEntries, List.foldl_append, List.foldl_cons, List.foldl_nil, ← putEntries,
      lookup_putEntry, ih, List.reverse_append, List.reverse_singleton, List.singleton_append,
      List.lookup_cons]
    by_cases hlast : key = last.1
    · simp [hlast]
    · simp [hlast, beq_eq_false_iff_ne.2 hlast]

theorem lookup_map_snd {f : α → β} {items : List (String × α)} :
    (items.map fun item ↦ (item.1, f item.2)).lookup key = (items.lookup key).map f := by
  induction items with
  | nil => rfl
  | cons item rest ih =>
    rw [List.map_cons, List.lookup_cons, List.lookup_cons, ih]
    cases key == item.1 <;> rfl

theorem lookup_flatMap {items : List β} {f : β → List (String × α)} :
    (items.flatMap f).lookup key = items.findSome? fun item ↦ (f item).lookup key := by
  induction items with
  | nil => rfl
  | cons item rest ih =>
    rw [List.flatMap_cons, List.lookup_append, ih, List.findSome?_cons]
    cases (f item).lookup key <;> rfl

/-! ## Payloads -/

namespace Payload

/-- The entry that was given last under a key. -/
def given? (payload : Payload) (key : String) : Option Entry := payload.entries.reverse.lookup key

/-- What a row holds under a key: its own entry, and without one that of the topmost payload below
it which has one. -/
def held? (under : List Payload) (row : Payload) (key : String) : Option Entry :=
  (row.given? key).or (under.reverse.findSome? fun payload ↦ payload.given? key)

/-- The keys of a row as they are read: those of the payloads below it and then its own new ones. -/
def readKeys (under : List Payload) (row : Payload) : List String :=
  (under.flatMap keys ++ row.keys).eraseDups

theorem entries_onto (payload under : Payload) :
    (payload.onto under).entries =
      payload.entries.foldl (fun merged entry ↦ putEntry entry.1 entry.2 merged)
        under.entries := by
  have hput (merged : Payload) (entry : String × Entry) :
      putEntry entry.1 entry.2 merged.entries = (merged.put entry.1 entry.2).entries :=
    (entries_ofEntries _).symm
  exact (List.foldl_hom Payload.entries hput).symm

theorem entries_layered (payloads : List Payload) :
    (layered payloads).entries = putEntries (payloads.flatMap entries) := by
  induction payloads using List.reverseRecOn with
  | nil => rfl
  | append_singleton payloads last ih =>
    rw [layered_append_singleton, entries_onto, ih, List.flatMap_append, putEntries, putEntries,
      List.foldl_append, List.flatMap_cons, List.flatMap_nil, List.append_nil]

section Row

variable (under : List Payload) (row : Payload)

theorem keys_onto_layered : (row.onto (layered under)).keys = readKeys under row := by
  rw [← layered_append_singleton, readKeys]
  calc
    (layered (under ++ [row])).keys
      = (((under ++ [row]).flatMap entries).map Prod.fst).eraseDups := by
        rw [← map_fst_entries, entries_layered, map_fst_putEntries]
    _ = ((under ++ [row]).flatMap keys).eraseDups := by
        simp only [List.map_flatMap, map_fst_entries]
    _ = (under.flatMap keys ++ row.keys).eraseDups := by
        rw [List.flatMap_append, List.flatMap_cons, List.flatMap_nil, List.append_nil]

theorem lookup_onto_layered (key : String) :
    (row.onto (layered under)).entries.lookup key = held? under row key := by
  rw [← layered_append_singleton, held?]
  calc
    (layered (under ++ [row])).entries.lookup key
      = ((under ++ [row]).flatMap entries).reverse.lookup key := by
        rw [entries_layered, lookup_putEntries]
    _ = (row :: under.reverse).findSome? fun payload ↦ payload.given? key := by
        rw [List.reverse_flatMap, lookup_flatMap, List.reverse_append, List.reverse_singleton,
          List.singleton_append]
        rfl
    _ = (row.given? key).or (under.reverse.findSome? fun payload ↦ payload.given? key) := by
        rw [List.findSome?_cons]
        cases row.given? key <;> rfl

theorem given?_eq_lookup (key : String) : row.given? key = row.entries.lookup key := by
  have halone := lookup_onto_layered [] row key
  rw [held?, List.reverse_nil, List.findSome?_nil, Option.or_none] at halone
  exact halone.symm.trans (congrArg (fun payload ↦ payload.entries.lookup key) (onto_empty row))

end Row

theorem held?_of_mem {under : List Payload} {row : Payload} {entry : String × Entry}
    (h : entry ∈ (row.onto (layered under)).entries) :
    row.held? under entry.1 = some entry.2 := by
  rw [← lookup_onto_layered, lookup_of_nodup (nodup_entries _) h]

/-- What is picked from the results for the entries of a row can be picked key by key. -/
theorem filterMap_results {under : List Payload} {row : Payload} {comes : String × Entry → β → Prop}
    {results : List β} (pick : β → Option α) (read : String → Option α)
    (agrees : ∀ key entry result, row.held? under key = some entry → comes (key, entry) result →
      pick result = read key)
    (h : List.Forall₂ comes (row.onto (layered under)).entries results) :
    results.filterMap pick = (row.readKeys under).filterMap read := by
  have hheld : ∀ entry ∈ (row.onto (layered under)).entries,
      row.held? under entry.1 = some entry.2 := fun _ ↦ held?_of_mem
  rw [← keys_onto_layered, ← map_fst_entries]
  generalize (row.onto (layered under)).entries = entries at h hheld ⊢
  induction h with
  | nil => rfl
  | @cons entry result _ _ hresult _ ih =>
    rw [List.forall_mem_cons] at hheld
    rw [List.map_cons, List.filterMap_cons, List.filterMap_cons,
      agrees entry.1 entry.2 result hheld.1 hresult, ih hheld.2]

end Payload
end SqlComposer
