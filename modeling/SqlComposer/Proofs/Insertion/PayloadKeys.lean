import Mathlib.Data.List.Nodup
import SqlComposer.Query.Related

/-!
# Keys of payloads

Setting a key of a payload replaces what it held or adds it at the end. A payload is the same laid
over nothing, and setting a key of it that holds a plain value leaves the insertions that it asks
for as they are.
-/

namespace SqlComposer

variable {key : String} {entry : Entry} {entries : List (String × Entry)}

/-! ## One key -/

theorem mem_putEntry {pair : String × Entry} (h : pair ∈ putEntry key entry entries) :
    pair = (key, entry) ∨ pair ∈ entries := by
  induction entries with
  | nil => exact .inl (by simpa [putEntry] using h)
  | cons other rest ih =>
    unfold putEntry at h
    split at h
    · rcases List.mem_cons.1 h with rfl | h
      · exact .inl rfl
      · exact .inr (List.mem_cons_of_mem other h)
    · rcases List.mem_cons.1 h with rfl | h
      · exact .inr List.mem_cons_self
      · exact (ih h).imp_right (List.mem_cons_of_mem other)

theorem mem_putEntry_self : (key, entry) ∈ putEntry key entry entries := by
  induction entries with
  | nil => exact List.mem_cons_self
  | cons other rest ih =>
    unfold putEntry
    split
    · exact List.mem_cons_self
    · exact List.mem_cons_of_mem other ih

/-- An entry put in the place of one that asks for no insertion adds its own. -/
theorem entriesWrites_putEntry (h : ∀ pair ∈ entries, pair.1 = key → pair.2.writes = 0) :
    Payload.entriesWrites (putEntry key entry entries) =
      Payload.entriesWrites entries + entry.writes := by
  induction entries with
  | nil => simp [putEntry, Payload.entriesWrites]
  | cons other rest ih =>
    rw [List.forall_mem_cons] at h
    unfold putEntry
    split
    · rename_i hkey
      simp only [Payload.entriesWrites, h.1 hkey]
      omega
    · simp only [Payload.entriesWrites, ih h.2]
      omega

/-! ## Payloads -/

namespace Payload

variable {payload defaults : Payload}

theorem mem_entries_put {pair : String × Entry} (h : pair ∈ (payload.put key entry).entries) :
    pair = (key, entry) ∨ pair ∈ payload.entries := by
  rw [put, entries_ofEntries] at h
  exact mem_putEntry h

theorem entries_set (payload : Payload) (key : String) (term : Term) :
    (payload.set key term).entries = putEntry key (.value term) payload.entries :=
  entries_ofEntries _

theorem mem_entries_set (payload : Payload) (key : String) (term : Term) :
    (key, .value term) ∈ (payload.set key term).entries := by
  rw [entries_set]
  exact mem_putEntry_self

/-- A payload is the same laid over nothing. -/
@[simp]
theorem onto_empty (payload : Payload) : payload.onto .empty = payload := by
  have hfrom (merged : Payload) {rest : List (String × Entry)}
      (hdistinct : (merged.entries.map Prod.fst ++ rest.map Prod.fst).Nodup) :
      (rest.foldl (fun merged pair ↦ merged.put pair.1 pair.2) merged).entries =
        merged.entries ++ rest := by
    induction rest generalizing merged with
    | nil => rw [List.foldl_nil, List.append_nil]
    | cons pair rest ih =>
      have hnew : pair.1 ∉ merged.entries.map Prod.fst := fun hold ↦
        List.disjoint_of_nodup_append hdistinct hold List.mem_cons_self
      have hput : (merged.put pair.1 pair.2).entries = merged.entries ++ [pair] :=
        (entries_ofEntries _).trans (putEntry_of_not_mem hnew)
      rw [List.foldl_cons, ih _ (by simpa [hput] using hdistinct), hput, List.append_assoc,
        List.singleton_append]
  exact eq_of_entries_eq (hfrom .empty payload.nodup_entries)

/-- Setting a key that holds no rows to be created asks for no other insertions. -/
theorem nestedWrites_set (h : ∀ pair ∈ payload.entries, pair.1 = key → pair.2.writes = 0)
    (term : Term) : (payload.set key term).nestedWrites = payload.nestedWrites := by
  rw [nestedWrites_eq, nestedWrites_eq, entries_set]
  exact entriesWrites_putEntry h

end Payload

end SqlComposer
