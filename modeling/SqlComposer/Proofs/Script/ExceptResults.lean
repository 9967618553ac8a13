import Mathlib.Data.List.Forall2
import SqlComposer.Error

/-!
# Computations that may fail

What a computation that may fail went through when it came to a result.
-/

namespace SqlComposer

variable {ε α β : Type}

@[simp]
theorem pure_eq_ok {a b : α} : (pure a : Except ε α) = .ok b ↔ a = b := by
  simp [pure, Except.pure]

@[simp]
theorem throw_ne_ok {e : ε} {b : α} : (throw e : Except ε α) ≠ .ok b := by
  simp [throw, throwThe, MonadExceptOf.throw]

theorem bind_eq_ok {result : Except ε α} {next : α → Except ε β} {b : β} :
    result >>= next = .ok b ↔ ∃ a, result = .ok a ∧ next a = .ok b := by
  cases result <;> simp [bind, Except.bind]

/-- A computation that refuses under a condition succeeds if the condition does not hold and what
follows succeeds. -/
theorem refusing_eq_ok {condition : Prop} [Decidable condition] {e : ε} {next : α → Except ε β}
    {rest : Except ε β} {b : β} :
    (if condition then throw e >>= next else rest) = .ok b ↔ ¬condition ∧ rest = .ok b := by
  split
  · rename_i hrefused
    simp [bind_eq_ok, hrefused]
  · rename_i haccepted
    simp [haccepted]

/-- What is left out for an empty list comes to nothing then, and else to what is made of the list. -/
theorem omitting_eq_ok {γ : Type} {items : List γ} {omitted b : β} {result : Except ε α}
    {f : α → β} :
    (if items.isEmpty then .ok omitted else do return f (← result)) = .ok b ↔
      items = [] ∧ omitted = b ∨ items ≠ [] ∧ ∃ a, result = .ok a ∧ f a = b := by
  cases items with
  | nil => simp
  | cons first rest =>
    rw [List.isEmpty_cons, if_neg Bool.false_ne_true, bind_eq_ok]
    simp only [pure_eq_ok, reduceCtorEq, false_and, false_or, ne_eq, not_false_eq_true, true_and]

theorem map_eq_ok {result : Except ε α} {f : α → β} {b : β} :
    result.map f = .ok b ↔ ∃ a, result = .ok a ∧ f a = b := by
  cases result <;> simp [Except.map]

/-- Going through a list succeeds if every step does, and the results are those of the steps. -/
theorem mapM_eq_ok_cons {f : α → Except ε β} {a : α} {rest : List α} {results : List β} :
    (a :: rest).mapM f = .ok results ↔
      ∃ b others, f a = .ok b ∧ rest.mapM f = .ok others ∧ results = b :: others := by
  simp only [List.mapM_cons, bind_eq_ok, pure_eq_ok]
  constructor
  · rintro ⟨b, hb, others, hothers, rfl⟩
    exact ⟨b, others, hb, hothers, rfl⟩
  · rintro ⟨b, others, hb, hothers, rfl⟩
    exact ⟨b, hb, others, hothers, rfl⟩

theorem exists_of_mem_results {f : α → Except ε β} {items : List α} {results : List β}
    (h : items.mapM f = .ok results) {b : β} (hb : b ∈ results) : ∃ a ∈ items, f a = .ok b := by
  induction items generalizing results with
  | nil =>
    rw [List.mapM_nil, pure_eq_ok] at h
    simp [← h] at hb
  | cons item rest ih =>
    obtain ⟨first, others, hfirst, hothers, rfl⟩ := mapM_eq_ok_cons.1 h
    rcases List.mem_cons.1 hb with rfl | hb
    · exact ⟨item, List.mem_cons_self, hfirst⟩
    · obtain ⟨a, ha, hab⟩ := ih hothers hb
      exact ⟨a, List.mem_cons_of_mem item ha, hab⟩

theorem exists_result_of_mem {f : α → Except ε β} {items : List α} {results : List β}
    (h : items.mapM f = .ok results) {a : α} (ha : a ∈ items) : ∃ b ∈ results, f a = .ok b := by
  induction items generalizing results with
  | nil => simp at ha
  | cons item rest ih =>
    obtain ⟨first, others, hfirst, hothers, rfl⟩ := mapM_eq_ok_cons.1 h
    rcases List.mem_cons.1 ha with rfl | ha
    · exact ⟨first, List.mem_cons_self, hfirst⟩
    · obtain ⟨b, hb, hab⟩ := ih hothers ha
      exact ⟨b, List.mem_cons_of_mem first hb, hab⟩

/-- Going through a list relates every item to its result. -/
theorem forall₂_of_mapM {f : α → Except ε β} {items : List α} {results : List β}
    (h : items.mapM f = .ok results) : List.Forall₂ (fun a b ↦ f a = .ok b) items results := by
  induction items generalizing results with
  | nil =>
    rw [List.mapM_nil, pure_eq_ok] at h
    subst h
    exact .nil
  | cons item rest ih =>
    obtain ⟨first, others, hfirst, hothers, rfl⟩ := mapM_eq_ok_cons.1 h
    exact .cons hfirst (ih hothers)

/-- Going through a list leads to the images of its items exactly if every step does. -/
theorem mapM_eq_ok_map_iff {f : α → Except ε β} {g : α → β} {items : List α} :
    items.mapM f = .ok (items.map g) ↔ ∀ item ∈ items, f item = .ok (g item) := by
  induction items with
  | nil => simp
  | cons item rest ih =>
    rw [List.forall_mem_cons, ← ih, List.map_cons, mapM_eq_ok_cons]
    constructor
    · rintro ⟨first, others, hfirst, hothers, hsame⟩
      obtain ⟨rfl, rfl⟩ := List.cons.inj hsame
      exact ⟨hfirst, hothers⟩
    · intro ⟨hfirst, hrest⟩
      exact ⟨g item, rest.map g, hfirst, hrest, rfl⟩

theorem exists_of_forall₂ {relation : α → β → Prop} {items : List α} {others : List β}
    (h : List.Forall₂ relation items others) {other : β} (mem : other ∈ others) :
    ∃ item ∈ items, relation item other := by
  induction h with
  | nil => cases mem
  | cons hfirst _ ih =>
    rcases List.mem_cons.1 mem with rfl | mem
    · exact ⟨_, List.mem_cons_self, hfirst⟩
    · obtain ⟨item, hitem, hother⟩ := ih mem
      exact ⟨item, List.mem_cons_of_mem _ hitem, hother⟩

/-- What an item is related to stands in the same place. -/
theorem exists_getElem?_of_forall₂ {relation : α → β → Prop} {items : List α} {others : List β}
    (h : List.Forall₂ relation items others) {index : Nat} {item : α}
    (held : items[index]? = some item) :
    ∃ other, others[index]? = some other ∧ relation item other := by
  induction h generalizing index with
  | nil => cases held
  | cons hfirst _ ih =>
    cases index with
    | zero =>
      cases held
      exact ⟨_, rfl, hfirst⟩
    | succ index => exact ih held

/-- A list can be gone through if every step succeeds. -/
theorem exists_mapM_eq_ok {f : α → Except ε β} {items : List α}
    (h : ∀ item ∈ items, ∃ result, f item = .ok result) :
    ∃ results, items.mapM f = .ok results := by
  induction items with
  | nil => exact ⟨[], rfl⟩
  | cons item rest ih =>
    rw [List.forall_mem_cons] at h
    obtain ⟨first, hfirst⟩ := h.1
    obtain ⟨others, hothers⟩ := ih h.2
    exact ⟨first :: others, mapM_eq_ok_cons.2 ⟨first, others, hfirst, hothers, rfl⟩⟩

end SqlComposer
