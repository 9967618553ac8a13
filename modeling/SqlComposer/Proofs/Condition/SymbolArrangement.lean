import Mathlib.Data.List.Forall2
import SqlComposer.Proofs.Condition.PrecedenceReading

/-!
# Arranged symbols

Symbols are arranged as a formula is laid out: the parts of a group stand between connectives, and a
chain of one connective stands in parentheses within a chain of the other. An arrangement written
down is the layout of a formula, and read back it comes to what its parts come to, put together by
the connectives between them.
-/

namespace SqlComposer

namespace Joiner

/-- What parts joined at the top of a formula come to. -/
def truth : Joiner → Truth → Truth → Truth
  | or => Truth.or
  | _ => Truth.and

/-- What no parts come to. -/
def unit : Joiner → Truth
  | or => .no
  | _ => .yes

def symbol {A : Type} : Joiner → Symbol A
  | or => .or
  | _ => .and

end Joiner

/-- The symbols of a condition and what joins its parts. -/
structure Arrangement (A : Type) where
  symbols : List (Symbol A)
  joiner : Joiner

namespace Arrangement

variable {A : Type}

def enclosed (symbols : List (Symbol A)) : List (Symbol A) := .open :: symbols ++ [.close]

def within (joiner : Joiner) (arrangement : Arrangement A) : List (Symbol A) :=
  if arrangement.joiner = joiner.wraps then enclosed arrangement.symbols else arrangement.symbols

def joined (joiner : Joiner) : List (Arrangement A) → Option (Arrangement A)
  | [] => none
  | [arrangement] => some arrangement
  | arrangements =>
    some ⟨[joiner.symbol].intercalate (arrangements.map (within joiner)), joiner⟩

def negated (arrangement : Arrangement A) : Arrangement A :=
  ⟨.not :: enclosed arrangement.symbols, .atom⟩

def layout (write : A → Code) (arrangement : Arrangement A) : Layout :=
  ⟨arrangement.symbols.flatMap (Symbol.code write), arrangement.joiner⟩

def map {B : Type} (f : A → B) (arrangement : Arrangement A) : Arrangement B :=
  ⟨arrangement.symbols.map (Symbol.map f), arrangement.joiner⟩

def atoms (arrangement : Arrangement A) : List A := arrangement.symbols.filterMap Symbol.atom?

/-! ### Writing -/

variable (write : A → Code)

theorem code_enclosed (symbols : List (Symbol A)) :
    (enclosed symbols).flatMap (Symbol.code write) =
      Code.parenthesized (symbols.flatMap (Symbol.code write)) := by
  simp [enclosed, Code.parenthesized, Symbol.code]

theorem within_layout (joiner : Joiner) (arrangement : Arrangement A) :
    (arrangement.layout write).within joiner =
      (arrangement.within joiner).flatMap (Symbol.code write) := by
  unfold Layout.within within
  by_cases hwrapped : arrangement.joiner = joiner.wraps
  · rw [if_pos hwrapped, code_enclosed]
    exact if_pos hwrapped
  · rw [if_neg hwrapped]
    exact if_neg hwrapped

/-- Layouts are separated by the word of the joiner as their symbols are by the joiner. -/
theorem separated_within (joiner : Joiner) (arrangements : List (Arrangement A)) :
    Code.separated joiner.word ((arrangements.map (layout write)).map (Layout.within joiner)) =
      ([joiner.symbol].intercalate (arrangements.map (within joiner))).flatMap
        (Symbol.code write) := by
  have hsymbol : (joiner.symbol : Symbol A).code write = [.word joiner.word] := by
    cases joiner <;> rfl
  unfold Code.separated
  induction arrangements with
  | nil => rfl
  | cons first rest ih =>
    cases rest with
    | nil => simp [List.intercalate, within_layout]
    | cons second others =>
      simp only [List.map_cons, List.intercalate_cons_cons, List.flatMap_append, within_layout,
        List.flatMap_cons, List.flatMap_nil, List.append_nil, hsymbol] at ih ⊢
      rw [ih]

theorem joined_layout (joiner : Joiner) (arrangements : List (Arrangement A)) :
    Layout.joined joiner (arrangements.map (layout write)) =
      (joined joiner arrangements).map (layout write) := by
  match arrangements with
  | [] => rfl
  | [_] => rfl
  | first :: second :: rest =>
    have hcode := separated_within write joiner (first :: second :: rest)
    exact congrArg (fun code => some (Layout.mk code joiner)) hcode

theorem negated_layout (arrangement : Arrangement A) :
    (arrangement.layout write).negated = arrangement.negated.layout write := by
  have hcode := code_enclosed write arrangement.symbols
  unfold Layout.negated negated layout
  rw [List.flatMap_cons, hcode]
  rfl

theorem layout_map {B : Type} (f : B → A) (arrangement : Arrangement B) :
    (arrangement.map f).layout write = arrangement.layout fun atom ↦ write (f atom) := by
  unfold layout map
  rw [List.flatMap_map]
  congr 2
  funext symbol
  cases symbol <;> rfl

/-! ### Atoms -/

theorem atoms_map {B : Type} (f : A → B) (arrangement : Arrangement A) :
    (arrangement.map f).atoms = arrangement.atoms.map f := by
  unfold atoms map
  rw [List.filterMap_map, List.map_filterMap]
  congr 1
  funext symbol
  cases symbol <;> rfl

theorem atoms_enclosed (symbols : List (Symbol A)) :
    (enclosed symbols).filterMap Symbol.atom? = symbols.filterMap Symbol.atom? := by
  rw [enclosed, List.cons_append, List.filterMap_cons_none rfl, List.filterMap_append]
  exact List.append_nil _

theorem atoms_within (joiner : Joiner) (arrangement : Arrangement A) :
    (arrangement.within joiner).filterMap Symbol.atom? = arrangement.atoms := by
  unfold within
  split
  · exact atoms_enclosed arrangement.symbols
  · rfl

/-- A chain has the atoms of its parts in order. -/
theorem atoms_chain (joiner : Joiner) (arrangements : List (Arrangement A)) :
    ([joiner.symbol].intercalate (arrangements.map (within joiner))).filterMap Symbol.atom? =
      arrangements.flatMap atoms := by
  have hsymbol : (joiner.symbol : Symbol A).atom? = none := by cases joiner <;> rfl
  induction arrangements with
  | nil => rfl
  | cons first rest ih =>
    cases rest with
    | nil => simp [List.intercalate, atoms_within]
    | cons second others =>
      simp only [List.map_cons, List.intercalate_cons_cons, List.filterMap_append, atoms_within,
        List.filterMap_cons, hsymbol, List.filterMap_nil, List.append_nil,
        List.flatMap_cons] at ih ⊢
      rw [ih]

theorem atoms_joined (joiner : Joiner) (arrangements : List (Arrangement A)) :
    (joined joiner arrangements).elim [] atoms = arrangements.flatMap atoms := by
  match arrangements with
  | [] => rfl
  | [_] => simp [joined]
  | first :: second :: rest => exact atoms_chain joiner (first :: second :: rest)

/-! ### Reading -/

/-- What the symbols are read as when their atoms come to given values. -/
def Reads (assignment : A → Truth) (arrangement : Arrangement A) (value : Truth) : Prop :=
  ReadsAs value (arrangement.symbols.map (Symbol.map assignment)) arrangement.joiner

variable {assignment : A → Truth} {arrangement : Arrangement A} {value : Truth}

theorem Reads.map {B : Type} {f : A → B} {assignment : B → Truth}
    (h : arrangement.Reads (fun atom ↦ assignment (f atom)) value) :
    (arrangement.map f).Reads assignment value := by
  have hsymbols : (arrangement.symbols.map (Symbol.map f)).map (Symbol.map assignment) =
      arrangement.symbols.map (Symbol.map fun atom ↦ assignment (f atom)) := by
    rw [List.map_map]
    congr 1
    funext symbol
    cases symbol <;> rfl
  unfold Reads Arrangement.map
  rw [hsymbols]
  exact h

theorem Reads.enclosed (h : arrangement.Reads assignment value) :
    ReadsAs value ((enclosed arrangement.symbols).map (Symbol.map assignment)) .atom := by
  have hclosed := (ReadsAs.weaken h).enclosed
  unfold Arrangement.enclosed
  rw [List.map_append, List.map_cons]
  exact hclosed

theorem Reads.negated (h : arrangement.Reads assignment value) :
    arrangement.negated.Reads assignment value.not := h.enclosed.negated

/-- A chain of the other kind is kept together by parentheses; parts of any other kind may stand as
they are. -/
theorem Reads.within {joiner : Joiner} (h : arrangement.Reads assignment value)
    (chain : joiner ≠ .atom) :
    ReadsAs value ((arrangement.within joiner).map (Symbol.map assignment)) joiner := by
  have hclosed := h.enclosed
  obtain ⟨symbols, inner⟩ := arrangement
  cases joiner with
  | atom => exact absurd rfl chain
  | and =>
    cases inner with
    | or => exact hclosed.conjuncts
    | and => exact h
    | atom => exact ReadsAs.conjuncts h
  | or =>
    cases inner with
    | and => exact hclosed.weaken
    | or => exact h
    | atom => exact ReadsAs.weaken h

/-- Parts joined by a connective are read as a chain of their values. -/
theorem reads_chain {joiner : Joiner} (chain : joiner ≠ .atom) {first : Arrangement A}
    {rest : List (Arrangement A)} {values : List Truth} (hfirst : first.Reads assignment value)
    (hrest : List.Forall₂ (Reads assignment) rest values) :
    ReadsAs ((value :: values).foldr joiner.truth joiner.unit)
      (([joiner.symbol].intercalate ((first :: rest).map (within joiner))).map
        (Symbol.map assignment)) joiner := by
  induction hrest generalizing first value with
  | nil =>
    have hunit : joiner.truth value joiner.unit = value := by
      cases joiner <;> simp [Joiner.truth, Joiner.unit]
    rw [List.foldr_cons, List.foldr_nil, hunit, List.map_cons, List.map_nil,
      List.intercalate_singleton]
    exact hfirst.within chain
  | @cons second next others values hsecond _ ih =>
    have hothers := ih hsecond
    have hhead := hfirst.within chain
    rw [List.map_cons, List.map_cons, List.intercalate_cons_cons, List.map_append, List.map_append,
      List.foldr_cons, List.append_assoc]
    cases joiner with
    | atom => exact absurd rfl chain
    | and => exact hhead.and hothers
    | or => exact hhead.or hothers

/-- A joined arrangement reads as the value of its parts under the joiner. -/
theorem reads_joined {joiner : Joiner} (chain : joiner ≠ .atom)
    {arrangements : List (Arrangement A)} {values : List Truth} (nonempty : arrangements ≠ [])
    (h : List.Forall₂ (Reads assignment) arrangements values) :
    ∃ arrangement, joined joiner arrangements = some arrangement ∧
      arrangement.Reads assignment (values.foldr joiner.truth joiner.unit) := by
  cases h with
  | nil => exact absurd rfl nonempty
  | @cons first value rest values hfirst hrest =>
    cases hrest with
    | nil =>
      refine ⟨first, rfl, ?_⟩
      have hunit : joiner.truth value joiner.unit = value := by
        cases joiner <;> simp [Joiner.truth, Joiner.unit]
      rwa [List.foldr_cons, List.foldr_nil, hunit]
    | cons hsecond hothers => exact ⟨_, rfl, reads_chain chain hfirst (.cons hsecond hothers)⟩

end Arrangement

end SqlComposer
