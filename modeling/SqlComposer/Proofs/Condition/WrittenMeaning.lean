import SqlComposer.Condition.Code
import SqlComposer.Proofs.Condition.SymbolArrangement
import SqlComposer.Proofs.Script.ExceptResults

/-!
# The meaning of written conditions

A condition means what its comparisons, existence tests, fragments and aggregates come to, put
together by AND, OR and NOT, once its empty groups and the negations of empty conditions are left
out. Writing it down and parsing the text again, each of these atoms read as one symbol, gives an
expression of the same value whatever the atoms come to. A filter is written like the condition that
it stands for, and what is written to be joined to other conditions keeps its value among them.
-/

namespace SqlComposer

/-! ## Conditions without empty parts -/

namespace Condition

variable {Sub : Type}

/-- A group of what is left of its members, unless nothing is. -/
def regrouped (group : List (Condition Sub) → Condition Sub) :
    List (Condition Sub) → Option (Condition Sub)
  | [] => none
  | kept => some (group kept)

mutual

/-- What is left of a condition without its empty groups and the negations of empty conditions. -/
def prune : Condition Sub → Option (Condition Sub)
  | .every conditions => regrouped .every (pruneAll conditions)
  | .any conditions => regrouped .any (pruneAll conditions)
  | .not condition => condition.prune.map .not
  | atom => some atom

def pruneAll : List (Condition Sub) → List (Condition Sub)
  | [] => []
  | condition :: rest => condition.prune.toList ++ pruneAll rest

end

mutual

/-- What a condition comes to when its atoms come to given values. -/
def truth (assignment : Condition Sub → Truth) : Condition Sub → Truth
  | .every conditions => (truths assignment conditions).foldr Truth.and .yes
  | .any conditions => (truths assignment conditions).foldr Truth.or .no
  | .not condition => (condition.truth assignment).not
  | atom => assignment atom

def truths (assignment : Condition Sub → Truth) : List (Condition Sub) → List Truth
  | [] => []
  | condition :: rest => condition.truth assignment :: truths assignment rest

end

mutual

/-- The comparisons, existence tests, fragments and aggregates of a condition, in order. -/
def atoms : Condition Sub → List (Condition Sub)
  | .every conditions | .any conditions => atomsOf conditions
  | .not condition => condition.atoms
  | atom => [atom]

def atomsOf : List (Condition Sub) → List (Condition Sub)
  | [] => []
  | condition :: rest => condition.atoms ++ atomsOf rest

end

end Condition

/-! ## Arranged conditions -/

namespace Condition

variable {Sub : Type}

mutual

/-- The symbols of a condition, with its atoms unwritten; none for an empty one. -/
def arrangement : Condition Sub → Option (Arrangement (Condition Sub))
  | .every conditions => Arrangement.joined .and (arrangements conditions)
  | .any conditions => Arrangement.joined .or (arrangements conditions)
  | .not condition => condition.arrangement.map Arrangement.negated
  | atom => some ⟨[.atom atom], .atom⟩

def arrangements : List (Condition Sub) → List (Arrangement (Condition Sub))
  | [] => []
  | condition :: rest => condition.arrangement.toList ++ arrangements rest

end

mutual

theorem atoms_arrangement (condition : Condition Sub) :
    condition.arrangement.elim [] Arrangement.atoms = condition.atoms := by
  cases condition with
  | every conditions | any conditions =>
    rw [arrangement, Arrangement.atoms_joined, atoms_arrangements conditions, atoms]
  | not condition =>
    have hcondition := atoms_arrangement condition
    rw [arrangement, atoms, ← hcondition]
    cases condition.arrangement with
    | none => rfl
    | some arranged => exact Arrangement.atoms_enclosed arranged.symbols
  | _ => rfl

theorem atoms_arrangements (conditions : List (Condition Sub)) :
    (arrangements conditions).flatMap Arrangement.atoms = atomsOf conditions := by
  match conditions with
  | [] => rfl
  | condition :: rest =>
    have hcondition := atoms_arrangement condition
    rw [arrangements, List.flatMap_append, atoms_arrangements rest, atomsOf, ← hcondition]
    cases condition.arrangement <;> simp

end

/-- What an arranged condition is read as next to the value of what is left of the condition. -/
def Agrees (assignment : Condition Sub → Truth) (arranged : Option (Arrangement (Condition Sub)))
    (kept : Option (Condition Sub)) : Prop :=
  Option.Rel (fun arrangement condition ↦ arrangement.Reads assignment (condition.truth assignment))
    arranged kept

variable (assignment : Condition Sub → Truth)

theorem truths_eq_map (conditions : List (Condition Sub)) :
    truths assignment conditions = conditions.map (truth assignment) := by
  induction conditions with
  | nil => rfl
  | cons condition rest ih => rw [truths, ih, List.map_cons]

/-- A group of conditions agrees with the arrangement that joins those of its members. -/
private theorem agrees_joined {joiner : Joiner} (chain : joiner ≠ .atom)
    {group : List (Condition Sub) → Condition Sub}
    (value : ∀ kept, (group kept).truth assignment =
      (kept.map (truth assignment)).foldr joiner.truth joiner.unit)
    {arranged : List (Arrangement (Condition Sub))} {kept : List (Condition Sub)}
    (h : List.Forall₂ (Arrangement.Reads assignment) arranged (kept.map (truth assignment))) :
    Agrees assignment (Arrangement.joined joiner arranged) (regrouped group kept) := by
  cases kept with
  | nil =>
    cases h
    exact .none
  | cons first rest =>
    have hnonempty : arranged ≠ [] := by
      rintro rfl
      cases h
    obtain ⟨arrangement, harranged, hreads⟩ := Arrangement.reads_joined chain hnonempty h
    rw [harranged]
    refine .some ?_
    rw [value]
    exact hreads

mutual

/-- An arranged condition is read as what is left of the condition. -/
theorem agrees_arrangement (condition : Condition Sub) :
    Agrees assignment condition.arrangement condition.prune := by
  cases condition with
  | every conditions =>
    refine agrees_joined assignment (by decide) (fun kept ↦ ?_) (reads_arrangements conditions)
    rw [truth, truths_eq_map]
    rfl
  | any conditions =>
    refine agrees_joined assignment (by decide) (fun kept ↦ ?_) (reads_arrangements conditions)
    rw [truth, truths_eq_map]
    rfl
  | not condition =>
    have hcondition := agrees_arrangement condition
    rw [arrangement, prune]
    revert hcondition
    cases condition.arrangement <;> cases condition.prune <;> intro hcondition <;> cases hcondition
    · exact .none
    · rename_i hreads
      exact .some hreads.negated
  | _ => exact .some (ReadsAs.atom _)

theorem reads_arrangements (conditions : List (Condition Sub)) :
    List.Forall₂ (Arrangement.Reads assignment) (arrangements conditions)
      ((pruneAll conditions).map (truth assignment)) := by
  match conditions with
  | [] => exact .nil
  | condition :: rest =>
    have hcondition := agrees_arrangement condition
    have hrest := reads_arrangements rest
    rw [arrangements, pruneAll, List.map_append]
    refine List.rel_append ?_ hrest
    revert hcondition
    cases condition.arrangement <;> cases condition.prune <;> intro hcondition <;> cases hcondition
    · exact .nil
    · rename_i hreads
      exact .cons hreads .nil

end

mutual

/-- Nothing is left of a condition exactly if it is empty. -/
theorem prune_eq_none_iff (condition : Condition Sub) :
    condition.prune = none ↔ condition.isEmpty = true := by
  have hgroup {group : List (Condition Sub) → Condition Sub} (kept : List (Condition Sub)) :
      regrouped group kept = none ↔ kept = [] := by
    cases kept <;> simp [regrouped]
  cases condition with
  | every conditions | any conditions =>
    rw [prune, hgroup, isEmpty, pruneAll_eq_nil_iff conditions]
  | not condition => rw [prune, Option.map_eq_none_iff, isEmpty, prune_eq_none_iff condition]
  | _ => simp [prune, isEmpty]

theorem pruneAll_eq_nil_iff (conditions : List (Condition Sub)) :
    pruneAll conditions = [] ↔ allEmpty conditions = true := by
  match conditions with
  | [] => simp [pruneAll, allEmpty]
  | condition :: rest =>
    rw [pruneAll, List.append_eq_nil_iff, Option.toList_eq_nil_iff, allEmpty, Bool.and_eq_true,
      prune_eq_none_iff condition, pruneAll_eq_nil_iff rest]

end

end Condition

theorem Filter.isEmpty_condition {Sub : Type} (filter : Filter Sub) :
    filter.condition.isEmpty = filter.isEmpty := by
  obtain ⟨groups⟩ := filter
  unfold condition isEmpty
  induction groups with
  | nil => rfl
  | cons group rest ih => exact congrArg (Condition.allEmpty group && ·) ih

/-! ## Written conditions -/

/-- A condition at a place whose columns without a table have a qualifier. -/
structure Placed where
  condition : Condition Written
  qualifier : Qualifier

/-- The code of a comparison, an existence test, a fragment or an aggregate at its place. -/
def Placed.code (atom : Placed) : Code :=
  match atom.condition.formula atom.qualifier with
  | .ok (.atom code) => code
  | _ => []

namespace Condition

variable {qualifier : Qualifier}

/-- A written condition laid out symbol by symbol, with every atom written at its place. -/
def layoutAt (qualifier : Qualifier) : Arrangement (Condition Written) → Layout :=
  Arrangement.layout fun atom ↦ Placed.code ⟨atom, qualifier⟩

/-- A condition written as one atom has the layout of an atom. -/
private theorem layout_atom {condition : Condition Written} {code : Code}
    (h : condition.formula qualifier = .ok (.atom code)) :
    (Formula.atom code).layout = some (layoutAt qualifier ⟨[.atom condition], .atom⟩) := by
  have hcode : Placed.code ⟨condition, qualifier⟩ = code := by simp only [Placed.code, h]
  simp [Formula.layout, layoutAt, Arrangement.layout, Symbol.code, hcode]

mutual

/-- A written condition is laid out like its symbols. -/
theorem layout_formula (condition : Condition Written) {formula : Formula}
    (h : condition.formula qualifier = .ok formula) :
    formula.layout = condition.arrangement.map (layoutAt qualifier) := by
  have hwritten := h
  cases condition with
  | every conditions | any conditions =>
    simp only [Condition.formula, bind_eq_ok, pure_eq_ok] at h
    obtain ⟨written, hmembers, rfl⟩ := h
    rw [Formula.layout, layouts_formulas conditions hmembers, arrangement]
    exact Arrangement.joined_layout _ _ _
  | not condition =>
    simp only [Condition.formula, bind_eq_ok, pure_eq_ok] at h
    obtain ⟨written, hinner, rfl⟩ := h
    rw [Formula.layout, layout_formula condition hinner, arrangement]
    cases condition.arrangement with
    | none => rfl
    | some arranged => exact congrArg some (Arrangement.negated_layout _ arranged)
  | compare column comparison operand | hasRow query | raw fragment =>
    simp only [Condition.formula, bind_eq_ok, pure_eq_ok] at h
    obtain ⟨code, _, rfl⟩ := h
    exact layout_atom hwritten
  | aggregate call comparison operand =>
    simp only [Condition.formula, bind_eq_ok, pure_eq_ok] at h
    obtain ⟨_, _, code, _, rfl⟩ := h
    exact layout_atom hwritten

/-- The layouts of written conditions are those of their arrangements. -/
theorem layouts_formulas (conditions : List (Condition Written)) {written : List Formula}
    (h : formulas qualifier conditions = .ok written) :
    Formula.layouts written = (arrangements conditions).map (layoutAt qualifier) := by
  match conditions with
  | [] =>
    simp only [formulas, Except.ok.injEq] at h
    rw [← h]
    rfl
  | condition :: rest =>
    simp only [formulas, bind_eq_ok, pure_eq_ok] at h
    obtain ⟨first, hfirst, others, hothers, rfl⟩ := h
    rw [Formula.layouts, layout_formula condition hfirst, layouts_formulas rest hothers,
      arrangements, List.map_append]
    cases condition.arrangement <;> rfl

end

end Condition

/-! ## Texts read back -/

/-- Parsing the code, each of the atoms read as one symbol in its turn, gives an expression with the
values of the meaning. -/
def Code.Means (code : Code) (atoms : List Placed) (meaning : (Placed → Truth) → Truth) : Prop :=
  ∃ symbols : List (Symbol Placed), code = symbols.flatMap (Symbol.code Placed.code) ∧
    symbols.filterMap Symbol.atom? = atoms ∧
    ∃ expr, expression? symbols = some expr ∧
      ∀ assignment, expr.value assignment = meaning assignment

/-- Symbols that are read as a meaning whatever their atoms come to. -/
theorem Arrangement.means {arrangement : Arrangement Placed} {meaning : (Placed → Truth) → Truth}
    (reads : ∀ assignment, arrangement.Reads assignment (meaning assignment)) :
    (arrangement.layout Placed.code).code.Means arrangement.atoms meaning :=
  ⟨arrangement.symbols, rfl, rfl, exists_expression fun assignment ↦ (reads assignment).parse_eq⟩

namespace Placed

def atoms (placed : Placed) : List Placed :=
  placed.condition.atoms.map fun atom ↦ ⟨atom, placed.qualifier⟩

def truth (assignment : Placed → Truth) (placed : Placed) : Truth :=
  placed.condition.truth fun atom ↦ assignment ⟨atom, placed.qualifier⟩

/-- What is left of a condition without its empty parts. -/
def prune (placed : Placed) : Option Placed :=
  placed.condition.prune.map fun kept ↦ ⟨kept, placed.qualifier⟩

def arrangement (placed : Placed) : Option (Arrangement Placed) :=
  placed.condition.arrangement.map (Arrangement.map fun atom ↦ ⟨atom, placed.qualifier⟩)

variable {placed : Placed}

theorem layout_formula {formula : Formula}
    (h : placed.condition.formula placed.qualifier = .ok formula) :
    formula.layout = placed.arrangement.map (Arrangement.layout Placed.code) := by
  rw [Condition.layout_formula placed.condition h, arrangement, Option.map_map]
  congr 1
  funext arranged
  exact (Arrangement.layout_map Placed.code _ arranged).symm

theorem arrangement_eq_none_iff :
    placed.arrangement = none ↔ placed.condition.isEmpty = true := by
  have hagrees := Condition.agrees_arrangement (fun _ ↦ .unknown) placed.condition
  rw [arrangement, Option.map_eq_none_iff, ← Condition.prune_eq_none_iff]
  revert hagrees
  cases placed.condition.arrangement <;> cases placed.condition.prune <;> intro hagrees <;>
    cases hagrees <;> simp

/-- An arranged condition is read as what is left of it, and its symbols hold its atoms. -/
theorem exists_kept {arranged : Arrangement Placed} (h : placed.arrangement = some arranged) :
    ∃ kept, placed.prune = some kept ∧ arranged.atoms = placed.atoms ∧
      ∀ assignment, arranged.Reads assignment (kept.truth assignment) := by
  obtain ⟨inner, hinner, rfl⟩ := Option.map_eq_some_iff.1 h
  have hatoms := Condition.atoms_arrangement placed.condition
  rw [hinner] at hatoms
  have hagrees (assignment : Placed → Truth) := Condition.agrees_arrangement
    (fun atom ↦ assignment ⟨atom, placed.qualifier⟩) placed.condition
  simp only [hinner] at hagrees
  cases hkept : placed.condition.prune with
  | none =>
    rw [hkept] at hagrees
    cases hagrees fun _ ↦ .unknown
  | some kept =>
    rw [hkept] at hagrees
    refine ⟨⟨kept, placed.qualifier⟩, by rw [prune, hkept]; rfl, ?_, fun assignment ↦ ?_⟩
    · rw [Arrangement.atoms_map]
      exact congrArg _ hatoms
    · cases hagrees assignment with
      | some hreads => exact hreads.map

/-- A condition is written exactly if it is not empty, and what is written means what is left of the
condition. -/
def WrittenAs (placed : Placed) (written : Option Code) : Prop :=
  (written = none ↔ placed.condition.isEmpty = true) ∧
    ∀ code, written = some code → ∃ kept, placed.prune = some kept ∧
      code.Means placed.atoms fun assignment ↦ kept.truth assignment

theorem writtenAs_code? {written : Option Code}
    (h : placed.condition.code? placed.qualifier = .ok written) : placed.WrittenAs written := by
  simp only [Condition.code?, bind_eq_ok, pure_eq_ok] at h
  obtain ⟨formula, hformula, rfl⟩ := h
  rw [Formula.code?, layout_formula hformula, Option.map_map]
  refine ⟨by rw [Option.map_eq_none_iff, arrangement_eq_none_iff], fun code hcode ↦ ?_⟩
  obtain ⟨arranged, harranged, rfl⟩ := Option.map_eq_some_iff.1 hcode
  obtain ⟨kept, hkept, hatoms, hreads⟩ := exists_kept harranged
  exact ⟨kept, hkept, hatoms ▸ Arrangement.means hreads⟩

/-- What is written to be joined by AND are the symbols of the condition, in parentheses if they are
alternatives. -/
theorem exists_conjunct {code : Code}
    (h : placed.condition.conjunct? placed.qualifier = .ok (some code)) :
    ∃ arranged, placed.arrangement = some arranged ∧
      code = ((arranged.layout Placed.code).within .and) := by
  simp only [Condition.conjunct?, bind_eq_ok, pure_eq_ok] at h
  obtain ⟨formula, hformula, hcode⟩ := h
  rw [Formula.conjunct?, layout_formula hformula, Option.map_map] at hcode
  obtain ⟨arranged, harranged, rfl⟩ := Option.map_eq_some_iff.1 hcode
  exact ⟨arranged, harranged, rfl⟩

/-- Written conjuncts are laid out as arrangements that read like them without their empty parts. -/
private theorem exists_arrangements {parts : List Placed} {codes : List Code}
    (h : List.Forall₂ (fun placed code ↦
      placed.condition.conjunct? placed.qualifier = .ok (some code)) parts codes) :
    ∃ arrangements kept, List.Forall₂ (fun placed part ↦ placed.prune = some part) parts kept ∧
      codes = (arrangements.map (Arrangement.layout Placed.code)).map (Layout.within .and) ∧
      arrangements.flatMap Arrangement.atoms = parts.flatMap atoms ∧
      ∀ assignment, List.Forall₂ (Arrangement.Reads assignment) arrangements
        (kept.map (truth assignment)) := by
  induction h with
  | nil => exact ⟨[], [], .nil, rfl, rfl, fun _ ↦ .nil⟩
  | cons hfirst _ ih =>
    obtain ⟨arranged, harranged, rfl⟩ := exists_conjunct hfirst
    obtain ⟨part, hpart, hatoms, hreads⟩ := exists_kept harranged
    obtain ⟨others, kept, hkept, rfl, hothers, hrest⟩ := ih
    refine ⟨arranged :: others, part :: kept, .cons hpart hkept, rfl, ?_,
      fun assignment ↦ .cons (hreads assignment) (hrest assignment)⟩
    rw [List.flatMap_cons, hatoms, hothers, List.flatMap_cons]

/-- Conditions written to be joined by AND come to their conjunction when they are. -/
theorem means_conjuncts {parts : List Placed} {codes : List Code} (nonempty : parts ≠ [])
    (h : List.Forall₂ (fun placed code ↦
      placed.condition.conjunct? placed.qualifier = .ok (some code)) parts codes) :
    ∃ kept, List.Forall₂ (fun placed part ↦ placed.prune = some part) parts kept ∧
      (Code.separated " AND " codes).Means (parts.flatMap atoms) fun assignment ↦
        (kept.map (truth assignment)).foldr Truth.and .yes := by
  obtain ⟨arrangements, kept, hkept, rfl, hatoms, hreads⟩ := exists_arrangements h
  refine ⟨kept, hkept, ?_⟩
  have hcode := Arrangement.separated_within Placed.code .and arrangements
  let chain : Arrangement Placed :=
    ⟨[Joiner.and.symbol].intercalate (arrangements.map (Arrangement.within .and)), .and⟩
  have hjoiner : Joiner.and ≠ .atom := by decide
  have hreadsChain (assignment : Placed → Truth) : chain.Reads assignment
      ((kept.map (truth assignment)).foldr Truth.and .yes) := by
    have hall := hreads assignment
    cases hkept with
    | nil => exact absurd rfl nonempty
    | cons hpart hothers =>
      cases hall with
      | cons hfirst hrest => exact Arrangement.reads_chain hjoiner hfirst hrest
  have hmeans := Arrangement.means hreadsChain
  have hchain : chain.atoms = parts.flatMap atoms :=
    (Arrangement.atoms_chain .and arrangements).trans hatoms
  rw [hchain] at hmeans
  exact hcode ▸ hmeans

end Placed

/-- Writing keeps the meaning. The text of a condition, parsed with its atoms read as one symbol
each, has the value of the condition without its empty parts, and nothing is written exactly for an
empty condition; so it is for filters, which are written like their conditions. What is written to
be joined by AND keeps its value between others of its kind. -/
theorem Condition.means_written :
    (∀ (placed : Placed) (written : Option Code),
      placed.condition.code? placed.qualifier = .ok written → placed.WrittenAs written) ∧
    (∀ (filter : Filter Written) (qualifier : Qualifier) (written : Option Code),
      filter.code? qualifier = .ok written →
        Placed.WrittenAs ⟨filter.condition, qualifier⟩ written ∧
          (written = none ↔ filter.isEmpty = true)) ∧
    ∀ (parts : List Placed) (codes : List Code), parts ≠ [] →
      List.Forall₂ (fun placed code ↦
        placed.condition.conjunct? placed.qualifier = .ok (some code)) parts codes →
      ∃ kept, List.Forall₂ (fun placed part ↦ placed.prune = some part) parts kept ∧
        (Code.separated " AND " codes).Means (parts.flatMap Placed.atoms) fun assignment ↦
          (kept.map (Placed.truth assignment)).foldr Truth.and .yes := by
  refine ⟨fun placed written h ↦ Placed.writtenAs_code? h, fun filter qualifier written h ↦ ?_,
    fun parts codes nonempty h ↦ Placed.means_conjuncts nonempty h⟩
  have hwritten : Placed.WrittenAs ⟨filter.condition, qualifier⟩ written :=
    Placed.writtenAs_code? h
  refine ⟨hwritten, ?_⟩
  rw [← Filter.isEmpty_condition]
  exact hwritten.1

def Condition.grownOrAnn : Condition Written :=
  .any [.compare ⟨none, "age"⟩ .gte (.term (.literal (.int 18))), .every [],
    .compare ⟨none, "name"⟩ .equals (.term (.literal (.text "Ann")))]

/-- Someone of age or called Ann who is not blocked, and no negation of nothing. -/
def Condition.welcome : Condition Written :=
  .every [.grownOrAnn, .not (.compare ⟨none, "blocked"⟩ .equals (.term (.literal (.bool true)))),
    .not (.any [])]

/-- The alternatives stand in parentheses between the conjuncts, alone, in a filter and behind
another condition. -/
theorem Condition.means_welcome :
    (∃ code kept, Condition.welcome.code? none = .ok (some code) ∧
      Code.print 0 code = "(\"age\" >= $1 OR \"name\" = $2) AND NOT (\"blocked\" = $3)" ∧
      Placed.prune ⟨.welcome, none⟩ = some kept ∧
      code.Means (Placed.atoms ⟨.welcome, none⟩) fun assignment ↦ kept.truth assignment) ∧
    (∃ code, Filter.code? ⟨[[.welcome], [.every []]]⟩ none = .ok (some code) ∧
      (⟨[[.welcome], [.every []]]⟩ : Filter Written).isEmpty = false) ∧
    ∃ codes kept, List.Forall₂ (fun (placed part : Placed) ↦ placed.prune = some part)
        [⟨.grownOrAnn, none⟩, ⟨.welcome, some (.name "u")⟩] kept ∧
      (Code.separated " AND " codes).Means
        ([⟨.grownOrAnn, none⟩, ⟨.welcome, some (.name "u")⟩].flatMap Placed.atoms)
        fun assignment ↦ (kept.map (Placed.truth assignment)).foldr Truth.and .yes := by
  obtain ⟨hconditions, hfilters, hconjuncts⟩ := Condition.means_written
  have hwelcome : ∃ code, Condition.welcome.code? none = .ok (some code) ∧
      Code.print 0 code = "(\"age\" >= $1 OR \"name\" = $2) AND NOT (\"blocked\" = $3)" :=
    ⟨_, rfl, by decide +kernel⟩
  have hfilter : ∃ code, Filter.code? ⟨[[.welcome], [.every []]]⟩ none = .ok (some code) :=
    ⟨_, rfl⟩
  have hparts : ∃ codes, List.Forall₂ (fun (placed : Placed) code ↦
      placed.condition.conjunct? placed.qualifier = .ok (some code))
      [⟨.grownOrAnn, none⟩, ⟨.welcome, some (.name "u")⟩] codes :=
    ⟨_, .cons rfl (.cons rfl .nil)⟩
  obtain ⟨code, hcode, htext⟩ := hwelcome
  obtain ⟨filterCode, hfilterCode⟩ := hfilter
  obtain ⟨codes, hcodes⟩ := hparts
  obtain ⟨kept, hkept, hmeans⟩ := (hconditions ⟨.welcome, none⟩ _ hcode).2 code rfl
  have hset := (hfilters _ _ _ hfilterCode).2
  obtain ⟨keptParts, hkeptParts, hjoined⟩ := hconjuncts _ codes (by simp) hcodes
  refine ⟨⟨code, kept, hcode, htext, hkept, hmeans⟩, ⟨filterCode, hfilterCode, ?_⟩,
    codes, keptParts, hkeptParts, hjoined⟩
  simpa using hset

end SqlComposer
