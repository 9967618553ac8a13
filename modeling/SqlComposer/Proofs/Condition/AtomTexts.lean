import SqlComposer.Proofs.Condition.SymbolArrangement

/-!
# Texts in place of atoms

An atom of a condition may be a text that is an expression of its own. With such texts in the places
of atoms, the symbols of a condition are still an expression. A text keeps its value between
conjuncts if it has no OR outside parentheses, and everywhere else without that. Which symbols are
an expression depends on their nesting only and not on the values of the atoms, so nesting is
followed on its own.
-/

namespace SqlComposer

variable {A B : Type}

namespace Symbol

/-- The symbols outside of all parentheses, when some are open in front of them. -/
def outside : Nat → List (Symbol A) → List (Symbol A)
  | _, [] => []
  | depth, .open :: rest => outside (depth + 1) rest
  | depth, .close :: rest => outside (depth - 1) rest
  | 0, symbol :: rest => symbol :: outside 0 rest
  | depth + 1, _ :: rest => outside (depth + 1) rest

/-- The symbols that stand for a symbol when texts are read in place of atoms. -/
def refine (reading : A → List (Symbol B)) : Symbol A → List (Symbol B)
  | .atom a => reading a
  | .open => [.open]
  | .close => [.close]
  | .not => [.not]
  | .and => [.and]
  | .or => [.or]

/-- Symbols with texts read in place of atoms. -/
def refined (reading : A → List (Symbol B)) (symbols : List (Symbol A)) : List (Symbol B) :=
  symbols.flatMap (refine reading)

theorem refined_append (reading : A → List (Symbol B)) (symbols others : List (Symbol A)) :
    refined reading (symbols ++ others) = refined reading symbols ++ refined reading others :=
  List.flatMap_append

theorem refined_cons (reading : A → List (Symbol B)) (symbol : Symbol A)
    (others : List (Symbol A)) :
    refined reading (symbol :: others) = refine reading symbol ++ refined reading others :=
  List.flatMap_cons

end Symbol

/-! ## Nesting -/

/-- How far symbols were read: the number of open parentheses, and whether an operand came last. -/
structure Progress where
  depth : Nat
  operand : Bool

namespace Progress

/-- Reads one more symbol. An OR outside parentheses is read only among alternatives. -/
def step (joiner : Joiner) : Progress → Symbol A → Option Progress
  | ⟨depth, false⟩, .atom _ => some ⟨depth, true⟩
  | ⟨depth, false⟩, .not => some ⟨depth, false⟩
  | ⟨depth, false⟩, .open => some ⟨depth + 1, false⟩
  | ⟨depth, true⟩, .and => some ⟨depth, false⟩
  | ⟨0, true⟩, .or => if joiner = .or then some ⟨0, false⟩ else none
  | ⟨depth + 1, true⟩, .or => some ⟨depth + 1, false⟩
  | ⟨depth + 1, true⟩, .close => some ⟨depth, true⟩
  | _, _ => none

def steps (joiner : Joiner) (progress : Progress) (symbols : List (Symbol A)) : Option Progress :=
  symbols.foldlM (step joiner) progress

/-- The same progress with more parentheses open. -/
def deeper (progress : Progress) (count : Nat) : Progress :=
  ⟨progress.depth + count, progress.operand⟩

variable {joiner other : Joiner} {progress next : Progress} {symbol : Symbol A}
  {symbols others : List (Symbol A)}

theorem steps_append (symbols others : List (Symbol A)) :
    steps joiner progress (symbols ++ others) =
      (steps joiner progress symbols).bind fun between ↦ steps joiner between others :=
  List.foldlM_append

theorem steps_cons (symbol : Symbol A) (others : List (Symbol A)) :
    steps joiner progress (symbol :: others) =
      (step joiner progress symbol).bind fun between ↦ steps joiner between others := rfl

theorem steps_cons_eq_some :
    steps joiner progress (symbol :: others) = some next ↔
      ∃ between, step joiner progress symbol = some between ∧
        steps joiner between others = some next := by
  rw [steps_cons, Option.bind_eq_some_iff]

/-- Symbols that can be read can be read in parentheses, and among alternatives. -/
theorem step_deeper (count : Nat) (h : step joiner progress symbol = some next)
    (allowed : count = 0 → joiner = .or → other = .or) :
    step other (progress.deeper count) symbol = some (next.deeper count) := by
  obtain ⟨depth, operand⟩ := progress
  cases symbol with
  | or =>
    cases operand with
    | false => cases depth <;> cases h
    | true =>
      cases depth with
      | zero =>
        simp only [step, Option.ite_none_right_eq_some, Option.some.injEq] at h
        obtain ⟨hjoiner, rfl⟩ := h
        cases count with
        | zero => simp [deeper, step, allowed rfl hjoiner]
        | succ count => simp [deeper, step]
      | succ depth =>
        cases h
        simp [deeper, step, Nat.add_right_comm depth 1 count]
  | close =>
    cases operand <;> cases depth <;> cases h
    simp [deeper, step, Nat.add_right_comm _ 1 count]
  | «open» =>
    cases operand <;> cases depth <;> cases h <;>
      simp [deeper, step, Nat.add_right_comm _ 1 count]
  | _ => cases operand <;> cases depth <;> cases h <;> simp [deeper, step]

/-- Symbols read at one depth are read at any greater one, there under any joiner. -/
theorem steps_deeper (count : Nat) (h : steps joiner progress symbols = some next)
    (allowed : count = 0 → joiner = .or → other = .or) :
    steps other (progress.deeper count) symbols = some (next.deeper count) := by
  induction symbols generalizing progress with
  | nil =>
    cases h
    rfl
  | cons symbol rest ih =>
    obtain ⟨between, hstep, hrest⟩ := steps_cons_eq_some.1 h
    exact steps_cons_eq_some.2 ⟨_, step_deeper count hstep allowed, ih hrest⟩

theorem steps_map (f : A → B) (symbols : List (Symbol A)) :
    steps joiner progress (symbols.map (Symbol.map f)) = steps joiner progress symbols := by
  have hstep (progress : Progress) (symbol : Symbol A) :
      step joiner progress (symbol.map f) = step joiner progress symbol := by
    obtain ⟨depth, operand⟩ := progress
    cases symbol <;> cases operand <;> cases depth <;> rfl
  unfold steps
  rw [List.foldlM_map]
  simp only [hstep]

/-! ### Outside parentheses -/

/-- What stands outside parentheses behind a symbol does so behind what is in front of it. -/
theorem outside_subset (h : step joiner progress symbol = some next) :
    Symbol.outside next.depth others ⊆ Symbol.outside progress.depth (symbol :: others) := by
  obtain ⟨depth, operand⟩ := progress
  have hsame : Symbol.outside 0 others ⊆ symbol :: Symbol.outside 0 others :=
    List.subset_cons_self _ _
  cases symbol with
  | «open» =>
    cases operand <;> cases depth <;> cases h <;> exact List.Subset.refl _
  | close =>
    cases operand <;> cases depth <;> cases h
    exact List.Subset.refl _
  | or =>
    cases operand with
    | false => cases depth <;> cases h
    | true =>
      cases depth with
      | zero =>
        simp only [step, Option.ite_none_right_eq_some, Option.some.injEq] at h
        obtain ⟨_, rfl⟩ := h
        exact hsame
      | succ depth =>
        cases h
        exact List.Subset.refl _
  | _ =>
    cases operand <;> cases depth <;> cases h <;>
      first | exact hsame | exact List.Subset.refl _

/-- Without an OR outside parentheses symbols are read between any connectives. -/
theorem steps_of_quiet (h : steps .or progress symbols = some next)
    (quiet : .or ∉ Symbol.outside progress.depth symbols) :
    steps joiner progress symbols = some next := by
  induction symbols generalizing progress with
  | nil => exact h
  | cons symbol rest ih =>
    obtain ⟨between, hstep, hrest⟩ := steps_cons_eq_some.1 h
    refine steps_cons_eq_some.2 ⟨between, ?_, ih hrest fun hor ↦ quiet (outside_subset hstep hor)⟩
    obtain ⟨depth, operand⟩ := progress
    cases symbol with
    | or =>
      cases operand with
      | false => cases depth <;> cases hstep
      | true =>
        cases depth with
        | zero => exact absurd List.mem_cons_self quiet
        | succ depth => exact hstep
    | _ => cases operand <;> cases depth <;> exact hstep

end Progress

/-! ## Forms -/

/-- Symbols that may stand between connectives: they are read from operand to operand, and outside
parentheses they have an OR only if they stand among alternatives. -/
def Forms (joiner : Joiner) (symbols : List (Symbol A)) : Prop :=
  Progress.steps joiner ⟨0, false⟩ symbols = some ⟨0, true⟩

namespace Forms

variable {joiner other : Joiner} {symbols others : List (Symbol A)}

theorem weaken (h : Forms joiner symbols) : Forms .or symbols :=
  Progress.steps_deeper 0 h fun _ _ ↦ rfl

theorem conjuncts (h : Forms .atom symbols) : Forms .and symbols :=
  Progress.steps_deeper 0 h fun _ hatom ↦ by cases hatom

theorem quiet (h : Forms .or symbols) (alone : .or ∉ Symbol.outside 0 symbols) :
    Forms joiner symbols := Progress.steps_of_quiet h alone

/-- Symbols are read in the same way whatever parentheses are open. -/
theorem steps_at (h : Forms joiner symbols) (depth : Nat)
    (allowed : depth = 0 → joiner = .or → other = .or) :
    Progress.steps other ⟨depth, false⟩ symbols = some ⟨depth, true⟩ := by
  have hdeeper := Progress.steps_deeper depth h allowed
  simpa [Progress.deeper] using hdeeper

theorem atom (a : A) : Forms joiner [.atom a] := rfl

theorem map_iff (f : A → B) : Forms joiner (symbols.map (Symbol.map f)) ↔ Forms joiner symbols := by
  rw [Forms, Progress.steps_map, Forms]

theorem negated (h : Forms joiner symbols) : Forms joiner (.not :: symbols) :=
  Progress.steps_cons_eq_some.2 ⟨_, rfl, h⟩

theorem enclosed (h : Forms .or symbols) : Forms joiner (Arrangement.enclosed symbols) := by
  have hinside : Progress.steps joiner ⟨1, false⟩ symbols = some ⟨1, true⟩ :=
    h.steps_at 1 fun hzero ↦ by cases hzero
  rw [Arrangement.enclosed, Forms, List.cons_append, Progress.steps_cons_eq_some]
  refine ⟨⟨1, false⟩, rfl, ?_⟩
  rw [Progress.steps_append, hinside]
  rfl

/-- Symbols that may stand between connectives may stand around one. -/
theorem joined (h : Forms joiner symbols) (hother : Forms joiner others) :
    Forms joiner (symbols ++ joiner.symbol :: others) := by
  rw [Forms, Progress.steps_append, h, Option.bind_some]
  refine Progress.steps_cons_eq_some.2 ⟨⟨0, false⟩, ?_, hother⟩
  cases joiner <;> rfl

/-- What stands on both sides of an AND may stand between others. -/
theorem of_joined (h : Forms .or symbols) (all : Forms .and (symbols ++ .and :: others)) :
    Forms .and symbols ∧ Forms .and others := by
  rw [Forms, Progress.steps_append, Option.bind_eq_some_iff] at all
  obtain ⟨between, hsymbols, hothers⟩ := all
  have hsame := Progress.steps_deeper 0 hsymbols fun _ _ ↦ (rfl : Joiner.or = .or)
  rw [show (⟨0, false⟩ : Progress).deeper 0 = ⟨0, false⟩ from rfl, h, Option.some.injEq] at hsame
  obtain ⟨depth, operand⟩ := between
  cases hsame
  obtain ⟨next, hnext, hrest⟩ := Progress.steps_cons_eq_some.1 hothers
  cases hnext
  exact ⟨hsymbols, hrest⟩

end Forms

/-! ## Arrangements -/

namespace Arrangement

variable {arrangement : Arrangement A}

/-- The symbols may stand where the arrangement says. -/
def Formed (arrangement : Arrangement A) : Prop := Forms arrangement.joiner arrangement.symbols

theorem Formed.negated (h : arrangement.Formed) : arrangement.negated.Formed :=
  (Forms.weaken h).enclosed.negated

theorem Formed.within {joiner : Joiner} (h : arrangement.Formed) (chain : joiner ≠ .atom) :
    Forms joiner (arrangement.within joiner) := by
  have henclosed : Forms joiner (enclosed arrangement.symbols) := (Forms.weaken h).enclosed
  obtain ⟨symbols, inner⟩ := arrangement
  cases joiner with
  | atom => exact absurd rfl chain
  | and =>
    cases inner with
    | or => exact henclosed
    | and => exact h
    | atom => exact Forms.conjuncts h
  | or =>
    cases inner with
    | and => exact henclosed
    | or => exact h
    | atom => exact Forms.weaken h

/-- A chain of formed parts reads as a form of its joiner. -/
theorem forms_chain {joiner : Joiner} (chain : joiner ≠ .atom) {first : Arrangement A}
    {rest : List (Arrangement A)} (hfirst : first.Formed) (hrest : ∀ part ∈ rest, part.Formed) :
    Forms joiner ([joiner.symbol].intercalate ((first :: rest).map (within joiner))) := by
  induction rest generalizing first with
  | nil =>
    rw [List.map_cons, List.map_nil, List.intercalate_singleton]
    exact hfirst.within chain
  | cons second others ih =>
    obtain ⟨hsecond, hothers⟩ := List.forall_mem_cons.1 hrest
    rw [List.map_cons, List.map_cons, List.intercalate_cons_cons, List.append_assoc]
    exact Forms.joined (hfirst.within chain) (ih hsecond hothers)

/-- Joining formed parts gives a formed arrangement. -/
theorem formed_of_joined {joiner : Joiner} (chain : joiner ≠ .atom)
    {parts : List (Arrangement A)} (h : ∀ part ∈ parts, part.Formed)
    (hjoined : joined joiner parts = some arrangement) : arrangement.Formed := by
  match parts, hjoined with
  | [_], hjoined =>
    cases hjoined
    exact h _ List.mem_cons_self
  | first :: second :: rest, hjoined =>
    cases hjoined
    obtain ⟨hfirst, hrest⟩ := List.forall_mem_cons.1 h
    exact forms_chain chain hfirst hrest

theorem Formed.map (f : A → B) (h : arrangement.Formed) : (arrangement.map f).Formed :=
  (Forms.map_iff f).2 h

end Arrangement

/-! ## Texts read in place of atoms -/

namespace Forms

variable {joiner : Joiner} {symbols : List (Symbol A)} {reading : A → List (Symbol B)}

/-- Symbols stay readable when atoms are replaced by texts that are readable where they stand. -/
private theorem refine_steps {progress next : Progress}
    (h : Progress.steps joiner progress symbols = some next)
    (readable : ∀ a, .atom a ∈ symbols → Forms .or (reading a))
    (exposed : ∀ a, .atom a ∈ Symbol.outside progress.depth symbols → Forms joiner (reading a)) :
    Progress.steps joiner progress (Symbol.refined reading symbols) = some next := by
  induction symbols generalizing progress with
  | nil => exact h
  | cons symbol rest ih =>
    obtain ⟨between, hstep, hrest⟩ := Progress.steps_cons_eq_some.1 h
    have hlater := ih hrest (fun a ha ↦ readable a (List.mem_cons_of_mem _ ha))
      fun a ha ↦ exposed a (Progress.outside_subset hstep ha)
    rw [Symbol.refined_cons, Progress.steps_append, Option.bind_eq_some_iff]
    refine ⟨between, ?_, hlater⟩
    obtain ⟨depth, operand⟩ := progress
    cases symbol with
    | atom a =>
      -- In parentheses a text only has to be an expression, whatever the connectives around it.
      cases operand <;> cases hstep
      cases depth with
      | zero => exact exposed a List.mem_cons_self
      | succ depth =>
        exact (readable a List.mem_cons_self).steps_at (depth + 1) fun hzero ↦ by cases hzero
    | _ =>
      cases operand <;> cases depth <;>
        exact Progress.steps_cons_eq_some.2 ⟨between, hstep, rfl⟩

/-- With texts in place of atoms symbols may stand where they could before, if those of the texts
that are outside parentheses may. -/
theorem refine (h : Forms joiner symbols)
    (readable : ∀ a, .atom a ∈ symbols → Forms .or (reading a))
    (exposed : ∀ a, .atom a ∈ Symbol.outside 0 symbols → Forms joiner (reading a)) :
    Forms joiner (Symbol.refined reading symbols) := refine_steps h readable exposed

/-- Among alternatives any expressions may stand in place of atoms. -/
theorem refine_all (h : Forms joiner symbols) (readable : ∀ a, Forms .or (reading a)) :
    Forms .or (Symbol.refined reading symbols) :=
  h.weaken.refine (fun a _ ↦ readable a) fun a _ ↦ readable a

end Forms

/-! ## Expressions of their own -/

namespace Reading

variable {α : Type} [Connectives α]

/-- How far a reading came. -/
def progress (reading : Reading α) : Progress := ⟨reading.outer.length, reading.operand.isSome⟩

theorem progress_step (reading : Reading α) (symbol : Symbol α) :
    (reading.step symbol).map progress = Progress.step .or reading.progress symbol := by
  obtain ⟨outer, frame, operand⟩ := reading
  cases symbol <;> cases operand <;> cases outer <;> rfl

theorem progress_steps (reading : Reading α) (symbols : List (Symbol α)) :
    (reading.steps symbols).map progress = Progress.steps .or reading.progress symbols := by
  induction symbols generalizing reading with
  | nil => rfl
  | cons symbol rest ih =>
    rw [steps_cons, Progress.steps_cons, ← progress_step]
    cases reading.step symbol with
    | none => rfl
    | some next => exact ih next

end Reading

/-- Symbols are an expression exactly if they may stand among alternatives. -/
theorem Forms.exists_parse_iff {α : Type} [Connectives α] {symbols : List (Symbol α)} :
    (∃ value, parse symbols = some value) ↔ Forms .or symbols := by
  have hprogress := Reading.start.progress_steps symbols
  rw [Forms, show (⟨0, false⟩ : Progress) = (Reading.start : Reading α).progress from rfl,
    ← hprogress, parse]
  simp only [Option.bind_eq_some_iff, Option.map_eq_some_iff]
  constructor
  · rintro ⟨value, reading, hsteps, hresult⟩
    refine ⟨reading, hsteps, ?_⟩
    obtain ⟨outer, frame, operand⟩ := reading
    cases outer <;> cases operand <;> cases hresult
    rfl
  · rintro ⟨reading, hsteps, hend⟩
    obtain ⟨outer, frame, operand⟩ := reading
    cases outer <;> cases operand <;> cases hend
    exact ⟨_, _, hsteps, rfl⟩

theorem Forms.isSome_expression?_iff {symbols : List (Symbol A)} :
    (expression? symbols).isSome ↔ Forms .or symbols := by
  rw [Option.isSome_iff_exists, expression?, exists_parse_iff, map_iff]

/-! ### Behind what was read before -/

section Behind

/-- A value that may be missing, behind another one that may be missing. -/
def follow (combine : Truth → Truth → Truth) (earlier later : Option Truth) : Option Truth :=
  later.elim earlier fun a ↦ some (attach combine earlier a)

theorem attach_follow {combine : Truth → Truth → Truth}
    (assoc : ∀ a b c, combine (combine a b) c = combine a (combine b c))
    (earlier later : Option Truth) (a : Truth) :
    attach combine (follow combine earlier later) a =
      attach combine earlier (attach combine later a) := by
  cases earlier with
  | none => cases later <;> rfl
  | some first =>
    cases later with
    | none => rfl
    | some second => exact assoc first second a

/-- A frame behind what was read of an earlier one. -/
def Frame.behind (context frame : Frame Truth) : Frame Truth :=
  ⟨follow Truth.or context.alternatives frame.alternatives,
    follow Truth.and context.conjuncts frame.conjuncts, frame.negations⟩

variable {context frame : Frame Truth}

theorem Frame.conjunction_behind (context frame : Frame Truth) (a : Truth) :
    (context.behind frame).conjunction a =
      attach Truth.and context.conjuncts (frame.conjunction a) :=
  attach_follow Truth.and_assoc context.conjuncts frame.conjuncts a

theorem Frame.disjunction_behind (apart : context.conjuncts = none) (frame : Frame Truth)
    (a : Truth) :
    (context.behind frame).disjunction a =
      attach Truth.or context.alternatives (frame.disjunction a) := by
  rw [disjunction, conjunction_behind, apart]
  exact attach_follow Truth.or_assoc context.alternatives frame.alternatives (frame.conjunction a)

namespace Reading

variable (context : Frame Truth) (outer : List (Frame Truth))

/-- A frame among those around it, the outermost of them behind a context. -/
def settle (frame : Frame Truth) : List (Frame Truth) → Frame Truth
  | [] => context.behind frame
  | _ :: _ => frame

def below : List (Frame Truth) → List (Frame Truth)
  | [] => outer
  | around :: rest => settle context around rest :: below rest

/-- A reading behind what was read before it. -/
def behind (reading : Reading Truth) : Reading Truth :=
  ⟨below context outer reading.outer, settle context reading.frame reading.outer, reading.operand⟩

variable {context outer} {reading next : Reading Truth} {symbol : Symbol Truth}

/-- A step goes as it does on its own, unless an OR cuts off conjuncts that were read before. -/
theorem step_behind (h : reading.step symbol = some next)
    (apart : symbol = .or → reading.outer = [] → context.conjuncts = none) :
    (reading.behind context outer).step symbol = some (next.behind context outer) := by
  obtain ⟨around, frame, operand⟩ := reading
  cases operand with
  | none => cases symbol <;> cases h <;> cases around <;> rfl
  | some a =>
    cases symbol with
    | and =>
      cases h
      cases around with
      | nil =>
        have hvalue := context.conjunction_behind frame a
        exact congrArg (fun value ↦ some (⟨outer, ⟨_, some value, 0⟩, none⟩ : Reading Truth)) hvalue
      | cons => rfl
    | or =>
      cases h
      cases around with
      | nil =>
        -- The OR makes an alternative of the conjuncts so far, and those of the context are none.
        have hapart := apart rfl rfl
        have hvalue := Frame.disjunction_behind hapart frame a
        have hfresh : (none : Option Truth) = follow Truth.and context.conjuncts none := hapart.symm
        exact congrArg₂ (fun value fresh ↦
          some (⟨outer, ⟨some value, fresh, 0⟩, none⟩ : Reading Truth)) hvalue hfresh
      | cons => rfl
    | close =>
      cases around with
      | nil => cases h
      | cons first rest =>
        cases h
        cases rest <;> rfl
    | _ => cases h

/-- The first of several symbols that can be read, and how it is if an OR is read outside
parentheses. -/
theorem exists_step {joiner : Joiner} {rest : List (Symbol Truth)} {progress : Progress}
    (h : reading.steps (symbol :: rest) = some next)
    (allowed : Progress.steps joiner reading.progress (symbol :: rest) = some progress) :
    ∃ between, reading.step symbol = some between ∧ between.steps rest = some next ∧
      Progress.steps joiner between.progress rest = some progress ∧
      (symbol = .or → reading.outer = [] → joiner = .or) := by
  obtain ⟨between, hstep, hrest⟩ := Option.bind_eq_some_iff.1 h
  obtain ⟨further, hfirst, hothers⟩ := Progress.steps_cons_eq_some.1 allowed
  have hread : Progress.step .or reading.progress symbol = some further :=
    Progress.step_deeper 0 hfirst fun _ _ ↦ rfl
  have hprogress := reading.progress_step symbol
  rw [hstep, hread, Option.map_some, Option.some.injEq] at hprogress
  refine ⟨between, hstep, hrest, hprogress ▸ hothers, ?_⟩
  rintro rfl houter
  obtain ⟨around, frame, operand⟩ := reading
  cases houter
  cases operand with
  | none => cases hstep
  | some a => exact (Option.ite_none_right_eq_some.1 hfirst).1

/-- Symbols are read behind further frames as on their own, unless a disjunction meets a
conjunction. -/
theorem steps_behind (context : Frame Truth) (outer : List (Frame Truth)) {joiner : Joiner}
    {symbols : List (Symbol Truth)} {progress : Progress} (h : reading.steps symbols = some next)
    (allowed : Progress.steps joiner reading.progress symbols = some progress)
    (apart : joiner = .or → context.conjuncts = none) :
    (reading.behind context outer).steps symbols = some (next.behind context outer) := by
  induction symbols generalizing reading with
  | nil =>
    cases h
    rfl
  | cons symbol rest ih =>
    obtain ⟨between, hstep, hrest, hothers, hor⟩ := exists_step h allowed
    exact Option.bind_eq_some_iff.2
      ⟨_, step_behind hstep fun hsymbol houter ↦ apart (hor hsymbol houter), ih hrest hothers⟩

/-- The part in front of the last OR outside parentheses. -/
def before (frame : Frame Truth) : List (Frame Truth) → Option Truth
  | [] => frame.alternatives
  | around :: rest => before around rest

theorem before_of_step (h : reading.step symbol = some next)
    (quiet : symbol = .or → reading.outer ≠ []) :
    before next.frame next.outer = before reading.frame reading.outer := by
  obtain ⟨around, frame, operand⟩ := reading
  cases operand <;> cases symbol <;> cases around <;> cases h <;>
    first | rfl | exact absurd rfl (quiet rfl) | (rename_i rest; cases rest <;> rfl)

theorem negations_of_step (h : reading.step symbol = some next) (ends : next.operand ≠ none) :
    next.frame.negations = 0 := by
  obtain ⟨around, frame, operand⟩ := reading
  cases operand <;> cases symbol <;> cases around <;> cases h <;>
    first | rfl | exact absurd rfl ends

/-- Between conjuncts no alternatives are left behind, and behind an operand no NOT. -/
theorem settled_of_steps {symbols : List (Symbol Truth)} {progress : Progress}
    (h : reading.steps symbols = some next)
    (allowed : Progress.steps .and reading.progress symbols = some progress)
    (settled : reading.operand ≠ none → reading.frame.negations = 0) :
    before next.frame next.outer = before reading.frame reading.outer ∧
      (next.operand ≠ none → next.frame.negations = 0) := by
  induction symbols generalizing reading with
  | nil =>
    cases h
    exact ⟨rfl, settled⟩
  | cons symbol rest ih =>
    obtain ⟨between, hstep, hrest, hothers, hor⟩ := exists_step h allowed
    obtain ⟨hbefore, hnegations⟩ := ih hrest hothers (negations_of_step hstep)
    have hquiet (hsymbol : symbol = .or) : reading.outer ≠ [] := fun houter ↦ by
      cases hor hsymbol houter
    exact ⟨hbefore.trans (before_of_step hstep hquiet), hnegations⟩

end Reading

end Behind

/-- Symbols that are an expression are read with its value wherever they may stand. -/
theorem Forms.readsAs {joiner : Joiner} {symbols : List (Symbol Truth)} {value : Truth}
    (h : Forms joiner symbols) (chain : joiner ≠ .atom) (parses : parse symbols = some value) :
    ReadsAs value symbols joiner := by
  obtain ⟨reading, hsteps, hresult⟩ := Option.bind_eq_some_iff.1 parses
  obtain ⟨around, frame, operand⟩ := reading
  cases around with
  | cons => cases hresult
  | nil =>
    cases operand with
    | none => cases hresult
    | some a =>
      cases hresult
      cases joiner with
      | atom => exact absurd rfl chain
      | or =>
        intro outer alternatives
        have hbehind := Reading.steps_behind ⟨alternatives, none, 0⟩ outer hsteps h fun _ ↦ rfl
        exact ⟨_, a, hbehind, Frame.disjunction_behind rfl frame a⟩
      | and =>
        -- No OR is read outside parentheses, so the symbols end in the conjuncts that they are
        -- read behind.
        intro outer alternatives conjuncts
        have hbehind := Reading.steps_behind ⟨alternatives, conjuncts, 0⟩ outer hsteps h
          fun hor ↦ by cases hor
        obtain ⟨hbefore, hnegations⟩ := Reading.settled_of_steps hsteps h fun hstart ↦
          absurd rfl hstart
        obtain ⟨before, inner, negations⟩ := frame
        cases hbefore
        cases hnegations (Option.some_ne_none a)
        exact ⟨_, a, hbehind, attach_follow Truth.and_assoc conjuncts inner a⟩

end SqlComposer
