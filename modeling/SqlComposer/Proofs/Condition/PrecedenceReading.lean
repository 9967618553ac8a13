import SqlComposer.Condition.Formula

/-!
# Reading conditions

The text of a condition is read as a list of symbols: atoms, parentheses and the words AND, OR and
NOT. It is parsed as SQL does: what stands in parentheses belongs together, NOT binds tightest, then
AND, then OR. The parser combines values of any type that has the connectives. Over expressions it
builds the expression that was read; over truth values it finds out the value of that expression at
once.
-/

namespace SqlComposer

/-! ## Truth -/

/-- What a condition may come to. -/
inductive Truth where
  | no
  | unknown
  | yes
  deriving DecidableEq, Repr

namespace Truth

def not : Truth → Truth
  | no => yes
  | unknown => unknown
  | yes => no

def and : Truth → Truth → Truth
  | no, _ | _, no => no
  | yes, yes => yes
  | _, _ => unknown

def or : Truth → Truth → Truth
  | yes, _ | _, yes => yes
  | no, no => no
  | _, _ => unknown

theorem and_comm (a b : Truth) : a.and b = b.and a := by cases a <;> cases b <;> rfl

theorem and_assoc (a b c : Truth) : (a.and b).and c = a.and (b.and c) := by
  cases a <;> cases b <;> cases c <;> rfl

theorem or_assoc (a b c : Truth) : (a.or b).or c = a.or (b.or c) := by
  cases a <;> cases b <;> cases c <;> rfl

@[simp]
theorem and_yes (a : Truth) : a.and yes = a := by cases a <;> rfl

@[simp]
theorem or_no (a : Truth) : a.or no = a := by cases a <;> rfl

end Truth

/-! ## Expressions -/

/-- Values that are combined by the connectives. -/
class Connectives (α : Type) where
  not : α → α
  and : α → α → α
  or : α → α → α

instance : Connectives Truth := ⟨Truth.not, Truth.and, Truth.or⟩

/-- What a text says about its atoms. -/
inductive Expr (A : Type) where
  | atom (a : A)
  | not (expr : Expr A)
  | and (left right : Expr A)
  | or (left right : Expr A)
  deriving DecidableEq, Repr

instance {A : Type} : Connectives (Expr A) := ⟨.not, .and, .or⟩

/-- The value of an expression for values of its atoms. -/
def Expr.value {A : Type} (assignment : A → Truth) : Expr A → Truth
  | atom a => assignment a
  | not expr => (expr.value assignment).not
  | and left right => (left.value assignment).and (right.value assignment)
  | or left right => (left.value assignment).or (right.value assignment)

/-! ## Symbols -/

/-- What a text of atoms and connectives consists of. -/
inductive Symbol (α : Type) where
  | atom (a : α)
  | open
  | close
  | not
  | and
  | or
  deriving DecidableEq, Repr

namespace Symbol

variable {α β : Type}

def map (f : α → β) : Symbol α → Symbol β
  | atom a => atom (f a)
  | .open => .open
  | close => close
  | not => not
  | and => and
  | or => or

def atom? : Symbol α → Option α
  | atom a => some a
  | _ => none

def code (write : α → Code) : Symbol α → Code
  | atom a => write a
  | .open => [.word "("]
  | close => [.word ")"]
  | not => [.word "NOT "]
  | and => [.word Joiner.and.word]
  | or => [.word Joiner.or.word]

end Symbol

/-! ## Parsing -/

section Parsing

variable {α β : Type} [Connectives α] [Connectives β]

/-- What was read since a parenthesis was opened, in front of the operand that is read next. -/
structure Frame (α : Type) where
  /-- The part in front of the last OR. -/
  alternatives : Option α
  /-- The part between the last OR and the last AND. -/
  conjuncts : Option α
  /-- The number of NOTs behind that. -/
  negations : Nat

/-- What was read of a text. -/
structure Reading (α : Type) where
  /-- What stands in front of the parentheses that are open, the innermost first. -/
  outer : List (Frame α)
  frame : Frame α
  /-- The last operand, unless one has to come next. -/
  operand : Option α

def Frame.empty : Frame α := ⟨none, none, 0⟩

/-- Combines with an earlier value, if there is one. -/
def attach (combine : α → α → α) : Option α → α → α
  | none, a => a
  | some earlier, a => combine earlier a

def negate : Nat → α → α
  | 0, a => a
  | count + 1, a => negate count (Connectives.not a)

namespace Frame

/-- The part since the last OR, with an operand at its end. -/
def conjunction (frame : Frame α) (a : α) : α := attach Connectives.and frame.conjuncts a

/-- Everything since the parenthesis was opened, with an operand at its end. -/
def disjunction (frame : Frame α) (a : α) : α :=
  attach Connectives.or frame.alternatives (frame.conjunction a)

end Frame

namespace Reading

def start : Reading α := ⟨[], .empty, none⟩

def step : Reading α → Symbol α → Option (Reading α)
  | ⟨outer, frame, none⟩, .atom a =>
    some ⟨outer, { frame with negations := 0 }, some (negate frame.negations a)⟩
  | ⟨outer, frame, none⟩, .not =>
    some ⟨outer, { frame with negations := frame.negations + 1 }, none⟩
  | ⟨outer, frame, none⟩, .open => some ⟨frame :: outer, .empty, none⟩
  | ⟨outer, frame, some a⟩, .and =>
    some ⟨outer, ⟨frame.alternatives, some (frame.conjunction a), 0⟩, none⟩
  | ⟨outer, frame, some a⟩, .or => some ⟨outer, ⟨some (frame.disjunction a), none, 0⟩, none⟩
  | ⟨around :: outer, frame, some a⟩, .close =>
    some ⟨outer, { around with negations := 0 },
      some (negate around.negations (frame.disjunction a))⟩
  | _, _ => none

def steps (reading : Reading α) (symbols : List (Symbol α)) : Option (Reading α) :=
  symbols.foldlM step reading

/-- What was read, if it may end here. -/
def result : Reading α → Option α
  | ⟨[], frame, some a⟩ => some (frame.disjunction a)
  | _ => none

theorem steps_append (reading : Reading α) (symbols others : List (Symbol α)) :
    reading.steps (symbols ++ others) =
      (reading.steps symbols).bind fun between => between.steps others :=
  List.foldlM_append

theorem steps_cons (reading : Reading α) (symbol : Symbol α) (others : List (Symbol α)) :
    reading.steps (symbol :: others) =
      (reading.step symbol).bind fun between => between.steps others := rfl

end Reading

/-- The value of a text, if it is an expression. -/
def parse (symbols : List (Symbol α)) : Option α :=
  (Reading.start.steps symbols).bind Reading.result

/-- The expression that a text is read as. -/
def expression? {A : Type} (symbols : List (Symbol A)) : Option (Expr A) :=
  parse (symbols.map (Symbol.map Expr.atom))

example : expression? [.atom 1, .or, .not, .atom 2, .and, .open, .atom 3, .or, .atom 4, .close] =
    some (.or (.atom 1) (.and (.not (.atom 2)) (.or (.atom 3) (.atom 4)))) := rfl

end Parsing

/-! ## Values of expressions -/

section Values

variable {α β : Type} [Connectives α] [Connectives β] {f : α → β}

/-- A map that agrees with the connectives. -/
structure Preserves (f : α → β) : Prop where
  not : ∀ a, f (Connectives.not a) = Connectives.not (f a)
  and : ∀ a b, f (Connectives.and a b) = Connectives.and (f a) (f b)
  or : ∀ a b, f (Connectives.or a b) = Connectives.or (f a) (f b)

theorem Expr.preserves_value {A : Type} (assignment : A → Truth) :
    Preserves (Expr.value assignment) :=
  ⟨fun _ ↦ rfl, fun _ _ ↦ rfl, fun _ _ ↦ rfl⟩

def Frame.map (f : α → β) (frame : Frame α) : Frame β :=
  ⟨frame.alternatives.map f, frame.conjuncts.map f, frame.negations⟩

def Reading.map (f : α → β) (reading : Reading α) : Reading β :=
  ⟨reading.outer.map (Frame.map f), reading.frame.map f, reading.operand.map f⟩

namespace Preserves

variable (preserves : Preserves f)

include preserves

theorem negate_map (count : Nat) (a : α) : f (negate count a) = negate count (f a) := by
  induction count generalizing a with
  | zero => rfl
  | succ count ih => rw [negate, negate, ih, preserves.not]

theorem conjunction_map (frame : Frame α) (a : α) :
    f (frame.conjunction a) = (frame.map f).conjunction (f a) := by
  obtain ⟨alternatives, conjuncts, negations⟩ := frame
  cases conjuncts with
  | none => rfl
  | some earlier => exact preserves.and earlier a

theorem disjunction_map (frame : Frame α) (a : α) :
    f (frame.disjunction a) = (frame.map f).disjunction (f a) := by
  have hconjunction := preserves.conjunction_map frame a
  unfold Frame.disjunction
  rw [← hconjunction]
  cases halternatives : frame.alternatives with
  | none => simp [Frame.map, halternatives, attach]
  | some earlier => simp [Frame.map, halternatives, attach, preserves.or]

/-- Reading a symbol and mapping what was read may be exchanged. -/
theorem step_map (reading : Reading α) (symbol : Symbol α) :
    (reading.map f).step (symbol.map f) = (reading.step symbol).map (Reading.map f) := by
  obtain ⟨outer, frame, operand⟩ := reading
  cases operand with
  | none =>
    cases symbol with
    | atom a => simp [Reading.map, Symbol.map, Reading.step, Frame.map, preserves.negate_map]
    | _ => rfl
  | some a =>
    cases symbol with
    | and => simp [Reading.map, Symbol.map, Reading.step, Frame.map, preserves.conjunction_map]
    | or => simp [Reading.map, Symbol.map, Reading.step, Frame.map, preserves.disjunction_map]
    | close =>
      cases outer with
      | nil => rfl
      | cons around outer =>
        simp [Reading.map, Symbol.map, Reading.step, Frame.map, preserves.negate_map,
          preserves.disjunction_map]
    | _ => rfl

theorem steps_map (reading : Reading α) (symbols : List (Symbol α)) :
    (reading.map f).steps (symbols.map (Symbol.map f)) =
      (reading.steps symbols).map (Reading.map f) := by
  induction symbols generalizing reading with
  | nil => rfl
  | cons symbol rest ih =>
    rw [List.map_cons, Reading.steps_cons, Reading.steps_cons, preserves.step_map]
    cases reading.step symbol with
    | none => rfl
    | some next => exact ih next

theorem result_map (reading : Reading α) :
    (reading.map f).result = reading.result.map f := by
  obtain ⟨outer, frame, operand⟩ := reading
  cases outer with
  | nil =>
    cases operand with
    | none => rfl
    | some a => simp [Reading.map, Reading.result, preserves.disjunction_map]
  | cons around outer => rfl

/-- Parsing mapped symbols gives the mapped value. -/
theorem parse_map (symbols : List (Symbol α)) :
    parse (symbols.map (Symbol.map f)) = (parse symbols).map f := by
  unfold parse
  have hstart : (Reading.start : Reading β) = (Reading.start : Reading α).map f := rfl
  rw [hstart, preserves.steps_map]
  cases Reading.start.steps symbols with
  | none => rfl
  | some reading => exact preserves.result_map reading

end Preserves

/-- The value of the expression that symbols are is what their values parse to. -/
theorem value_expression? {A : Type} (assignment : A → Truth) (symbols : List (Symbol A)) :
    (expression? symbols).map (Expr.value assignment) =
      parse (symbols.map (Symbol.map assignment)) := by
  rw [expression?, ← (Expr.preserves_value assignment).parse_map, List.map_map]
  congr 2
  funext symbol
  cases symbol <;> rfl

/-- Symbols that parse to values of their atoms are an expression with these values. -/
theorem exists_expression {A : Type} {symbols : List (Symbol A)} {value : (A → Truth) → Truth}
    (parses : ∀ assignment, parse (symbols.map (Symbol.map assignment)) = some (value assignment)) :
    ∃ expr, expression? symbols = some expr ∧
      ∀ assignment, expr.value assignment = value assignment := by
  have hvalue (assignment : A → Truth) :
      (expression? symbols).map (Expr.value assignment) = some (value assignment) :=
    (value_expression? assignment symbols).trans (parses assignment)
  obtain ⟨expr, hexpr, _⟩ := Option.map_eq_some_iff.1 (hvalue fun _ ↦ .unknown)
  refine ⟨expr, hexpr, fun assignment ↦ ?_⟩
  have hassigned := hvalue assignment
  rwa [hexpr, Option.map_some, Option.some.injEq] at hassigned

end Values

/-! ## Parts of a text -/

/-- What symbols are read as where they may stand: an operand anywhere, a chain of conjuncts between
connectives other than NOT, a chain of alternatives behind a parenthesis or an OR. -/
def ReadsAs (value : Truth) (symbols : List (Symbol Truth)) : Joiner → Prop
  | .atom => ∀ outer frame, Reading.steps ⟨outer, frame, none⟩ symbols =
      some ⟨outer, { frame with negations := 0 }, some (negate frame.negations value)⟩
  | .and => ∀ outer alternatives conjuncts, ∃ inner a,
      Reading.steps ⟨outer, ⟨alternatives, conjuncts, 0⟩, none⟩ symbols =
        some ⟨outer, ⟨alternatives, inner, 0⟩, some a⟩ ∧
      attach Truth.and inner a = attach Truth.and conjuncts value
  | .or => ∀ outer alternatives, ∃ frame a,
      Reading.steps ⟨outer, ⟨alternatives, none, 0⟩, none⟩ symbols = some ⟨outer, frame, some a⟩ ∧
      frame.disjunction a = attach Truth.or alternatives value

namespace ReadsAs

variable {value : Truth} {symbols : List (Symbol Truth)}

theorem atom (value : Truth) : ReadsAs value [.atom value] .atom := fun _ _ ↦ rfl

theorem conjuncts (h : ReadsAs value symbols .atom) : ReadsAs value symbols .and :=
  fun outer alternatives conjuncts ↦
    ⟨conjuncts, value, h outer ⟨alternatives, conjuncts, 0⟩, rfl⟩

theorem alternatives (h : ReadsAs value symbols .and) : ReadsAs value symbols .or := by
  intro outer alternatives
  obtain ⟨inner, a, hsteps, hvalue⟩ := h outer alternatives none
  exact ⟨_, a, hsteps, congrArg (attach Truth.or alternatives) hvalue⟩

/-- In parentheses any part is an operand. -/
theorem enclosed (h : ReadsAs value symbols .or) :
    ReadsAs value (.open :: symbols ++ [.close]) .atom := by
  intro outer frame
  obtain ⟨inner, a, hsteps, hvalue⟩ := h (frame :: outer) none
  have hopen : Reading.step ⟨outer, frame, none⟩ (.open : Symbol Truth) =
      some ⟨frame :: outer, ⟨none, none, 0⟩, none⟩ := rfl
  have hclose : Reading.steps ⟨frame :: outer, inner, some a⟩ [(.close : Symbol Truth)] =
      some ⟨outer, { frame with negations := 0 },
        some (negate frame.negations (inner.disjunction a))⟩ := rfl
  rw [List.cons_append, Reading.steps_cons, hopen, Option.bind_some, Reading.steps_append, hsteps,
    Option.bind_some, hclose, hvalue]
  rfl

theorem negated (h : ReadsAs value symbols .atom) : ReadsAs value.not (.not :: symbols) .atom := by
  intro outer frame
  rw [Reading.steps_cons]
  exact h outer { frame with negations := frame.negations + 1 }

/-- A chain of conjuncts goes on behind an AND. -/
theorem and {other : Truth} {others : List (Symbol Truth)} (h : ReadsAs value symbols .and)
    (hother : ReadsAs other others .and) :
    ReadsAs (value.and other) (symbols ++ .and :: others) .and := by
  intro outer alternatives conjuncts
  obtain ⟨inner, a, hsteps, hvalue⟩ := h outer alternatives conjuncts
  obtain ⟨last, b, hothers, hlast⟩ :=
    hother outer alternatives (some (attach Truth.and conjuncts value))
  have hand : Reading.step ⟨outer, ⟨alternatives, inner, 0⟩, some a⟩ (.and : Symbol Truth) =
      some ⟨outer, ⟨alternatives, some (attach Truth.and inner a), 0⟩, none⟩ := rfl
  refine ⟨last, b, ?_, ?_⟩
  · rw [Reading.steps_append, hsteps, Option.bind_some, Reading.steps_cons, hand, hvalue]
    exact hothers
  · rw [hlast]
    cases conjuncts with
    | none => rfl
    | some earlier => exact Truth.and_assoc earlier value other

/-- A chain of alternatives goes on behind an OR. -/
theorem or {other : Truth} {others : List (Symbol Truth)} (h : ReadsAs value symbols .or)
    (hother : ReadsAs other others .or) :
    ReadsAs (value.or other) (symbols ++ .or :: others) .or := by
  intro outer alternatives
  obtain ⟨inner, a, hsteps, hvalue⟩ := h outer alternatives
  obtain ⟨last, b, hothers, hlast⟩ := hother outer (some (attach Truth.or alternatives value))
  have hor : Reading.step ⟨outer, inner, some a⟩ (.or : Symbol Truth) =
      some ⟨outer, ⟨some (inner.disjunction a), none, 0⟩, none⟩ := rfl
  refine ⟨last, b, ?_, ?_⟩
  · rw [Reading.steps_append, hsteps, Option.bind_some, Reading.steps_cons, hor, hvalue]
    exact hothers
  · rw [hlast]
    cases alternatives with
    | none => rfl
    | some earlier => exact Truth.or_assoc earlier value other

/-- A part of any kind may stand where alternatives may. -/
theorem weaken {joiner : Joiner} (h : ReadsAs value symbols joiner) :
    ReadsAs value symbols .or := by
  cases joiner with
  | atom => exact h.conjuncts.alternatives
  | and => exact h.alternatives
  | or => exact h

theorem parse_eq {joiner : Joiner} (h : ReadsAs value symbols joiner) :
    parse symbols = some value := by
  obtain ⟨frame, a, hsteps, hvalue⟩ := h.weaken [] none
  have hresult : Reading.result ⟨[], frame, some a⟩ = some (frame.disjunction a) := rfl
  have hstart : (Reading.start : Reading Truth) = ⟨[], ⟨none, none, 0⟩, none⟩ := rfl
  rw [parse, hstart, hsteps, Option.bind_some, hresult, hvalue]
  rfl

end ReadsAs

end SqlComposer
