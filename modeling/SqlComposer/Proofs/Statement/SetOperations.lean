import SqlComposer.Proofs.Layout.StatementLayout

/-!
# Chains of set operations

A query that is combined with others is written in front of them, and each of them in brackets, in
the order in which they are given. The text is read as SQL reads it: what stands in brackets belongs
together, intersections bind tighter than unions and differences, and what binds alike associates to
the left. It can be read in one way only. Every operation of the chain applies to all that stands in
front of it if no intersection stands behind an operation that binds less tightly, and only then.
What a fragment holds counts as part of the operand in which the fragment stands.
-/

namespace SqlComposer

/-! ## Trees -/

/-- What set operations combine. -/
inductive Combined where
  | operand (code : Code)
  | apply (operation : SetOperation) (left right : Combined)

namespace SetOperation

/-- Intersections bind tighter than unions and differences. -/
def isTight : SetOperation → Bool
  | intersect | intersectAll => true
  | union | unionAll | except | exceptAll => false

/-- An operation in front of another is applied first: it binds as tight, or the other does not. -/
def Leads (earlier later : SetOperation) : Prop := later.isTight → earlier.isTight

instance : DecidableRel Leads := fun _ _ ↦ inferInstanceAs (Decidable (_ → _))

def between (operation : SetOperation) : Code := [.word " ", .word operation.toSql, .word " "]

theorem toSql_injective : Function.Injective toSql := by
  intro operation other h
  cases operation <;> cases other <;> first | rfl | exact absurd h (by decide)

end SetOperation

namespace Combined

variable {first : Combined} {steps : List (SetOperation × Code)}

/-- Every operation applies to all that stands in front of it. -/
def chained (first : Combined) (steps : List (SetOperation × Code)) : Combined :=
  steps.foldl (fun tree step ↦ .apply step.1 tree (.operand step.2)) first

/-- Intersections apply to what stands directly in front of them, all other operations to all that
stands in front of them: `around` is what the last of these does to the operand that is read. -/
def grouped (around : Combined → Combined) (first : Combined) :
    List (SetOperation × Code) → Combined
  | [] => around first
  | (operation, code) :: rest =>
    if operation.isTight then grouped around (.apply operation first (.operand code)) rest
    else grouped (.apply operation (around first)) (.operand code) rest

/-- How often the operand in front was combined. -/
def spine : Combined → Nat
  | operand _ => 0
  | apply _ left _ => left.spine + 1

theorem grouped_tight (tight : ∀ step ∈ steps, step.1.isTight) (around : Combined → Combined) :
    grouped around first steps = around (chained first steps) := by
  induction steps generalizing first with
  | nil => rfl
  | cons step rest ih =>
    rw [List.forall_mem_cons] at tight
    rw [grouped, if_pos tight.1, ih tight.2]
    rfl

/-- Intersections behind another operation are on its right side. -/
theorem grouped_append (around : Combined → Combined) {operation : SetOperation}
    (loose : operation.isTight = false) (code : Code) {rest : List (SetOperation × Code)}
    (tight : ∀ step ∈ rest, step.1.isTight) :
    grouped around first (steps ++ (operation, code) :: rest) =
      .apply operation (grouped around first steps) (chained (.operand code) rest) := by
  induction steps generalizing around first with
  | nil => simp [grouped, loose, grouped_tight tight]
  | cons step others ih =>
    rw [List.cons_append, grouped, grouped]
    split <;> exact ih _

/-! ## Trees of chains -/

theorem spine_chained (first : Combined) (steps : List (SetOperation × Code)) :
    (chained first steps).spine = first.spine + steps.length := by
  induction steps generalizing first with
  | nil => rfl
  | cons step rest ih =>
    rw [chained, List.foldl_cons, ← chained, ih, spine, List.length_cons]
    omega

/-- Behind an operation that is no intersection, the intersections are not counted. -/
theorem spine_grouped (operation : SetOperation) (left first : Combined)
    (steps : List (SetOperation × Code)) :
    (grouped (.apply operation left) first steps).spine =
      left.spine + 1 + steps.countP fun step ↦ !step.1.isTight := by
  induction steps generalizing operation left first with
  | nil => rfl
  | cons step rest ih =>
    rw [grouped, List.countP_cons]
    split
    · rename_i tight
      rw [ih, if_neg (by simp [tight])]
      rfl
    · rename_i loose
      rw [ih, if_pos (by simpa using loose), spine]
      omega

/-- Operations that bind loosely are grouped in the order of the chain. -/
theorem grouped_loose (operation : SetOperation) (left : Combined)
    (loose : ∀ step ∈ steps, step.1.isTight = false) :
    grouped (.apply operation left) first steps = chained (.apply operation left first) steps := by
  induction steps generalizing operation left first with
  | nil => rfl
  | cons step rest ih =>
    rw [List.forall_mem_cons] at loose
    rw [grouped, if_neg (by simp [loose.1]), ih _ _ loose.2]
    rfl

/-- Behind a first operation the grouping is the chain iff no tight operation follows. -/
theorem grouped_eq_chained_behind (operation : SetOperation) (left first : Combined)
    (steps : List (SetOperation × Code)) :
    grouped (.apply operation left) first steps = chained (.apply operation left first) steps ↔
      ∀ step ∈ steps, step.1.isTight = false := by
  refine ⟨fun h ↦ ?_, grouped_loose operation left⟩
  have hspine := congrArg spine h
  rw [spine_grouped, spine_chained, spine] at hspine
  have hcount : steps.countP (fun step ↦ !step.1.isTight) = steps.length := by omega
  simpa using List.countP_eq_length.1 hcount

/-- The tree that is read is that of the chain if every operation comes before all later ones. -/
theorem grouped_eq_chained_iff (first : Combined) (steps : List (SetOperation × Code)) :
    grouped id first steps = chained first steps ↔
      (steps.map Prod.fst).Pairwise SetOperation.Leads := by
  induction steps generalizing first with
  | nil => simp [grouped, chained]
  | cons step rest ih =>
    rw [grouped, chained, List.foldl_cons, ← chained, List.map_cons, List.pairwise_cons,
      List.forall_mem_map]
    split
    · rename_i tight
      simp [ih, SetOperation.Leads, tight]
    · rename_i loose
      have hloose : step.1.isTight = false := by simpa using loose
      have hfirst : (∀ later ∈ rest, SetOperation.Leads step.1 later.1) ↔
          ∀ later ∈ rest, later.1.isTight = false := by
        simp [SetOperation.Leads, hloose]
      refine (grouped_eq_chained_behind step.1 first (.operand step.2) rest).trans ?_
      rw [hfirst]
      refine ⟨fun h ↦ ⟨h, ?_⟩, And.left⟩
      refine List.pairwise_map.2 (List.pairwise_of_forall_mem_list fun earlier _ later hlater ↦ ?_)
      simp [SetOperation.Leads, h later hlater]

end Combined

/-! ## Reading -/

def Piece.isOpening : Piece → Bool
  | .word content => content == "("
  | _ => false

namespace Code

variable {full : Prop} {top : Bool} {code other : Code} {depth : Nat}

/-- Whether code that starts in some brackets closes these and all others, and has no operation
outside of brackets. In front of a bracket, a word is the name of a function. -/
def closes : Nat → Code → Bool
  | depth, [] => depth == 0
  | depth, .word content :: rest =>
    if content == "(" then closes (depth + 1) rest
    else if content == ")" then depth != 0 && closes (depth - 1) rest
    else (depth != 0 || !operationWords.contains content || rest.head?.any Piece.isOpening) &&
      closes depth rest
  | depth, _ :: rest => closes depth rest

/-- Code is read as operands with operations between them. -/
inductive Reads : Bool → Code → Combined → Prop
  | operand {code : Code} (closed : closes 0 code) : Reads true code (.operand code)
  | intersect {operation : SetOperation} {code other : Code} {left : Combined}
      (tight : operation.isTight) (hleft : Reads true code left) (closed : closes 0 other) :
      Reads true (code ++ operation.between ++ other) (.apply operation left (.operand other))
  | loosen {code : Code} {tree : Combined} (h : Reads true code tree) : Reads false code tree
  | unite {operation : SetOperation} {code other : Code} {left right : Combined}
      (loose : operation.isTight = false) (hleft : Reads false code left)
      (hright : Reads true other right) :
      Reads false (code ++ operation.between ++ other) (.apply operation left right)

/-! ### Brackets -/

theorem closes_open (depth : Nat) (rest : Code) :
    closes depth (.word "(" :: rest) = closes (depth + 1) rest := by
  simp [closes]

theorem closes_close (depth : Nat) (rest : Code) :
    closes (depth + 1) (.word ")" :: rest) = closes depth rest := by
  simp [closes]

/-- A word that is no bracket is passed over, unless it names an operation outside of brackets. -/
theorem closes_word {word : String} (opens : word ≠ "(") (ends : word ≠ ")") {rest : Code}
    (inside : depth ≠ 0 ∨ word ∉ operationWords ∨ rest.head?.any Piece.isOpening) :
    closes depth (.word word :: rest) = closes depth rest := by
  have hinside : (depth != 0 || !operationWords.contains word ||
      rest.head?.any Piece.isOpening) = true := by
    simpa [or_assoc] using inside
  simp only [closes, beq_iff_eq, opens, ends, if_false, hinside, Bool.true_and]

theorem closes_parenthesized
    (h : ∀ rest, closes (depth + 1) (code ++ rest) = closes (depth + 1) rest) (rest : Code) :
    closes depth (parenthesized code ++ rest) = closes depth rest := by
  have hinner : closes depth (parenthesized code ++ rest) =
      closes (depth + 1) (code ++ .word ")" :: rest) := by
    rw [← closes_open, parenthesized]
    simp only [List.cons_append, List.append_assoc, List.nil_append]
  rw [hinner, h, closes_close]

theorem ne_brackets_function {name : String} (form : isFunctionName name) :
    name ≠ "(" ∧ name ≠ ")" := by
  constructor <;> rintro rfl <;> exact absurd form (by decide)

theorem ne_brackets_call {word : String} (h : isCallWord word) : word ≠ "(" ∧ word ≠ ")" := by
  simp only [isCallWord, Bool.or_eq_true, beq_iff_eq] at h
  rcases h with (form | rfl) | rfl
  · exact ne_brackets_function form
  all_goals decide

/-- Code that is laid out closes all brackets that it opens. -/
theorem Laid.closes (h : Laid full top code) (inside : top = false → depth ≠ 0) (rest : Code) :
    Code.closes depth (code ++ rest) = Code.closes depth rest := by
  induction h generalizing depth rest with
  | nil => rfl
  | @plain _ piece h =>
    cases piece with
    | word content =>
      simp only [Piece.isPlain, isPlainWord, List.contains_eq_mem, List.mem_append, List.mem_cons,
        List.not_mem_nil, or_false, Bool.not_eq_true', decide_eq_false_iff_not, not_or] at h
      exact closes_word h.1.1.1 h.1.1.2 (.inr (.inl h.2))
    | _ => rfl
  | append _ _ ih ihother => rw [List.append_assoc, ih inside, ihother inside]
  | @list _ word code opens _ _ ih =>
    have hword : ∀ word ∈ listWords, word ≠ "(" ∧ word ≠ ")" ∧ word ∉ operationWords := by decide
    obtain ⟨hopen, hclose, hoperation⟩ := hword word opens
    rw [List.cons_append, closes_word hopen hclose (.inr (.inl hoperation)), ih inside]
  | bracketed _ _ ih => exact closes_parenthesized (ih fun _ ↦ Nat.succ_ne_zero _) rest
  | @call _ word code calls _ ih =>
    obtain ⟨hopen, hclose⟩ := ne_brackets_call calls
    rw [List.cons_append, closes_word hopen hclose (.inr (.inr rfl))]
    exact closes_parenthesized (ih fun _ ↦ Nat.succ_ne_zero _) rest
  | @operation word h =>
    have hword : ∀ word ∈ operationWords, word ≠ "(" ∧ word ≠ ")" := by decide
    exact closes_word (hword word h).1 (hword word h).2 (.inl (inside rfl))
  | @format word form =>
    have hword : word ≠ "(" ∧ word ≠ ")" := by
      constructor <;> rintro rfl <;> exact absurd form (by decide)
    exact closes_word hword.1 hword.2 (.inl (inside rfl))
  | returned => rfl

theorem Laid.closed (h : Laid full true code) : Code.closes 0 code := by
  have hcode : Code.closes 0 (code ++ []) = Code.closes 0 [] := h.closes nofun []
  rwa [List.append_nil] at hcode

/-- Behind code that closes its brackets, it goes on outside of them. -/
theorem closes_append (h : closes depth code) (other : Code) :
    closes depth (code ++ other) = closes 0 other := by
  induction code generalizing depth with
  | nil =>
    have hdepth : depth = 0 := by simpa [closes] using h
    rw [hdepth, List.nil_append]
  | cons piece rest ih =>
    cases piece with
    | word content =>
      rw [closes] at h
      split at h
      · rename_i hopen
        rw [beq_iff_eq.1 hopen, List.cons_append, closes_open, ih h]
      · rename_i hopen
        split at h
        · rename_i hclose
          simp only [Bool.and_eq_true, bne_iff_ne] at h
          obtain ⟨depth, rfl⟩ := Nat.exists_eq_succ_of_ne_zero h.1
          rw [beq_iff_eq.1 hclose, List.cons_append, closes_close]
          exact ih h.2
        · rename_i hclose
          simp only [Bool.and_eq_true, Bool.or_eq_true, bne_iff_ne, Bool.not_eq_true',
            List.contains_eq_mem, decide_eq_false_iff_not] at h
          rw [List.cons_append, closes_word (by simpa using hopen) (by simpa using hclose) ?_,
            ih h.2]
          rcases h.1 with (inside | plain) | called
          · exact .inl inside
          · exact .inr (.inl plain)
          · refine .inr (.inr ?_)
            cases rest with
            | nil => cases called
            | cons => exact called
    | _ => exact ih h

/-- An operation does not belong to an operand. -/
theorem not_closes_operation (operation : SetOperation) (rest : Code) (blank : rest.head?.all
    fun piece ↦ !piece.isOpening) : closes 0 (.word operation.toSql :: rest) = false := by
  have hword : ∀ word ∈ operationWords, word ≠ "(" ∧ word ≠ ")" := by decide
  obtain ⟨hopen, hclose⟩ := hword _ (operation_mem operation)
  have hrest : rest.head?.any Piece.isOpening = false := by
    cases rest with
    | nil => rfl
    | cons piece others => simpa using blank
  simp [closes, hopen, hclose, operation_mem operation, hrest]

theorem not_closes_between (operation : SetOperation) (rest : Code) :
    closes 0 (operation.between ++ rest) = false := by
  have hblank : closes 0 (operation.between ++ rest) =
      closes 0 (.word operation.toSql :: .word " " :: rest) :=
    closes_word (by decide) (by decide) (.inr (.inl (by decide)))
  rw [hblank]
  exact not_closes_operation operation _ rfl

/-- No operand goes on behind an operation, so operands end where the first operation stands. -/
private theorem eq_nil_of_between {operation next : SetOperation} {part rest others : Code}
    (closed : closes 0 part) (h : operation.between ++ rest = part ++ (next.between ++ others)) :
    part = [] := by
  have hblank : Piece.word operation.toSql ≠ .word " " := by
    cases operation <;> simp [SetOperation.toSql]
  rcases part with _ | ⟨piece, _ | ⟨second, behind⟩⟩
  · rfl
  · simp only [SetOperation.between, List.cons_append, List.nil_append, List.cons.injEq] at h
    exact absurd h.2.1 hblank
  · simp only [SetOperation.between, List.cons_append, List.nil_append, List.cons.injEq] at h
    obtain ⟨rfl, rfl, h⟩ := h
    rw [closes_word (by decide) (by decide) (.inr (.inl (by decide))),
      not_closes_operation operation behind ?_] at closed
    · cases closed
    · cases behind with
      | nil => rfl
      | cons third others =>
        rw [List.cons_append, List.cons.injEq] at h
        rw [← h.1]
        rfl

/-- The first operand and the operation behind it are determined. -/
theorem operand_unique {operation next : SetOperation} {rest others : Code}
    (closed : closes 0 code) (hother : closes 0 other)
    (h : code ++ (operation.between ++ rest) = other ++ (next.between ++ others)) :
    code = other ∧ operation = next ∧ rest = others := by
  have hsame : code = other := by
    rcases List.append_eq_append_iff.1 h with ⟨part, rfl, hpart⟩ | ⟨part, rfl, hpart⟩
    · rw [closes_append closed] at hother
      rw [eq_nil_of_between hother hpart, List.append_nil]
    · rw [closes_append hother] at closed
      rw [eq_nil_of_between closed hpart, List.append_nil]
  subst hsame
  have hrest := List.append_cancel_left h
  simp only [SetOperation.between, List.cons_append, List.nil_append, List.cons.injEq, true_and,
    Piece.word.injEq] at hrest
  exact ⟨rfl, SetOperation.toSql_injective hrest.1, hrest.2⟩

/-! ### Chains -/

/-- Operands with operations between them. -/
def chain (first : Code) (steps : List (SetOperation × Code)) : Code :=
  first ++ steps.flatMap fun step ↦ step.1.between ++ step.2

theorem chain_cons (first : Code) (step : SetOperation × Code)
    (rest : List (SetOperation × Code)) :
    chain first (step :: rest) = first ++ (step.1.between ++ chain step.2 rest) := by
  simp [chain]

theorem chain_append (first : Code) (steps : List (SetOperation × Code)) (operation : SetOperation)
    (code : Code) (rest : List (SetOperation × Code)) :
    chain first (steps ++ (operation, code) :: rest) =
      chain first steps ++ operation.between ++ chain code rest := by
  simp [chain]

/-- The operands of a chain are determined. -/
theorem chain_unique {first first' : Code} {steps steps' : List (SetOperation × Code)}
    (closed : closes 0 first ∧ ∀ step ∈ steps, closes 0 step.2)
    (closed' : closes 0 first' ∧ ∀ step ∈ steps', closes 0 step.2)
    (h : chain first steps = chain first' steps') : first = first' ∧ steps = steps' := by
  induction steps generalizing first first' steps' with
  | nil =>
    cases steps' with
    | nil => simpa [chain] using h
    | cons step rest =>
      have hfirst : closes 0 (chain first []) := by simpa [chain] using closed.1
      rw [h, chain_cons, closes_append closed'.1, not_closes_between] at hfirst
      cases hfirst
  | cons step rest ih =>
    rw [List.forall_mem_cons] at closed
    cases steps' with
    | nil =>
      have hfirst : closes 0 (chain first' []) := by simpa [chain] using closed'.1
      rw [← h, chain_cons, closes_append closed.1, not_closes_between] at hfirst
      cases hfirst
    | cons step' rest' =>
      rw [List.forall_mem_cons] at closed'
      rw [chain_cons, chain_cons] at h
      obtain ⟨hfirst, hoperation, hrest⟩ := operand_unique closed.1 closed'.1 h
      obtain ⟨hcode, hsteps⟩ := ih closed.2 closed'.2 hrest
      exact ⟨hfirst, by rw [Prod.ext hoperation hcode, hsteps]⟩

/-- A reading is that of a chain of operands; if it is of an operand of other operations, they are
intersections. -/
theorem Reads.exists_chain {level : Bool} {tree : Combined} (h : Reads level code tree) :
    ∃ first steps, code = chain first steps ∧ closes 0 first ∧
      (∀ step ∈ steps, closes 0 step.2) ∧ tree = .grouped id (.operand first) steps ∧
      (level → ∀ step ∈ steps, step.1.isTight) := by
  induction h with
  | @operand code closed => exact ⟨code, [], by simp [chain], closed, nofun, rfl, nofun⟩
  | @intersect operation code other left tight _ closed ih =>
    obtain ⟨first, steps, rfl, hfirst, hsteps, rfl, htight⟩ := ih
    have hall : ∀ step ∈ steps ++ [(operation, other)], step.1.isTight :=
      List.forall_mem_append.2 ⟨htight rfl, List.forall_mem_singleton.2 tight⟩
    refine ⟨first, steps ++ [(operation, other)], ?_, hfirst,
      List.forall_mem_append.2 ⟨hsteps, List.forall_mem_singleton.2 closed⟩, ?_, fun _ ↦ hall⟩
    · rw [chain_append]
      simp [chain]
    · rw [Combined.grouped_tight hall, Combined.grouped_tight (htight rfl)]
      simp [Combined.chained]
  | loosen _ ih =>
    obtain ⟨first, steps, hcode, hfirst, hsteps, htree, -⟩ := ih
    exact ⟨first, steps, hcode, hfirst, hsteps, htree, nofun⟩
  | @unite operation code other left right loose _ _ ih ihright =>
    obtain ⟨first, steps, rfl, hfirst, hsteps, rfl, -⟩ := ih
    obtain ⟨second, others, rfl, hsecond, hothers, rfl, htight⟩ := ihright
    refine ⟨first, steps ++ (operation, second) :: others, (chain_append ..).symm, hfirst,
      List.forall_mem_append.2 ⟨hsteps, List.forall_mem_cons.2 ⟨hsecond, hothers⟩⟩, ?_, nofun⟩
    rw [Combined.grouped_append id loose second (htight rfl),
      Combined.grouped_tight (htight rfl)]
    rfl

/-- What stands in front of a chain has been read, up to the operand that the chain starts with. -/
private theorem reads_behind (before : Code) {around : Combined → Combined}
    (hbefore : ∀ {code tree}, Reads true code tree → Reads false (before ++ code) (around tree))
    {first : Code} {tree : Combined} (hfirst : Reads true first tree)
    {steps : List (SetOperation × Code)} (closed : ∀ step ∈ steps, closes 0 step.2) :
    Reads false (before ++ chain first steps) (.grouped around tree steps) := by
  induction steps generalizing before around first tree with
  | nil =>
    rw [chain, List.flatMap_nil, List.append_nil]
    exact hbefore hfirst
  | cons step rest ih =>
    rw [List.forall_mem_cons] at closed
    rw [Combined.grouped, chain_cons]
    split
    · rename_i tight
      have hjoined := ih before hbefore (hfirst.intersect tight closed.1) closed.2
      simpa [chain] using hjoined
    · rename_i loose
      have hloose : step.1.isTight = false := by simpa using loose
      have hjoined := ih (before ++ first ++ step.1.between)
        (fun h ↦ Reads.unite hloose (hbefore hfirst) h) (.operand closed.1) closed.2
      simpa using hjoined

/-- A chain of operands is read in one way. -/
theorem reads_chain_iff {first : Code} {steps : List (SetOperation × Code)}
    (hfirst : closes 0 first) (closed : ∀ step ∈ steps, closes 0 step.2) {tree : Combined} :
    Reads false (chain first steps) tree ↔ tree = .grouped id (.operand first) steps := by
  constructor
  · intro h
    obtain ⟨first', steps', hcode, hfirst', hsteps', rfl, -⟩ := h.exists_chain
    obtain ⟨rfl, rfl⟩ := chain_unique ⟨hfirst, closed⟩ ⟨hfirst', hsteps'⟩ hcode
    rfl
  · rintro rfl
    exact reads_behind [] (fun h ↦ .loosen h) (.operand hfirst) closed

end Code

/-! ## Selections -/

namespace Clauses

/-- A selection that is not combined with others and has no order, no bounds and no lock. -/
structure Plain {Sub : Type} (clauses : Clauses Sub) : Prop where
  verb : clauses.verb = .select
  combinations : clauses.combinations = []
  order : clauses.order = []
  limit : clauses.limit = none
  shape : clauses.shape.limitsToOne = false
  offset : clauses.offset = none
  lock : clauses.lock = none

theorem Plain.fold {Result : Type} {clauses : Clauses Statement} (plain : clauses.Plain)
    (step : Clauses Result → Result) : (Statement.foldClauses step clauses).Plain where
  verb := by rw [Statement.verb_fold, plain.verb, Statement.foldVerb]
  combinations := by rw [Statement.combinations_fold, plain.combinations, List.map_nil]
  order := by rw [Statement.order_fold, plain.order]
  limit := by rw [Statement.limit_fold, plain.limit]
  shape := by rw [Statement.shape_fold, plain.shape]
  offset := by rw [Statement.offset_fold, plain.offset]
  lock := by rw [Statement.lock_fold, plain.lock]

/-- What is combined with a plain selection stands behind it. -/
theorem Plain.code_combined {clauses : Clauses Written} (plain : clauses.Plain)
    (combinations : List (Combination Written)) :
    { clauses with combinations := combinations }.code = do
      let declarations ← CommonTable.declarations clauses.commonTables
      let front ← clauses.frontCode
      let codes ← combinations.mapM Combination.code
      return declarations ++ (front ++ spaced codes) := by
  have horder : clauses.orderCode = pure [] := by
    rw [orderCode, plain.order]
    rfl
  have hlock : clauses.lockCode = pure [] := by
    rw [lockCode, plain.lock]
    rfl
  have hlimit : clauses.writtenLimit = none := by
    rw [writtenLimit, plain.shape, plain.limit]
    rfl
  have hselect : { clauses with combinations := combinations }.selectCode = do
      let front ← clauses.frontCode
      let codes ← combinations.mapM Combination.code
      let order ← clauses.orderCode
      let lock ← clauses.lockCode
      return front ++ spaced codes ++ order ++ numberCode " LIMIT " clauses.writtenLimit ++
        numberCode " OFFSET " clauses.offset ++ lock := selectCode_eq _
  have hverb : { clauses with combinations := combinations }.verbCode =
      { clauses with combinations := combinations }.selectCode := by
    simp only [verbCode, plain.verb]
  have hnone : ∀ keyword, numberCode keyword none = [] := fun _ ↦ rfl
  rw [Clauses.code, hverb, hselect]
  simp only [horder, hlock, hlimit, plain.offset, hnone, bind_assoc, pure_bind, List.append_nil]

end Clauses

/-! ## Queries -/

namespace Query

variable {supplied : Fragment → Prop}

/-- The queries that a chain of calls combines with a query, one by one. -/
def operands (calls : List (SetOperation × List Query)) : List (SetOperation × Query) :=
  calls.flatMap fun call ↦ call.2.map (Prod.mk call.1)

/-- Combines a query with others, call by call, each of them in brackets. -/
def combineAll (query : Query) (calls : List (SetOperation × List Query)) : Query :=
  calls.foldl (fun query call ↦ query.combine call.1 call.2 true) query

/-- What is declared in front of a query. -/
def declarationsCode (query : Query) : Written :=
  CommonTable.declarations (Statement.foldClauses Clauses.code query.clauses).commonTables

theorem clauses_combineAll (query : Query) (calls : List (SetOperation × List Query)) :
    (query.combineAll calls).clauses = { query.clauses with
      combinations := query.clauses.combinations ++
        (operands calls).map fun step ↦ ⟨step.1, .query step.2.statement, true⟩ } := by
  induction calls generalizing query with
  | nil => simp [combineAll, operands]
  | cons call rest ih =>
    rw [combineAll, List.foldl_cons, ← combineAll, ih]
    simp [combine, modify, operands, List.map_map, Function.comp_def]

/-- The statement of a query is written in full, in brackets. -/
def WritesOperand (call : SetOperation × Query) (step : SetOperation × Code) : Prop :=
  step.1 = call.1 ∧ ∃ inner, call.2.statement.code = .ok inner ∧
    step.2 = Code.parenthesized inner

/-- What is combined can be written if every operand can. -/
theorem combinations_eq_ok_iff {calls : List (SetOperation × Query)} {codes : List Code} :
    (calls.map fun call ↦ (⟨call.1, .query call.2.statement.code, true⟩ :
      Combination Written)).mapM Combination.code = .ok codes ↔
    ∃ steps, List.Forall₂ WritesOperand calls steps ∧
      codes = steps.map fun step ↦ .word step.1.toSql :: .word " " :: step.2 := by
  induction calls generalizing codes with
  | nil =>
    rw [List.map_nil, List.mapM_nil, pure_eq_ok]
    simp [eq_comm]
  | cons call rest ih =>
    rw [List.map_cons, mapM_eq_ok_cons]
    constructor
    · rintro ⟨first, others, hfirst, hothers, rfl⟩
      obtain ⟨steps, hsteps, rfl⟩ := ih.1 hothers
      obtain ⟨inner, hinner, hcode⟩ := bind_eq_ok.1 hfirst
      cases pure_eq_ok.1 hcode
      exact ⟨(call.1, Code.parenthesized inner) :: steps, .cons ⟨rfl, inner, hinner, rfl⟩ hsteps,
        rfl⟩
    · rintro ⟨_, hsteps, rfl⟩
      cases hsteps with
      | @cons _ step _ steps hstep hsteps =>
        obtain ⟨operation, code⟩ := step
        obtain ⟨rfl, inner, hinner, rfl⟩ := hstep
        exact ⟨_, _, bind_eq_ok.2 ⟨inner, hinner, rfl⟩, ih.2 ⟨steps, hsteps, rfl⟩, rfl⟩

/-- The code of a plain selection that is combined with others. -/
theorem code_combineAll {base : Query} (plain : base.clauses.Plain)
    (calls : List (SetOperation × List Query)) :
    (base.combineAll calls).statement.code = do
      let declarations ← base.declarationsCode
      let front ← (Statement.foldClauses Clauses.code base.clauses).frontCode
      let codes ← ((operands calls).map fun call ↦ (⟨call.1, .query call.2.statement.code, true⟩ :
        Combination Written)).mapM Combination.code
      return declarations ++ (front ++ Clauses.spaced codes) := by
  have hfold (clauses : Clauses Statement) (combinations : List (Combination Statement)) :
      Statement.foldClauses Clauses.code { clauses with combinations := combinations } =
        { Statement.foldClauses Clauses.code clauses with
          combinations := combinations.map (Statement.foldCombination Clauses.code) } := by
    simp only [Statement.foldClauses_eq, Statement.foldCombinations_eq]
  rw [statement, clauses_combineAll, plain.combinations, List.nil_append, Statement.code,
    Statement.fold, hfold, (plain.fold Clauses.code).code_combined, List.map_map]
  rfl

/-- A query that methods lead to is whole: lists that are given empty do not matter here. -/
theorem Reachable.filled {query : Query} (reached : query.Reachable supplied) :
    query.statement.Throughout (Fragment.Fills False) (Statement.Filled False) :=
  reached.throughout (fun _ _ ↦ False.elim) (fun _ _ ↦ False.elim) (fun _ ↦ False.elim)
    fun _ _ ↦ False.elim

/-- What a selection writes in front of what it is combined with is one operand. -/
theorem Reachable.closes_front {query : Query} (reached : query.Reachable supplied)
    (verb : query.clauses.verb = .select) {front : Code}
    (h : (Statement.foldClauses Clauses.code query.clauses).frontCode = .ok front) :
    Code.closes 0 front := by
  have hverb : (Statement.foldClauses Clauses.code query.clauses).verb = .select := by
    rw [Statement.verb_fold, verb, Statement.foldVerb]
  have helement : Code.Element False true front := by
    refine Clauses.element_front (Statement.checked_foldClauses _ (fun _ _ ↦ trivial)
      (Statement.checked_iff.1 reached.filled.checked)) (fun result hembeds ↦ ?_) hverb h
    obtain ⟨sub, hsub, rfl⟩ := Statement.exists_embeds _ hembeds
    exact (reached.filled.embedded hsub).whole
  exact helement.laid.closed

/-- The parts that a query is combined from: what it declares, its own selection and the
operands. -/
structure WritesParts (base : Query) (calls : List (SetOperation × List Query))
    (declarations first : Code) (steps : List (SetOperation × Code)) : Prop where
  declared : base.declarationsCode = .ok declarations
  selected : base.statement.code = .ok (declarations ++ first)
  operands : List.Forall₂ WritesOperand (operands calls) steps

/-- The selection in front is the code of the query in front. -/
theorem frontCode_eq_ok {base : Query} (plain : base.clauses.Plain) {declarations first : Code}
    (declared : base.declarationsCode = .ok declarations) :
    (Statement.foldClauses Clauses.code base.clauses).frontCode = .ok first ↔
      base.statement.code = .ok (declarations ++ first) := by
  have hcode : base.statement.code = do
      let declarations ← base.declarationsCode
      let front ← (Statement.foldClauses Clauses.code base.clauses).frontCode
      return declarations ++ front := by
    have halone := code_combineAll plain []
    simpa [combineAll, operands, Clauses.spaced] using halone
  simp only [hcode, bind_eq_ok, pure_eq_ok]
  constructor
  · exact fun h ↦ ⟨declarations, declared, first, h, rfl⟩
  · rintro ⟨_, hdeclared, front, hfront, heq⟩
    cases declared.symm.trans hdeclared
    rwa [List.append_cancel_left heq] at hfront

/-- A plain selection that is combined with other queries, in a chain of calls, can be written if
all of them can. -/
theorem code_combineAll_eq_ok {base : Query} (plain : base.clauses.Plain)
    {calls : List (SetOperation × List Query)} {code : Code} :
    (base.combineAll calls).statement.code = .ok code ↔ ∃ declarations first steps,
      base.WritesParts calls declarations first steps ∧
      code = declarations ++ Code.chain first steps := by
  have hspaced (steps : List (SetOperation × Code)) :
      Clauses.spaced (steps.map fun step ↦ .word step.1.toSql :: .word " " :: step.2) =
        steps.flatMap fun step ↦ step.1.between ++ step.2 := by
    simp [Clauses.spaced, SetOperation.between, List.flatMap_map]
  simp only [code_combineAll plain, bind_eq_ok, pure_eq_ok, combinations_eq_ok_iff]
  constructor
  · rintro ⟨declarations, declared, first, hfirst, _, ⟨steps, hsteps, rfl⟩, rfl⟩
    exact ⟨declarations, first, steps,
      ⟨declared, (frontCode_eq_ok plain declared).1 hfirst, hsteps⟩, by rw [hspaced, Code.chain]⟩
  · rintro ⟨declarations, first, steps, ⟨declared, selected, hsteps⟩, rfl⟩
    exact ⟨declarations, declared, first, (frontCode_eq_ok plain declared).2 selected, _,
      ⟨steps, hsteps, rfl⟩, by rw [hspaced, Code.chain]⟩

/-- A plain selection that is combined with other queries, in a chain of calls, is written if all of
them are, one behind the other. The text is read in one way, with every query as it stands in its
brackets. In what is read, every operation applies to all that stands in front of it exactly if no
intersection is behind another operation. -/
theorem Reachable.reads_combineAll {base : Query} (reached : base.Reachable supplied)
    (plain : base.clauses.Plain) {calls : List (SetOperation × List Query)}
    (others : ∀ call ∈ operands calls, call.2.Reachable supplied) :
    (∀ code, (base.combineAll calls).statement.code = .ok code ↔ ∃ declarations first steps,
      base.WritesParts calls declarations first steps ∧
      code = declarations ++ Code.chain first steps) ∧
    ∀ declarations first steps, base.WritesParts calls declarations first steps →
      (∀ tree, Code.Reads false (Code.chain first steps) tree ↔
        tree = .grouped id (.operand first) steps) ∧
      (Combined.grouped id (.operand first) steps = .chained (.operand first) steps ↔
        ((operands calls).map Prod.fst).Pairwise SetOperation.Leads) := by
  refine ⟨fun code ↦ code_combineAll_eq_ok plain, fun declarations first steps parts ↦ ?_⟩
  have hclosed : Code.closes 0 first :=
    reached.closes_front plain.verb ((frontCode_eq_ok plain parts.declared).2 parts.selected)
  have hall : ∀ step ∈ steps, Code.closes 0 step.2 := by
    intro step hstep
    obtain ⟨call, hcall, -, inner, hinner, hcode⟩ := exists_of_forall₂ parts.operands hstep
    rw [hcode]
    exact ((others call hcall).filled.whole inner hinner).bracketed.laid.closed
  have hoperations : (operands calls).map Prod.fst = steps.map Prod.fst := by
    rw [← List.forall₂_eq_eq_eq, List.forall₂_map_left_iff, List.forall₂_map_right_iff]
    exact parts.operands.imp fun _ _ h ↦ h.1.symm
  refine ⟨fun tree ↦ Code.reads_chain_iff hclosed hall, ?_⟩
  rw [Combined.grouped_eq_chained_iff, hoperations]

def allOf (table : String) : Query := .ofTable (.named table)

theorem reachable_allOf (table : String) : (allOf table).Reachable supplied :=
  .ofTable (.named table) none none

theorem plain_allOf (table : String) : (allOf table).clauses.Plain :=
  ⟨rfl, rfl, rfl, rfl, rfl, rfl, rfl⟩

/-- Users are restricted to members, then guests and editors are added. -/
def admitted : List (SetOperation × List Query) :=
  [(.intersect, [allOf "member"]), (.union, [allOf "guest", allOf "editor"])]

theorem reachable_admitted : ∀ call ∈ operands admitted, call.2.Reachable supplied :=
  List.forall_mem_cons.2 ⟨reachable_allOf "member", List.forall_mem_cons.2
    ⟨reachable_allOf "guest", List.forall_mem_singleton.2 (reachable_allOf "editor")⟩⟩

/-- What is admitted is read as it is called for. -/
theorem reads_combineAll_admitted : ∃ code first steps,
    ((allOf "user").combineAll admitted).statement.code = .ok code ∧
    (allOf "user").WritesParts admitted [] first steps ∧
    ∀ tree, Code.Reads false code tree ↔ tree = .chained (.operand first) steps := by
  obtain ⟨code, hcode⟩ : ∃ code, ((allOf "user").combineAll admitted).statement.code = .ok code :=
    ⟨_, rfl⟩
  have husers : (allOf "user").Reachable fun _ ↦ True := reachable_allOf "user"
  obtain ⟨hwritten, hreads⟩ :=
    Reachable.reads_combineAll husers (plain_allOf "user") reachable_admitted
  obtain ⟨declarations, first, steps, hparts, rfl⟩ := (hwritten code).1 hcode
  cases hparts.declared
  obtain ⟨hgrouped, hchained⟩ := hreads [] first steps hparts
  rw [hchained.2 (by decide)] at hgrouped
  exact ⟨_, first, steps, hcode, hparts, hgrouped⟩

/-- Guests are added to the users, then all are restricted to members. -/
def restricted : List (SetOperation × List Query) :=
  [(.union, [allOf "guest"]), (.intersect, [allOf "member"])]

/-- Only the guests are restricted to members. -/
theorem not_reads_restricted : ∃ code first second third sql,
    (allOf "user").Reachable (fun _ ↦ True) ∧ (allOf "user").clauses.Plain ∧
    (∀ call ∈ operands restricted, call.2.Reachable fun _ ↦ True) ∧
    ((allOf "user").combineAll restricted).statement.code = .ok code ∧
    (allOf "user").WritesParts restricted [] first [(.union, second), (.intersect, third)] ∧
    Code.Reads false code (.apply .union (.operand first)
      (.apply .intersect (.operand second) (.operand third))) ∧
    ¬Code.Reads false code (.apply .intersect (.apply .union (.operand first) (.operand second))
      (.operand third)) ∧
    ((allOf "user").combineAll restricted).compile = .ok sql ∧
    sql.text = "SELECT \"user\".* FROM \"user\" UNION (SELECT \"guest\".* FROM \"guest\") " ++
      "INTERSECT (SELECT \"member\".* FROM \"member\")" := by
  obtain ⟨first, hfirst⟩ : ∃ first, (allOf "user").statement.code = .ok first := ⟨_, rfl⟩
  obtain ⟨second, hsecond⟩ : ∃ second, (allOf "guest").statement.code = .ok second := ⟨_, rfl⟩
  obtain ⟨third, hthird⟩ : ∃ third, (allOf "member").statement.code = .ok third := ⟨_, rfl⟩
  obtain ⟨sql, hsql⟩ : ∃ sql, ((allOf "user").combineAll restricted).compile = .ok sql := ⟨_, rfl⟩
  have hcode : ((allOf "user").combineAll restricted).statement.code = .ok (Code.chain first
      [(.union, Code.parenthesized second), (.intersect, Code.parenthesized third)]) := by
    cases hfirst
    cases hsecond
    cases hthird
    rfl
  have hreads (tree : Combined) : Code.Reads false (Code.chain first
      [(.union, Code.parenthesized second), (.intersect, Code.parenthesized third)]) tree ↔
      tree = .apply .union (.operand first) (.apply .intersect
        (.operand (Code.parenthesized second)) (.operand (Code.parenthesized third))) := by
    cases hfirst
    cases hsecond
    cases hthird
    exact Code.reads_chain_iff (by decide) (by decide)
  have hothers : ∀ call ∈ operands restricted, call.2.Reachable fun _ ↦ True :=
    List.forall_mem_cons.2 ⟨reachable_allOf "guest",
      List.forall_mem_singleton.2 (reachable_allOf "member")⟩
  refine ⟨_, first, _, _, sql, reachable_allOf "user", plain_allOf "user", hothers, hcode,
    ⟨rfl, hfirst, .cons ⟨rfl, second, hsecond, rfl⟩ (.cons ⟨rfl, third, hthird, rfl⟩ .nil)⟩,
    (hreads _).2 rfl, fun h ↦ ?_, hsql, ?_⟩
  · cases (hreads _).1 h
  · cases hsql
    decide +kernel

end Query
end SqlComposer
