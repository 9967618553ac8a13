import SqlComposer.Condition.Shorthand
import SqlComposer.Proofs.Code.PrintedText
import SqlComposer.Proofs.Script.ExceptResults
import SqlComposer.Proofs.Statement.FoldedClauses

/-!
# Leaves of a shorthand object

A shorthand object is read if it follows a grammar: members named `AND`, `OR` and `NOT` hold further
objects, every other one is named for a column and holds a value or comparisons with operands of
their forms. The grammar lists the leaves of an object in the order in which they stand in it, each
as the mark that it leaves in the text of the condition: a bound value, or a test for null. Going
through the reader, the condition and the layout of its formula, no leaf gets lost, comes in twice
or changes its place.
-/

namespace SqlComposer

/-! ## Marks in code -/

/-- What a value that is compared with leaves in the text of a condition. -/
inductive Mark where
  | value (literal : Literal)
  | isNull
  | isNotNull

namespace Mark

def bound? : Mark → Option Literal
  | value literal => some literal
  | isNull | isNotNull => none

/-- What a value that a column is compared with leaves: equality with null and its negation are
tests for null, every other value is bound. -/
def compared : Comparison → Literal → Mark
  | .equals, .null => isNull
  | .not, .null => isNotNull
  | _, literal => value literal

end Mark

mutual

def Piece.marks : Piece → List Mark
  | .bind value | .unused value => [.value value]
  | .word text =>
    if text = " IS NULL" then [.isNull] else if text = " IS NOT NULL" then [.isNotNull] else []
  | .itemsThenMissing items columns => Code.itemMarks items ++ Code.itemMarks columns
  | _ => []

def Code.marks : List Piece → List Mark
  | [] => []
  | piece :: rest => piece.marks ++ Code.marks rest

def Code.itemMarks : List (List Piece) → List Mark
  | [] => []
  | item :: rest => Code.marks item ++ Code.itemMarks rest

end

namespace Code

mutual

/-- The values bound by a piece are those of its marks. -/
theorem values_piece_eq_marks (piece : Piece) :
    piece.values = piece.marks.filterMap Mark.bound? := by
  cases piece with
  | word text =>
    unfold Piece.values Piece.marks
    split
    · rfl
    · split <;> rfl
  | itemsThenMissing items columns =>
    rw [Piece.values, Piece.marks, List.filterMap_append, itemValues_eq_marks items,
      itemValues_eq_marks columns]
  | _ => simp [Piece.values, Piece.marks, Mark.bound?]

/-- The values bound by code are those of its marks. -/
theorem values_eq_marks (code : Code) : values code = (marks code).filterMap Mark.bound? := by
  cases code with
  | nil => rfl
  | cons piece rest =>
    rw [values, marks, List.filterMap_append, values_piece_eq_marks piece, values_eq_marks rest]

theorem itemValues_eq_marks (items : List Code) :
    itemValues items = (itemMarks items).filterMap Mark.bound? := by
  cases items with
  | nil => rfl
  | cons item rest =>
    rw [itemValues, itemMarks, List.filterMap_append, values_eq_marks item,
      itemValues_eq_marks rest]

end

@[simp]
theorem marks_nil : marks [] = [] := by rw [marks]

@[simp]
theorem marks_cons (piece : Piece) (code : Code) :
    marks (piece :: code) = piece.marks ++ marks code := by rw [marks]

@[simp]
theorem marks_append (code other : Code) : marks (code ++ other) = marks code ++ marks other := by
  induction code with
  | nil => rw [marks_nil, List.nil_append, List.nil_append]
  | cons piece rest ih => simp only [List.cons_append, marks_cons, ih, List.append_assoc]

@[simp]
theorem marks_parenthesized (code : Code) : marks (parenthesized code) = marks code := by
  simp [parenthesized, Piece.marks]

/-- A separator without marks adds none. -/
theorem marks_separated {separator : String} (plain : (Piece.word separator).marks = [])
    (items : List Code) : marks (separated separator items) = items.flatMap marks := by
  unfold separated
  induction items with
  | nil => rfl
  | cons first rest ih =>
    cases rest with
    | nil => simp
    | cons second others =>
      rw [List.intercalate_cons_cons, marks_append, marks_append, ih, marks_cons, plain, marks_nil,
        List.flatMap_cons]
      simp

end Code

/-! ## Marks in formulas -/

namespace Formula

mutual

def marks : Formula → List Mark
  | .atom code => Code.marks code
  | .every formulas | .any formulas => marksOf formulas
  | .not formula => formula.marks

def marksOf : List Formula → List Mark
  | [] => []
  | formula :: rest => formula.marks ++ marksOf rest

end

/-- Joining layouts keeps their marks in order. -/
theorem marks_joined (joiner : Joiner) (layouts : List Layout) :
    (Layout.joined joiner layouts).elim [] (fun layout ↦ Code.marks layout.code) =
      layouts.flatMap fun layout ↦ Code.marks layout.code := by
  have hwithin (layout : Layout) : Code.marks (layout.within joiner) = Code.marks layout.code := by
    unfold Layout.within
    split
    · exact Code.marks_parenthesized layout.code
    · rfl
  have hword : (Piece.word joiner.word).marks = [] := by
    cases joiner <;> simp [Joiner.word, Piece.marks]
  match layouts with
  | [] => rfl
  | [layout] => simp [Layout.joined]
  | first :: second :: rest =>
    simp only [Layout.joined, Option.elim_some, Code.marks_separated hword, List.flatMap_map,
      hwithin]

mutual

/-- Laying out a formula keeps the marks of its atoms. -/
theorem marks_layout (formula : Formula) :
    formula.layout.elim [] (fun layout ↦ Code.marks layout.code) = formula.marks := by
  cases formula with
  | atom code => simp [layout, marks]
  | every formulas => rw [layout, marks, marks_joined, marks_layouts formulas]
  | any formulas => rw [layout, marks, marks_joined, marks_layouts formulas]
  | not formula =>
    rw [layout, marks, ← marks_layout formula]
    cases formula.layout with
    | none => rfl
    | some layout => simp [Layout.negated, Piece.marks]

theorem marks_layouts (formulas : List Formula) :
    ((layouts formulas).flatMap fun layout ↦ Code.marks layout.code) = marksOf formulas := by
  cases formulas with
  | nil => rfl
  | cons formula rest =>
    rw [layouts, marksOf, List.flatMap_append, marks_layouts rest, ← marks_layout formula]
    cases formula.layout <;> simp

end

theorem marks_code? (formula : Formula) : Code.marks (formula.code?.getD []) = formula.marks := by
  rw [← marks_layout, code?]
  cases formula.layout <;> simp

end Formula

/-! ## The grammar -/

namespace Json

/-- Whether a value has no values in it. -/
def isScalar : Json → Bool
  | list _ | object _ => false
  | _ => true

end Json

namespace Shorthand

/-- Whether a comparison takes one scalar. -/
def takesScalar (comparison : Comparison) : Bool :=
  comparison ∉ [.in, .notIn, .between, .jsonSupersetOf, .jsonSubsetOf]

/-- A value has the form that a comparison takes, and these are its marks. -/
inductive Operand : Comparison → Json → List Mark → Prop
  | list {comparison : Comparison} (member : comparison = .in ∨ comparison = .notIn)
      (items : List Json) :
      Operand comparison (.list items) (items.map fun item ↦ .value (.ofJson item))
  | pair (lower upper : Json) :
      Operand .between (.list [lower, upper]) [.value (.ofJson lower), .value (.ofJson upper)]
  | document {comparison : Comparison}
      (contains : comparison = .jsonSupersetOf ∨ comparison = .jsonSubsetOf) (value : Json) :
      Operand comparison value [.value (.json value)]
  | scalar {comparison : Comparison} (single : takesScalar comparison) {value : Json}
      (scalar : value.isScalar) : Operand comparison value [.compared comparison (.ofJson value)]

/-- Members that are named for comparisons and hold their operands. -/
inductive Comparisons : List (String × Json) → List Mark → Prop
  | nil : Comparisons [] []
  | cons {comparison : Comparison} {value : Json} {rest : List (String × Json)}
      {marks others : List Mark} (operand : Operand comparison value marks)
      (following : Comparisons rest others) :
      Comparisons ((comparison.key, value) :: rest) (marks ++ others)

/-- What a member named for a column may hold: a value other than an object, or comparisons. -/
inductive ColumnValue : Json → List Mark → Prop
  | direct {value : Json} (plain : ∀ members, value ≠ .object members) :
      ColumnValue value [.compared .equals (.ofJson value)]
  | compared {members : List (String × Json)} {marks : List Mark} (some : members ≠ [])
      (comparisons : Comparisons members marks) : ColumnValue (.object members) marks

/-- The names that hold further objects. -/
def connectives : List String := ["AND", "OR", "NOT"]

mutual

/-- A shorthand object and its marks in document order. -/
inductive Sentence : Json → List Mark → Prop
  | object {members : List (String × Json)} {marks : List Mark} (held : Members members marks) :
      Sentence (.object members) marks

inductive Members : List (String × Json) → List Mark → Prop
  | nil : Members [] []
  | branch {name : String} {value : Json} {rest : List (String × Json)} {marks others : List Mark}
      (connective : name ∈ connectives) (held : Branches value marks)
      (following : Members rest others) : Members ((name, value) :: rest) (marks ++ others)
  | column {name : String} {value : Json} {rest : List (String × Json)} {marks others : List Mark}
      {reference : ColumnRef} (other : name ∉ connectives)
      (parsed : ColumnRef.parse name = .ok reference) (held : ColumnValue value marks)
      (following : Members rest others) : Members ((name, value) :: rest) (marks ++ others)

/-- What a connective may hold: an object, or a list of them. -/
inductive Branches : Json → List Mark → Prop
  | object {members : List (String × Json)} {marks : List Mark} (held : Members members marks) :
      Branches (.object members) marks
  | list {items : List Json} {marks : List Mark} (held : Sentences items marks) :
      Branches (.list items) marks

inductive Sentences : List Json → List Mark → Prop
  | nil : Sentences [] []
  | cons {item : Json} {rest : List Json} {marks others : List Mark}
      (sentence : Sentence item marks) (following : Sentences rest others) :
      Sentences (item :: rest) (marks ++ others)

end

end Shorthand

/-! ## Marks of conditions -/

/-- The text that columns without a table stand behind. -/
def Qualifier.IsText (qualifier : Qualifier) : Prop :=
  ∀ piece ∈ qualifier, ∃ text, piece = .name text ∨ piece = .splice text

theorem ColumnRef.marks_code (column : ColumnRef) {qualifier : Qualifier}
    (text : qualifier.IsText) : Code.marks (column.code qualifier) = [] := by
  obtain ⟨table, name⟩ := column
  have hname : (if (⟨table, name⟩ : ColumnRef).isStar then Piece.word "*" else .name name).marks =
      [] := by
    split <;> simp [Piece.marks]
  cases table with
  | some table => simpa [ColumnRef.code, Piece.marks] using hname
  | none =>
    cases qualifier with
    | none => simpa [ColumnRef.code] using hname
    | some piece =>
      obtain ⟨word, rfl | rfl⟩ := text piece rfl
      · simpa [ColumnRef.code, Piece.marks] using hname
      · simpa [ColumnRef.code, Piece.marks] using hname

/-- No operator is a test for null. -/
theorem Comparison.operator_ne_test (comparison : Comparison) :
    comparison.operator ≠ " IS NULL" ∧ comparison.operator ≠ " IS NOT NULL" := by
  cases comparison <;> simp [operator]

open Statement (foldComparand foldCondition)

/-- The code of a comparison with an operand has the marks of the operand behind those of the left
side. -/
def Comparand.Writes (comparison : Comparison) (operand : Comparand Statement)
    (marks : List Mark) : Prop :=
  ∀ (left : Code) (qualifier : Qualifier), Code.marks left = [] → ∃ code,
    comparisonCode left comparison (foldComparand Clauses.code operand) qualifier = .ok code ∧
      Code.marks code = marks

/-- Behind every text, a condition is written with these marks. -/
def Condition.Writes (condition : Condition Statement) (marks : List Mark) : Prop :=
  ∀ qualifier : Qualifier, qualifier.IsText → ∃ formula,
    (foldCondition Clauses.code condition).formula qualifier = .ok formula ∧ formula.marks = marks

/-- Behind every text, conditions are written with these marks one after another. -/
def Condition.WriteAll (conditions : List (Condition Statement)) (marks : List Mark) : Prop :=
  ∀ qualifier : Qualifier, qualifier.IsText → ∃ written,
    formulas qualifier (conditions.map (foldCondition Clauses.code)) = .ok written ∧
      Formula.marksOf written = marks

namespace Comparand

variable {left : Code}

/-- A literal is bound unless it is a null that is tested for. -/
theorem writes_literal (comparison : Comparison) (literal : Literal) :
    Writes comparison (.term (.literal literal)) [.compared comparison literal] := by
  intro left qualifier hleft
  simp only [Statement.foldComparand, comparisonCode, Term.code]
  by_cases hnull : literal = .null ∧ (comparison = .equals ∨ comparison = .not)
  · obtain ⟨rfl, rfl | rfl⟩ := hnull
    · exact ⟨_, rfl, by simp [hleft, Piece.marks, Mark.compared]⟩
    · exact ⟨_, rfl, by simp [hleft, Piece.marks, Mark.compared]⟩
  · have hequals : ¬(comparison = .equals ∧ (Term.literal literal).isNull = true) := by
      rintro ⟨rfl, hterm⟩
      cases literal <;> simp_all [Term.isNull]
    have hnot : ¬(comparison = .not ∧ (Term.literal literal).isNull = true) := by
      rintro ⟨rfl, hterm⟩
      cases literal <;> simp_all [Term.isNull]
    have hmark : Mark.compared comparison literal = .value literal := by
      unfold Mark.compared
      split <;> simp_all
    have hoperator := comparison.operator_ne_test
    rw [if_neg hequals, if_neg hnot, hmark]
    simp only [bind, Except.bind, pure, Except.pure]
    split
    · refine ⟨_, rfl, ?_⟩
      split <;> split <;> simp [hleft, hoperator, Piece.marks]
    · refine ⟨_, rfl, ?_⟩
      simp [hleft, hoperator, Piece.marks]

/-- A list of literals is written as bound values with commas. -/
theorem listCode_literals (qualifier : Qualifier) (literals : List Literal) :
    Term.listCode qualifier (literals.map .literal) =
      .ok (Code.separated ", " (literals.map fun literal ↦ [.bind literal])) := by
  have hterms : (literals.map Term.literal).mapM (Term.code qualifier) =
      .ok (literals.map fun literal ↦ [.bind literal]) := by
    induction literals with
    | nil => rfl
    | cons literal rest ih =>
      exact mapM_eq_ok_cons.2 ⟨[.bind literal], _, rfl, ih, rfl⟩
  rw [Term.listCode, hterms]
  rfl

/-- Every literal of a list is bound; an empty list has a constant result. -/
theorem writes_list {comparison : Comparison}
    (member : comparison = .in ∨ comparison = .notIn) (literals : List Literal) :
    Writes comparison (.list (literals.map .literal)) (literals.map .value) := by
  intro left qualifier hleft
  simp only [Statement.foldComparand, comparisonCode]
  rw [if_pos member]
  cases literals with
  | nil =>
    have hdropped : Code.marks (Code.dropped left) = [] := by
      rw [Code.dropped, Code.values_eq_marks, hleft]
      rfl
    refine ⟨_, if_pos rfl, ?_⟩
    split <;> simp [hdropped, Piece.marks]
  | cons first rest =>
    have hoperator := comparison.operator_ne_test
    have hsome : ¬((first :: rest).map Term.literal).isEmpty = true := by simp
    rw [if_neg hsome, listCode_literals]
    refine ⟨_, rfl, ?_⟩
    rw [Code.marks_append, Code.marks_append, Code.marks_parenthesized,
      Code.marks_separated (by simp [Piece.marks]), List.flatMap_map]
    simp [hleft, hoperator, Piece.marks, List.map_eq_flatMap]

/-- Both ends of a range are bound. -/
theorem writes_range (lower upper : Literal) :
    Writes .between (.range (.literal lower) (.literal upper)) [.value lower, .value upper] := by
  intro left qualifier hleft
  refine ⟨_, rfl, ?_⟩
  simp [hleft, Piece.marks]

end Comparand

namespace Condition

variable {conditions others : List (Condition Statement)} {marks rest : List Mark}

theorem writeAll_nil : WriteAll [] [] := fun _ _ ↦ ⟨[], rfl, rfl⟩

theorem WriteAll.cons {condition : Condition Statement} (h : condition.Writes marks)
    (hrest : WriteAll others rest) : WriteAll (condition :: others) (marks ++ rest) := by
  intro qualifier text
  obtain ⟨first, hfirst, rfl⟩ := h qualifier text
  obtain ⟨written, hwritten, rfl⟩ := hrest qualifier text
  refine ⟨first :: written, ?_, rfl⟩
  rw [List.map_cons, formulas, hfirst, hwritten]
  rfl

theorem writeAll_single {condition : Condition Statement} (h : condition.Writes marks) :
    WriteAll [condition] marks := by
  have hcons := WriteAll.cons h writeAll_nil
  rwa [List.append_nil] at hcons

theorem WriteAll.append (h : WriteAll conditions marks) (hrest : WriteAll others rest) :
    WriteAll (conditions ++ others) (marks ++ rest) := by
  intro qualifier text
  obtain ⟨written, hwritten, rfl⟩ := h qualifier text
  obtain ⟨following, hfollowing, rfl⟩ := hrest qualifier text
  clear h
  induction conditions generalizing written with
  | nil =>
    rw [← Except.ok.inj hwritten]
    exact ⟨following, hfollowing, rfl⟩
  | cons condition conditions ih =>
    simp only [List.map_cons, formulas, bind_eq_ok, pure_eq_ok] at hwritten
    obtain ⟨first, hfirst, later, hlater, rfl⟩ := hwritten
    obtain ⟨all, hall, hmarks⟩ := ih later hlater
    refine ⟨first :: all, ?_, ?_⟩
    · simp only [List.cons_append, List.map_cons, formulas, hfirst, hall]
      rfl
    · rw [Formula.marksOf, Formula.marksOf, hmarks, List.append_assoc]

theorem WriteAll.every (h : WriteAll conditions marks) : Writes (.every conditions) marks := by
  intro qualifier text
  obtain ⟨written, hwritten, rfl⟩ := h qualifier text
  refine ⟨.every written, ?_, by rw [Formula.marks]⟩
  rw [foldCondition, Statement.foldConditions_eq, formula, hwritten]
  rfl

theorem WriteAll.any (h : WriteAll conditions marks) : Writes (.any conditions) marks := by
  intro qualifier text
  obtain ⟨written, hwritten, rfl⟩ := h qualifier text
  refine ⟨.any written, ?_, by rw [Formula.marks]⟩
  rw [foldCondition, Statement.foldConditions_eq, formula, hwritten]
  rfl

theorem Writes.not {condition : Condition Statement} (h : condition.Writes marks) :
    Writes (.not condition) marks := by
  intro qualifier text
  obtain ⟨written, hwritten, rfl⟩ := h qualifier text
  refine ⟨.not written, ?_, by rw [Formula.marks]⟩
  rw [foldCondition, formula, hwritten]
  rfl

/-- A comparison of a column is written with the marks of its operand. -/
theorem writes_compare (column : ColumnRef) {comparison : Comparison}
    {operand : Comparand Statement} (h : operand.Writes comparison marks) :
    Writes (.compare column comparison operand) marks := by
  intro qualifier text
  obtain ⟨code, hcode, rfl⟩ := h (column.code qualifier) qualifier (column.marks_code text)
  refine ⟨.atom code, ?_, by rw [Formula.marks]⟩
  rw [foldCondition, formula, hcode]
  rfl

/-- A comparison that takes its right-hand side can be put together for a column. -/
theorem exists_ofColumn {column : String} {reference : ColumnRef} {comparison : Comparison}
    {operand : Comparand Statement} (parsed : ColumnRef.parse column = .ok reference)
    (accepted : comparison.accepts operand) (h : operand.Writes comparison marks) :
    ∃ condition, ofColumn column comparison operand = .ok condition ∧ condition.Writes marks := by
  refine ⟨.compare reference comparison operand, ?_, writes_compare reference h⟩
  rw [ofColumn, if_pos accepted, parsed]
  rfl

end Condition

/-! ## Reading -/

namespace Comparison

theorem ofKey_key (comparison : Comparison) : ofKey comparison.key = .ok comparison := by
  cases comparison <;> rfl

theorem key_of_ofKey {key : String} {comparison : Comparison} (h : ofKey key = .ok comparison) :
    comparison.key = key := by
  unfold ofKey at h
  split at h
  · rename_i found hfound
    rw [← Except.ok.inj h]
    simpa using List.find?_some hfound
  · cases h

end Comparison

namespace Shorthand

open Condition (WriteAll writeAll_nil writeAll_single)

variable {marks : List Mark}

/-! ### What follows the grammar is read -/

/-- A comparison with a single value takes every scalar as it is. -/
theorem operand_scalar {comparison : Comparison} {value : Json} (single : takesScalar comparison)
    (scalar : value.isScalar) :
    operand comparison value =
      (.ok (.term (.literal (.ofJson value))) : Except Error (Comparand Statement)) := by
  cases value with
  | list | object => cases scalar
  | _ => cases comparison <;> first | rfl | exact absurd single (by decide)

/-- Every operand of the grammar is accepted and written with its marks. -/
theorem exists_operand {comparison : Comparison} {value : Json}
    (h : Operand comparison value marks) :
    ∃ right : Comparand Statement, operand comparison value = .ok right ∧
      comparison.accepts right ∧ right.Writes comparison marks := by
  cases h with
  | list member items =>
    refine ⟨.list ((items.map .ofJson).map .literal), ?_, ?_, ?_⟩
    · rcases member with rfl | rfl <;> simp [operand]
    · rcases member with rfl | rfl <;> rfl
    · simpa only [List.map_map, Function.comp_def] using
        Comparand.writes_list member (items.map .ofJson)
  | pair lower upper => exact ⟨_, rfl, rfl, Comparand.writes_range (.ofJson lower) (.ofJson upper)⟩
  | document contains value =>
    refine ⟨.term (.literal (.json value)), ?_, ?_, ?_⟩
    · rcases contains with rfl | rfl <;> rfl
    · rcases contains with rfl | rfl <;> rfl
    · rcases contains with rfl | rfl <;> exact Comparand.writes_literal _ (.json value)
  | scalar single scalar =>
    refine ⟨.term (.literal (.ofJson value)), operand_scalar single scalar, ?_,
      Comparand.writes_literal comparison _⟩
    cases comparison <;> first | rfl | exact absurd single (by decide)

/-- Every list of comparisons of the grammar is accepted and written with its marks. -/
theorem exists_comparisons {column : String} {reference : ColumnRef}
    {members : List (String × Json)} (parsed : ColumnRef.parse column = .ok reference)
    (h : Comparisons members marks) :
    ∃ conditions : List (Condition Statement), (members.mapM fun (key, value) => do
        let comparison ← Comparison.ofKey key
        Condition.ofColumn column comparison (← operand comparison value)) = .ok conditions ∧
      WriteAll conditions marks := by
  induction h with
  | nil => exact ⟨[], rfl, writeAll_nil⟩
  | @cons comparison value rest marks others hoperand following ih =>
    obtain ⟨right, hright, haccepted, hwrites⟩ := exists_operand hoperand
    obtain ⟨first, hfirst, hfirstWrites⟩ :=
      Condition.exists_ofColumn parsed haccepted hwrites
    obtain ⟨conditions, hconditions, hall⟩ := ih
    refine ⟨first :: conditions, mapM_eq_ok_cons.2 ?_, hall.cons hfirstWrites⟩
    refine ⟨first, conditions, ?_, hconditions, rfl⟩
    simp only [Comparison.ofKey_key, hright, hfirst, bind, Except.bind]

/-- Every value of the grammar for a column is accepted and written with its marks. -/
theorem exists_columnConditions {column : String} {reference : ColumnRef} {value : Json}
    (parsed : ColumnRef.parse column = .ok reference) (h : ColumnValue value marks) :
    ∃ conditions : List (Condition Statement),
      columnConditions column value = .ok conditions ∧ WriteAll conditions marks := by
  cases h with
  | direct plain =>
    obtain ⟨condition, hcondition, hwrites⟩ := Condition.exists_ofColumn parsed rfl
      (Comparand.writes_literal .equals (.ofJson value))
    refine ⟨[condition], ?_, writeAll_single hwrites⟩
    have hone : (do return [← Condition.ofTerm column .equals (.literal (.ofJson value))]) =
        (.ok [condition] : Except Error (List (Condition Statement))) := by
      rw [Condition.ofTerm, hcondition]
      rfl
    cases value with
    | object members => exact absurd rfl (plain members)
    | _ => exact hone
  | @compared members marks some comparisons =>
    obtain ⟨conditions, hconditions, hall⟩ := exists_comparisons parsed comparisons
    refine ⟨conditions, ?_, hall⟩
    cases members with
    | nil => exact absurd rfl some
    | cons first rest => exact hconditions

mutual

/-- Every sentence of the grammar is accepted and written with its marks. -/
theorem exists_condition {value : Json} {marks : List Mark} : Sentence value marks →
    ∃ result : Condition Statement, condition value = .ok result ∧ result.Writes marks
  | .object held => by
    obtain ⟨conditions, hconditions, hall⟩ := exists_memberConditions held
    refine ⟨.every conditions, ?_, hall.every⟩
    rw [condition, hconditions]
    rfl

theorem exists_memberConditions {members : List (String × Json)} {marks : List Mark} :
    Members members marks → ∃ conditions : List (Condition Statement),
      memberConditions members = .ok conditions ∧ WriteAll conditions marks
  | .nil => ⟨[], rfl, writeAll_nil⟩
  | .branch connective held following => by
    obtain ⟨inner, hinner, hheld⟩ := exists_branches held
    obtain ⟨others, hothers, hall⟩ := exists_memberConditions following
    simp only [connectives, List.mem_cons, List.not_mem_nil, or_false] at connective
    rcases connective with rfl | rfl | rfl
    · refine ⟨.every inner :: others, ?_, hall.cons hheld.every⟩
      simp [memberConditions, hinner, hothers, bind, Except.bind, pure, Except.pure]
    · refine ⟨.any inner :: others, ?_, hall.cons hheld.any⟩
      simp [memberConditions, hinner, hothers, bind, Except.bind, pure, Except.pure]
    · refine ⟨.not (.every inner) :: others, ?_, hall.cons hheld.every.not⟩
      simp [memberConditions, hinner, hothers, bind, Except.bind, pure, Except.pure]
  | .column other parsed held following => by
    obtain ⟨first, hfirst, hheld⟩ := exists_columnConditions parsed held
    obtain ⟨others, hothers, hall⟩ := exists_memberConditions following
    simp only [connectives, List.mem_cons, List.not_mem_nil, or_false, not_or] at other
    refine ⟨first ++ others, ?_, hheld.append hall⟩
    rw [memberConditions, if_neg other.1, if_neg other.2.1, if_neg other.2.2, hfirst, hothers]
    rfl

theorem exists_branches {value : Json} {marks : List Mark} : Branches value marks →
    ∃ conditions : List (Condition Statement), branches value = .ok conditions ∧
      WriteAll conditions marks
  | .object held => by
    obtain ⟨conditions, hconditions, hall⟩ := exists_memberConditions held
    refine ⟨[.every conditions], ?_, writeAll_single hall.every⟩
    rw [branches, hconditions]
    rfl
  | .list held => by
    obtain ⟨conditions, hconditions, hall⟩ := exists_conditions held
    exact ⟨conditions, by rw [branches, hconditions], hall⟩

theorem exists_conditions {items : List Json} {marks : List Mark} : Sentences items marks →
    ∃ results : List (Condition Statement), conditions items = .ok results ∧ WriteAll results marks
  | .nil => ⟨[], rfl, writeAll_nil⟩
  | .cons sentence following => by
    obtain ⟨first, hfirst, hwrites⟩ := exists_condition sentence
    obtain ⟨others, hothers, hall⟩ := exists_conditions following
    refine ⟨first :: others, ?_, hall.cons hwrites⟩
    rw [conditions, hfirst, hothers]
    rfl

end

/-! ### What is read follows the grammar -/

theorem exists_operand_marks {comparison : Comparison} {value : Json} {right : Comparand Statement}
    (h : operand comparison value = .ok right) : ∃ marks, Operand comparison value marks := by
  unfold operand at h
  split at h
  case h_1 | h_2 =>
    split at h
    · exact ⟨_, .list (by simp) _⟩
    · cases h
  case h_3 =>
    split at h
    · exact ⟨_, .pair _ _⟩
    · cases h
  case h_4 | h_5 => exact ⟨_, .document (by simp) value⟩
  case h_6 hin hnotIn hbetween hsuperset hsubset =>
    split at h
    · cases h
    · cases h
    · rename_i hlist hobject
      refine ⟨_, .scalar ?_ ?_⟩
      · simp only [takesScalar, List.mem_cons, List.not_mem_nil, or_false, not_or,
          decide_eq_true_eq]
        exact ⟨hin, hnotIn, hbetween, hsuperset, hsubset⟩
      · cases value with
        | list items => exact absurd rfl (hlist items)
        | object members => exact absurd rfl (hobject members)
        | _ => rfl

/-- Accepted comparisons of a column belong to the grammar. -/
theorem exists_comparisons_marks {column : String} {members : List (String × Json)}
    {results : List (Condition Statement)}
    (h : (members.mapM fun (key, value) => do
      let comparison ← Comparison.ofKey key
      Condition.ofColumn column comparison (← operand comparison value)) = .ok results) :
    ∃ marks, Comparisons members marks := by
  induction members generalizing results with
  | nil => exact ⟨[], .nil⟩
  | cons member rest ih =>
    obtain ⟨key, value⟩ := member
    obtain ⟨first, others, hfirst, hothers, rfl⟩ := mapM_eq_ok_cons.1 h
    simp only [bind_eq_ok] at hfirst
    obtain ⟨comparison, hcomparison, right, hright, _⟩ := hfirst
    obtain ⟨marks, hmarks⟩ := exists_operand_marks hright
    obtain ⟨following, hfollowing⟩ := ih hothers
    rw [← Comparison.key_of_ofKey hcomparison]
    exact ⟨marks ++ following, .cons hmarks hfollowing⟩

/-- A condition on a column comes from a name that can be read. -/
theorem exists_reference {column : String} {comparison : Comparison}
    {right : Comparand Statement} {result : Condition Statement}
    (h : Condition.ofColumn column comparison right = .ok result) :
    ∃ reference, ColumnRef.parse column = .ok reference := by
  unfold Condition.ofColumn at h
  split at h
  · obtain ⟨reference, hreference, _⟩ := map_eq_ok.1 h
    exact ⟨reference, hreference⟩
  · cases h

/-- An accepted value of a column belongs to the grammar, and its column has a readable name. -/
theorem exists_columnValue {column : String} {value : Json} {results : List (Condition Statement)}
    (h : columnConditions column value = .ok results) :
    ∃ reference marks, ColumnRef.parse column = .ok reference ∧ ColumnValue value marks := by
  unfold columnConditions at h
  split at h
  · cases h
  · rename_i members some
    obtain ⟨marks, hmarks⟩ := exists_comparisons_marks h
    cases members with
    | nil => exact absurd rfl some
    | cons member rest =>
      obtain ⟨_, _, hfirst, _⟩ := mapM_eq_ok_cons.1 h
      simp only [bind_eq_ok] at hfirst
      obtain ⟨_, _, _, _, hcondition⟩ := hfirst
      obtain ⟨reference, hreference⟩ := exists_reference hcondition
      exact ⟨reference, marks, hreference, .compared (List.cons_ne_nil member rest) hmarks⟩
  · rename_i plain
    simp only [bind_eq_ok] at h
    obtain ⟨_, hcondition, _⟩ := h
    obtain ⟨reference, hreference⟩ := exists_reference hcondition
    exact ⟨reference, _, hreference, .direct plain⟩

/-- Members that are read are read one by one, each as what its name asks for. -/
theorem parts_of_memberConditions {name : String} {value : Json} {rest : List (String × Json)}
    {results : List (Condition Statement)}
    (h : memberConditions ((name, value) :: rest) = .ok results) :
    (∃ others : List (Condition Statement), memberConditions rest = .ok others) ∧
      ((name ∈ connectives ∧ ∃ inner : List (Condition Statement), branches value = .ok inner) ∨
        (name ∉ connectives ∧
          ∃ first : List (Condition Statement), columnConditions name value = .ok first)) := by
  by_cases hname : name ∈ connectives
  · have hparts : ∃ inner : List (Condition Statement), branches value = .ok inner ∧
        ∃ others : List (Condition Statement), memberConditions rest = .ok others := by
      simp only [connectives, List.mem_cons, List.not_mem_nil, or_false] at hname
      rcases hname with rfl | rfl | rfl
      all_goals
        simp only [memberConditions, bind_eq_ok, String.reduceEq, ↓reduceIte, pure_bind] at h
        obtain ⟨inner, hinner, others, hothers, _⟩ := h
        exact ⟨inner, hinner, others, hothers⟩
    obtain ⟨inner, hinner, hothers⟩ := hparts
    exact ⟨hothers, .inl ⟨hname, inner, hinner⟩⟩
  · have hother := hname
    simp only [connectives, List.mem_cons, List.not_mem_nil, or_false, not_or] at hother
    rw [memberConditions, if_neg hother.1, if_neg hother.2.1, if_neg hother.2.2] at h
    simp only [bind_eq_ok] at h
    obtain ⟨first, hfirst, others, hothers, _⟩ := h
    exact ⟨⟨others, hothers⟩, .inr ⟨hname, first, hfirst⟩⟩

mutual

theorem exists_sentence (value : Json) (result : Condition Statement)
    (h : condition value = .ok result) : ∃ marks, Sentence value marks := by
  cases value with
  | object members =>
    simp only [condition, bind_eq_ok] at h
    obtain ⟨results, hresults, _⟩ := h
    obtain ⟨marks, hmarks⟩ := exists_members members results hresults
    exact ⟨marks, .object hmarks⟩
  | _ => cases h

theorem exists_members (members : List (String × Json)) (results : List (Condition Statement))
    (h : memberConditions members = .ok results) : ∃ marks, Members members marks := by
  match members with
  | [] => exact ⟨[], .nil⟩
  | (name, value) :: rest =>
    obtain ⟨⟨others, hothers⟩, hmember⟩ := parts_of_memberConditions h
    obtain ⟨following, hfollowing⟩ := exists_members rest others hothers
    rcases hmember with ⟨hname, inner, hinner⟩ | ⟨hname, first, hfirst⟩
    · obtain ⟨marks, hmarks⟩ := exists_branch value inner hinner
      exact ⟨marks ++ following, .branch hname hmarks hfollowing⟩
    · obtain ⟨reference, marks, hreference, hmarks⟩ := exists_columnValue hfirst
      exact ⟨marks ++ following, .column hname hreference hmarks hfollowing⟩

theorem exists_branch (value : Json) (results : List (Condition Statement))
    (h : branches value = .ok results) : ∃ marks, Branches value marks := by
  cases value with
  | list items =>
    obtain ⟨marks, hmarks⟩ := exists_sentences items results h
    exact ⟨marks, .list hmarks⟩
  | object members =>
    simp only [branches, bind_eq_ok] at h
    obtain ⟨inner, hinner, _⟩ := h
    obtain ⟨marks, hmarks⟩ := exists_members members inner hinner
    exact ⟨marks, .object hmarks⟩
  | _ => cases h

theorem exists_sentences (items : List Json) (results : List (Condition Statement))
    (h : conditions items = .ok results) : ∃ marks, Sentences items marks := by
  match items with
  | [] => exact ⟨[], .nil⟩
  | item :: rest =>
    simp only [conditions, bind_eq_ok] at h
    obtain ⟨first, hfirst, others, hothers, _⟩ := h
    obtain ⟨marks, hmarks⟩ := exists_sentence item first hfirst
    obtain ⟨following, hfollowing⟩ := exists_sentences rest others hothers
    exact ⟨marks ++ following, .cons hmarks hfollowing⟩

end

/-! ### No leaf is lost -/

/-- A JSON value is read as a condition just if it follows the grammar. The condition is then
written behind every text, and its code has the marks of the value in document order and binds
their values, nothing else. -/
theorem condition_leaves (json : Json) :
    ((∃ result : Condition Statement, condition json = .ok result) ↔
      ∃ marks, Sentence json marks) ∧
    ∀ (result : Condition Statement) (marks : List Mark), condition json = .ok result →
      Sentence json marks → ∀ qualifier : Qualifier, qualifier.IsText →
        ∃ code, (foldCondition Clauses.code result).code? qualifier = .ok code ∧
          Code.marks (code.getD []) = marks ∧
          Code.values (code.getD []) = marks.filterMap Mark.bound? := by
  refine ⟨⟨?_, ?_⟩, ?_⟩
  · rintro ⟨result, hresult⟩
    exact exists_sentence json result hresult
  · rintro ⟨marks, hmarks⟩
    obtain ⟨result, hresult, _⟩ := exists_condition hmarks
    exact ⟨result, hresult⟩
  · intro result marks hresult hmarks qualifier text
    obtain ⟨_, hsame, hwrites⟩ := exists_condition hmarks
    obtain rfl := Except.ok.inj (hresult.symm.trans hsame)
    obtain ⟨formula, hformula, rfl⟩ := hwrites qualifier text
    refine ⟨formula.code?, ?_, formula.marks_code?, ?_⟩
    · rw [Condition.code?, hformula]
      rfl
    · rw [Code.values_eq_marks, formula.marks_code?]

/-- A search for users who are not deleted and who have one of two ages or a dark theme. -/
def search : Json :=
  .object [("deletedAt", .null), ("OR", .list [
    .object [("age", .object [("in", .list [.int 30, .int 40])])],
    .object [("theme", .object [("jsonSupersetOf", .object [("dark", .bool true)])])]])]

theorem condition_leaves_search : ∃ (result : Condition Statement) (marks : List Mark),
    condition search = .ok result ∧ Sentence search marks ∧
      Qualifier.IsText (some (.name "user")) ∧
      ∃ code, (foldCondition Clauses.code result).code? (some (.name "user")) = .ok code ∧
        Code.marks (code.getD []) = marks ∧
        Code.values (code.getD []) =
          [.int 30, .int 40, .json (.object [("dark", .bool true)])] := by
  have hdeleted : ColumnRef.parse "deletedAt" = .ok ⟨none, "deletedAt"⟩ := by decide +kernel
  have hage : ColumnRef.parse "age" = .ok ⟨none, "age"⟩ := by decide +kernel
  have htheme : ColumnRef.parse "theme" = .ok ⟨none, "theme"⟩ := by decide +kernel
  have hin : Comparisons [("in", .list [.int 30, .int 40])]
      [.value (.ofJson (.int 30)), .value (.ofJson (.int 40))] :=
    .cons (.list (.inl rfl) [.int 30, .int 40]) .nil
  have hdark : Comparisons [("jsonSupersetOf", .object [("dark", .bool true)])]
      [.value (.json (.object [("dark", .bool true)]))] :=
    .cons (.document (.inl rfl) _) .nil
  have hages : Sentence (.object [("age", .object [("in", .list [.int 30, .int 40])])])
      [.value (.ofJson (.int 30)), .value (.ofJson (.int 40))] :=
    .object (.column (by decide) hage (.compared (by simp) hin) .nil)
  have hthemes : Sentence
      (.object [("theme", .object [("jsonSupersetOf", .object [("dark", .bool true)])])])
      [.value (.json (.object [("dark", .bool true)]))] :=
    .object (.column (by decide) htheme (.compared (by simp) hdark) .nil)
  have hnull : ColumnValue .null [.isNull] := .direct fun _ h ↦ Json.noConfusion h
  have hsearch : Sentence search [.isNull, .value (.ofJson (.int 30)), .value (.ofJson (.int 40)),
      .value (.json (.object [("dark", .bool true)]))] :=
    .object (.column (by decide) hdeleted hnull
      (.branch (by decide) (.list (.cons hages (.cons hthemes .nil))) .nil))
  obtain ⟨result, hresult⟩ := (condition_leaves search).1.2 ⟨_, hsearch⟩
  have htext : Qualifier.IsText (some (.name "user")) := by
    rintro piece ⟨⟩
    exact ⟨"user", .inl rfl⟩
  exact ⟨result, _, hresult, hsearch, htext,
    (condition_leaves search).2 result _ hresult hsearch _ htext⟩

/-- The operand of a containment is bound as JSON, although a number alone would be bound as an
integer. -/
theorem condition_contains_number : ∃ (result : Condition Statement) (code : Code),
    condition (.object [("data", .object [("jsonSupersetOf", .int 5)])]) = .ok result ∧
      (foldCondition Clauses.code result).code? (some (.splice "user")) = .ok (some code) ∧
      Code.values code = [.json (.int 5)] ∧ Code.values code ≠ [.ofJson (.int 5)] := by
  have hdata : ColumnRef.parse "data" = .ok ⟨none, "data"⟩ := by decide +kernel
  refine ⟨.every [.compare ⟨none, "data"⟩ .jsonSupersetOf (.term (.literal (.json (.int 5))))], _,
    ?_, rfl, rfl, ?_⟩
  · have hkey : Comparison.ofKey "jsonSupersetOf" = .ok .jsonSupersetOf :=
      Comparison.ofKey_key .jsonSupersetOf
    simp [condition, memberConditions, columnConditions, operand, Condition.ofColumn,
      Comparison.accepts, hdata, hkey, Except.map, bind, Except.bind, pure, Except.pure]
  · have hnumber : Literal.ofJson (.int 5) = .int 5 := by rw [Literal.ofJson, if_pos (by decide)]
    show [Literal.json (.int 5)] ≠ [Literal.ofJson (.int 5)]
    simp [hnumber]

end Shorthand
end SqlComposer
