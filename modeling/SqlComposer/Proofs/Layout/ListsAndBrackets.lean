import SqlComposer.Clause.Source
import SqlComposer.Clause.Transfer
import SqlComposer.Proofs.Code.PrintedText
import SqlComposer.Proofs.Script.ExceptResults

/-!
# Lists and brackets in code

Some words open a list, as ` SET ` and ` GROUP BY ` do, and so does every opening bracket but those
of a call and of a window. Code is laid out if the elements of a list stand behind what opens it,
every bracket is closed, and the words of set operations stand in brackets unless they are admitted
outside of them. Code that is laid out is put together from parts that are, so clauses can be looked
at one by one: for a list that is empty, and for what is kept together by brackets.
-/

namespace SqlComposer

/-! ## Words -/

namespace Code

/-- The words that open a list which goes on to the end of its clause. -/
def listWords : List String :=
  [" SET ", " DO UPDATE SET ", " OF ", " USING ", " GROUP BY ", " ORDER BY ", "ORDER BY ",
    "PARTITION BY ", " WINDOW ", " RETURNING ", "WITH ", "RECURSIVE "]

def operationWords : List String :=
  ["UNION", "UNION ALL", "INTERSECT", "INTERSECT ALL", "EXCEPT", "EXCEPT ALL"]

/-- Whether a word opens no list, is no bracket and no set operation. -/
def isPlainWord (word : String) : Bool :=
  !(["(", ")"] ++ listWords ++ operationWords).contains word

/-- Whether the brackets behind a word may be empty: they hold arguments or describe a window. -/
def isCallWord (word : String) : Bool :=
  isFunctionName word || word == " OVER " || word == " AS "

theorem isCallWord_function {name : String} (form : isFunctionName name) : isCallWord name := by
  rw [isCallWord, form]
  rfl

theorem operation_mem (operation : SetOperation) : operation.toSql ∈ operationWords := by
  cases operation <;> decide

end Code

/-- Whether a piece stands for itself. -/
def Piece.isPlain : Piece → Bool
  | .word content => Code.isPlainWord content
  | .itemsThenMissing _ _ => false
  | .name _ | .text _ | .splice _ | .bind _ | .unused _ => true

/-! ## Elements -/

mutual

/-- Whether the text of a piece starts an element: it neither ends what stands in front of it nor
goes on to the next part of a clause. -/
def Piece.begins : Piece → Bool
  | .word content => content.toList.head?.any fun c ↦ !(c == ' ' || c == ',' || c == ')')
  | .splice sql => sql != ""
  | .name _ | .text _ | .bind _ => true
  | .unused _ => false
  | .itemsThenMissing items columns =>
    Code.firstBegins items || items.isEmpty && Code.firstBegins columns

/-- Whether code starts with an element. -/
def Code.begins : Code → Bool
  | [] => false
  | .unused _ :: rest => Code.begins rest
  | piece :: _ => piece.begins

def Code.firstBegins : List Code → Bool
  | [] => false
  | item :: _ => Code.begins item

end

namespace Code

variable {full : Prop} {top : Bool} {code other : Code}

/-- Code that starts with an element does so whatever stands behind it. -/
theorem begins_append (h : code.begins) (other : Code) : (code ++ other).begins := by
  induction code with
  | nil => cases h
  | cons piece rest ih =>
    cases piece with
    | unused value => exact ih h
    | _ => exact h

/-- Values without text in front of an element make no difference. -/
theorem begins_unused (values : List Literal) (h : code.begins) :
    begins (values.map Piece.unused ++ code) := by
  induction values with
  | nil => exact h
  | cons value rest ih => exact ih

/-- Some item or some column is handed back, and the first of them is an element. -/
theorem begins_returned {items columns : List Code} (some : items = [] → columns ≠ [])
    (hitems : ∀ item ∈ items, begins item) (hcolumns : ∀ column ∈ columns, begins column) :
    begins [.itemsThenMissing items columns] := by
  cases items with
  | cons item rest =>
    have hitem := hitems item List.mem_cons_self
    simp [begins, Piece.begins, firstBegins, hitem]
  | nil =>
    obtain ⟨column, rest, rfl⟩ := List.exists_cons_of_ne_nil (some rfl)
    have hcolumn := hcolumns column List.mem_cons_self
    simp [begins, Piece.begins, firstBegins, hcolumn]

/-- Function names are made of letters, digits and underscores. -/
theorem not_mem_function {name : String} (form : isFunctionName name) {c : Char}
    (other : (c == '_' || c.isAlpha || c.isDigit) = false) : c ∉ name.toList := by
  intro hc
  unfold isFunctionName at form
  split at form
  · cases form
  · rename_i first rest hname
    rw [Bool.and_eq_true, List.all_eq_true] at form
    rw [hname] at hc
    rcases List.mem_cons.1 hc with rfl | hc
    · rw [form.1] at other
      cases other
    · exact Bool.false_ne_true (other.symm.trans (form.2 c hc))

theorem begins_function {name : String} (form : isFunctionName name) (rest : Code) :
    begins (.word name :: rest) := by
  have hblank : ' ' ∉ name.toList := not_mem_function form (by decide)
  have hcomma : ',' ∉ name.toList := not_mem_function form (by decide)
  have hbracket : ')' ∉ name.toList := not_mem_function form (by decide)
  cases hname : name.toList with
  | nil =>
    unfold isFunctionName at form
    rw [hname] at form
    cases form
  | cons c others =>
    rw [hname, List.mem_cons, not_or] at hblank hcomma hbracket
    simp [begins, Piece.begins, hname, Ne.symm hblank.1, Ne.symm hcomma.1, Ne.symm hbracket.1]

/-! ## Code that is laid out -/

/-- Code is laid out: brackets are closed, words of set operations stand in brackets if the code is
that of one operand (`top`), and, where that is asked for (`full`), no list is empty. -/
inductive Laid (full : Prop) : Bool → Code → Prop
  | nil {top : Bool} : Laid full top []
  | plain {top : Bool} {piece : Piece} (h : piece.isPlain) : Laid full top [piece]
  | append {top : Bool} {code other : Code} (h : Laid full top code)
      (hother : Laid full top other) : Laid full top (code ++ other)
  | list {top : Bool} {word : String} {code : Code} (opens : word ∈ listWords)
      (h : Laid full top code) (some : full → code.begins) : Laid full top (.word word :: code)
  | bracketed {top : Bool} {code : Code} (h : Laid full false code)
      (some : full → code.begins) : Laid full top (parenthesized code)
  | call {top : Bool} {word : String} {code : Code} (calls : isCallWord word)
      (h : Laid full false code) : Laid full top (.word word :: parenthesized code)
  | operation {word : String} (h : word ∈ operationWords) : Laid full false [.word word]
  /-- The format of a copy can be any word of letters. -/
  | format {word : String} (h : CopyOptions.isFormat word) : Laid full false [.word word]
  | returned {top : Bool} {items columns : List Code} (hitems : ∀ item ∈ items, Laid full top item)
      (hcolumns : ∀ column ∈ columns, Laid full top column) :
      Laid full top [.itemsThenMissing items columns]

/-- Code that is laid out and can stand in a list. -/
structure Element (full : Prop) (top : Bool) (code : Code) : Prop where
  laid : Laid full top code
  begins : full → code.begins

namespace Laid

theorem cons {piece : Piece} (h : piece.isPlain) (hrest : Laid full top code) :
    Laid full top (piece :: code) := (plain h).append hrest

theorem word {word : String} (h : isPlainWord word) (hrest : Laid full top code) :
    Laid full top (.word word :: code) := cons h hrest

theorem name (text : String) : Laid full top [.name text] := plain rfl

theorem plains {pieces : List Piece} (h : pieces.all Piece.isPlain) : Laid full top pieces := by
  induction pieces with
  | nil => exact nil
  | cons piece rest ih =>
    rw [List.all_cons, Bool.and_eq_true] at h
    exact cons h.1 (ih h.2)

theorem dropped (code : Code) : Laid full top (Code.dropped code) :=
  plains (List.all_eq_true.2 fun _ hpiece ↦ by
    obtain ⟨value, -, rfl⟩ := List.mem_map.1 hpiece
    rfl)

/-- What is laid out one by one, with a word in between, is laid out together. -/
theorem separated {separator : String} (plain : isPlainWord separator) {codes : List Code}
    (h : ∀ code ∈ codes, Laid full top code) : Laid full top (Code.separated separator codes) := by
  unfold Code.separated
  induction codes with
  | nil => exact nil
  | cons first rest ih =>
    rw [List.forall_mem_cons] at h
    cases rest with
    | nil =>
      rw [List.intercalate_singleton]
      exact h.1
    | cons second others =>
      rw [List.intercalate_cons_cons]
      exact (h.1.append (.word plain .nil)).append (ih h.2)

end Laid

namespace Element

/-- What stands behind an element may be empty. -/
theorem append (h : Element full top code) (hother : Laid full top other) :
    Element full top (code ++ other) :=
  ⟨h.laid.append hother, fun hfull ↦ begins_append (h.begins hfull) other⟩

theorem cons {piece : Piece} (plain : piece.isPlain) (begins : Code.begins [piece])
    (hrest : Laid full top code) : Element full top (piece :: code) :=
  ⟨.cons plain hrest, fun _ ↦ begins_append begins code⟩

theorem name (text : String) : Element full top [.name text] := cons rfl rfl .nil

theorem bracketed (h : Element full false code) : Element full top (parenthesized code) :=
  ⟨.bracketed h.laid h.begins, fun _ ↦ rfl⟩

theorem list {word : String} (opens : word ∈ listWords) (h : Element full top code) :
    Laid full top (.word word :: code) := .list opens h.laid h.begins

theorem call {name : String} (form : isFunctionName name) (h : Laid full false code) :
    Element full top (.word name :: parenthesized code) :=
  ⟨.call (isCallWord_function form) h, fun _ ↦ begins_function form _⟩

/-- Elements with a word in between are an element if there is any. -/
theorem separated {separator : String} (plain : isPlainWord separator) {codes : List Code}
    (some : full → codes ≠ []) (h : ∀ code ∈ codes, Element full top code) :
    Element full top (Code.separated separator codes) := by
  refine ⟨.separated plain fun code hcode ↦ (h code hcode).laid, fun hfull ↦ ?_⟩
  obtain ⟨first, rest, rfl⟩ := List.exists_cons_of_ne_nil (some hfull)
  have hfirst := (h first List.mem_cons_self).begins hfull
  unfold Code.separated
  cases rest with
  | nil =>
    rw [List.intercalate_singleton]
    exact hfirst
  | cons second others =>
    rw [List.intercalate_cons_cons, List.append_assoc]
    exact begins_append hfirst _

theorem commas {codes : List Code} (some : full → codes ≠ [])
    (h : ∀ code ∈ codes, Element full top code) : Element full top (Code.separated ", " codes) :=
  separated (by decide) some h

/-- Names separated by commas. -/
theorem nameList {names : List String} (some : full → names ≠ []) :
    Element full top (Code.nameList names) := by
  refine commas (fun hfull hnone ↦ some hfull (List.map_eq_nil_iff.1 hnone)) fun code hcode ↦ ?_
  obtain ⟨text, -, rfl⟩ := List.mem_map.1 hcode
  exact name text

/-- Items that are written one by one. -/
theorem mapM {α : Type} {write : α → Written} {items : List α} (some : full → items ≠ [])
    (each : ∀ item ∈ items, ∀ code, write item = .ok code → Element full top code)
    (h : (do return Code.separated ", " (← items.mapM write)) = (.ok code : Written)) :
    Element full top code := by
  obtain ⟨codes, hcodes, hcode⟩ := bind_eq_ok.1 h
  rw [← pure_eq_ok.1 hcode]
  refine commas (fun hfull hnone ↦ some hfull ?_) fun code hcode ↦ ?_
  · subst hnone
    exact List.length_eq_zero_iff.1 (forall₂_of_mapM hcodes).length_eq
  · obtain ⟨item, hitem, hwritten⟩ := exists_of_mem_results hcodes hcode
    exact each item hitem code hwritten

end Element

/-- What is written in the place of a statement is an element of its own. -/
def Whole (full : Prop) (written : Written) : Prop :=
  ∀ code, written = .ok code → Element full false code

end Code

/-! ## Fragments -/

namespace Fragment

variable {full : Prop} {top : Bool} {code : Code}

/-- Fragments must have a text where lists must have elements. -/
def Fills (full : Prop) (fragment : Fragment) : Prop := full → fragment.sql ≠ ""

theorem laid_expand (read text : List Char) (values : List Literal) :
    Code.Laid full top (expand read text values) := by
  have hspliced (read : List Char) : Code.Laid full top (spliced read) := by
    unfold spliced
    split
    · exact .nil
    · exact .plain rfl
  induction read, text, values using expand.induct with
  | case1 read values =>
    rw [expand]
    exact hspliced read
  | case2 read rest values ih =>
    rw [expand]
    exact ih
  | case3 read rest single ih =>
    rw [expand]
    · exact ih
    · exact single
  | case4 read rest value values single ih =>
    rw [expand]
    · exact (hspliced read).append (.cons rfl ih)
    · exact single
  | case5 read c rest values notDoubled notSingle notLast ih =>
    rw [expand]
    · exact ih
    all_goals assumption

/-- A text with as many marks as values leaves a trace if it is not empty. -/
theorem begins_expand (read text : List Char) (values : List Literal)
    (agrees : countMarks text = values.length) (some : read ≠ [] ∨ text ≠ []) :
    (expand read text values).begins := by
  have hspliced {read : List Char} (some : read ≠ []) : (spliced read).begins := by
    rw [spliced, if_neg (by rwa [List.isEmpty_iff])]
    simpa [Code.begins, Piece.begins, String.ofList_eq_empty_iff] using some
  induction read, text, values using expand.induct with
  | case1 read values =>
    rw [expand]
    exact hspliced (some.resolve_right (· rfl))
  | case2 read rest values ih =>
    rw [expand]
    exact ih agrees (.inl (List.cons_ne_nil _ _))
  | case3 read rest single ih =>
    rw [countMarks_single single] at agrees
    cases agrees
  | case4 read rest value values single ih =>
    rw [expand]
    · cases read with
      | nil => rfl
      | cons c others => exact Code.begins_append (hspliced (List.cons_ne_nil c others)) _
    · exact single
  | case5 read c rest values notDoubled notSingle notLast ih =>
    have other : c ≠ '?' := by
      intro hmark
      cases values <;> simp_all
    rw [countMarks_other other] at agrees
    rw [expand]
    · exact ih agrees (.inl (List.cons_ne_nil _ _))
    all_goals assumption

/-- A fragment with a text is an element. -/
theorem element {fragment : Fragment} (fills : fragment.Fills full) (h : fragment.code = .ok code) :
    Code.Element full top code := by
  unfold Fragment.code at h
  split at h
  · cases h
  · rename_i sound
    cases h
    unfold pieces
    unfold fault? at sound
    split
    · exact ⟨.plain rfl, fun hfull ↦ by simpa [Code.begins, Piece.begins] using fills hfull⟩
    · rename_i hvalues
      refine ⟨laid_expand _ _ _, fun hfull ↦ begins_expand _ _ _ ?_ (.inr ?_)⟩
      · simpa [hvalues] using sound
      · simpa using fills hfull

end Fragment

end SqlComposer
