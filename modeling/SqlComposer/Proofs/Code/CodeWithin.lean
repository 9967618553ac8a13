import SqlComposer.Condition.Code
import SqlComposer.Proofs.Code.PrintedText
import SqlComposer.Proofs.Script.ExceptResults

/-!
# Code within code

Code stands within other code if its pieces follow each other there, at the top or in one of the
items that a change hands back. Wherever it stands, its text is part of the text around it and its
values are in a row among the values around it. In particular the code of a member of a group stands
within the code of the group, whatever the nesting and the parentheses.
-/

namespace SqlComposer

namespace Code

/-- The pieces of code follow each other in other code, or in an item of it. -/
def Within (inner outer : Code) : Prop :=
  inner <:+: outer ∨ ∃ items columns item, .itemsThenMissing items columns ∈ outer ∧ item ∈ items ∧
    inner <:+: item

variable {inner outer : Code}

theorem infix_separated (separator : String) {items : List Code} {item : Code} (h : item ∈ items) :
    item <:+: separated separator items := by
  unfold separated
  induction items with
  | nil => simp at h
  | cons first rest ih =>
    cases rest with
    | nil =>
      have hsame : List.intercalate [.word separator] [first] = item := by
        rw [List.intercalate_singleton, List.mem_singleton.1 h]
      exact hsame ▸ List.infix_rfl
    | cons second others =>
      rw [List.intercalate_cons_cons]
      rcases List.mem_cons.1 h with rfl | h
      · rw [List.append_assoc]
        exact (List.prefix_append item _).isInfix
      · exact (ih h).trans (List.suffix_append _ _).isInfix

theorem infix_parenthesized (code : Code) : code <:+: parenthesized code :=
  ⟨[.word "("], [.word ")"], rfl⟩

namespace Within

theorem refl : Within inner inner := .inl List.infix_rfl

/-- What stands in code stands in all code around it. -/
theorem mono {code : Code} (h : Within inner code) (around : code <:+: outer) :
    Within inner outer := by
  rcases h with h | ⟨items, columns, item, hpiece, hitem, h⟩
  · exact .inl (h.trans around)
  · exact .inr ⟨items, columns, item, around.subset hpiece, hitem, h⟩

theorem append_left {code : Code} (h : Within inner code) (before : Code) :
    Within inner (before ++ code) := h.mono (List.suffix_append before code).isInfix

theorem append_right {code : Code} (h : Within inner code) (after : Code) :
    Within inner (code ++ after) := h.mono (List.prefix_append code after).isInfix

theorem cons {code : Code} (h : Within inner code) (piece : Piece) :
    Within inner (piece :: code) := h.mono (List.suffix_cons piece code).isInfix

theorem parenthesized {code : Code} (h : Within inner code) :
    Within inner (Code.parenthesized code) := h.mono (infix_parenthesized code)

theorem separated {items : List Code} {item : Code} (h : Within inner item) (separator : String)
    (mem : item ∈ items) : Within inner (Code.separated separator items) :=
  h.mono (infix_separated separator mem)

/-- What stands in one of several codes stands in all of them written one after another. -/
theorem flatten {codes : List Code} {code : Code} (h : Within inner code) (mem : code ∈ codes) :
    Within inner codes.flatten := by
  obtain ⟨front, back, rfl⟩ := List.append_of_mem mem
  rw [List.flatten_append, List.flatten_cons]
  exact (h.append_right _).append_left _

/-! ## Texts and values -/

/-- Code inside other code is printed inside its text, with its values among the others. -/
private theorem exists_infix_print (h : inner <:+: outer) (bound : Nat) :
    ∃ before after earlier later,
      print bound outer = before ++ print (bound + earlier.length) inner ++ after ∧
        values outer = earlier ++ values inner ++ later := by
  obtain ⟨front, back, rfl⟩ := h
  refine ⟨print bound front, print (bound + (values (front ++ inner)).length) back, values front,
    values back, ?_, ?_⟩
  · rw [print_append, print_append]
  · rw [values_append, values_append]

/-- An item of a list is one of the printed items, with its values among the others. -/
private theorem exists_item_print {items : List Code} {item : Code} (h : item ∈ items)
    (bound : Nat) :
    ∃ front back earlier later,
      itemTexts bound items = front ++ print (bound + earlier.length) item :: back ∧
        itemValues items = earlier ++ values item ++ later := by
  induction items generalizing bound with
  | nil => simp at h
  | cons first rest ih =>
    rcases List.mem_cons.1 h with rfl | h
    · exact ⟨[], itemTexts (bound + (values item).length) rest, [], itemValues rest, rfl, rfl⟩
    · obtain ⟨front, back, earlier, later, htexts, hvalues⟩ := ih h (bound + (values first).length)
      refine ⟨print bound first :: front, back, values first ++ earlier, later, ?_, ?_⟩
      · rw [itemTexts, htexts, List.length_append, Nat.add_assoc]
        rfl
      · simp only [itemValues, hvalues, List.append_assoc]

/-- A text of a separated list is a stretch of the whole. -/
private theorem exists_intercalate (separator : String) (front : List String) (text : String)
    (back : List String) :
    ∃ before after, separator.intercalate (front ++ text :: back) = before ++ text ++ after := by
  induction front with
  | nil =>
    cases back with
    | nil => exact ⟨"", "", by simp⟩
    | cons second others =>
      refine ⟨"", separator ++ separator.intercalate (second :: others), ?_⟩
      rw [List.nil_append, String.intercalate_cons_of_ne_nil (by simp), String.append_assoc]
      simp
  | cons first rest ih =>
    obtain ⟨before, after, htext⟩ := ih
    refine ⟨first ++ separator ++ before, after, ?_⟩
    rw [List.cons_append, String.intercalate_cons_of_ne_nil (by simp), htext]
    simp only [String.append_assoc]

/-- The text of code stands in the text around it as it does behind the values bound before it,
which are followed by its own. -/
theorem exists_print (h : Within inner outer) (bound : Nat) :
    ∃ before after earlier later,
      print bound outer = before ++ print (bound + earlier.length) inner ++ after ∧
        values outer = earlier ++ values inner ++ later := by
  rcases h with h | ⟨items, columns, item, hpiece, hitem, h⟩
  · exact exists_infix_print h bound
  · obtain ⟨front, back, rfl⟩ := List.append_of_mem hpiece
    obtain ⟨texts, others, earlier, later, htexts, hvalues⟩ :=
      exists_item_print hitem (bound + (values front).length)
    obtain ⟨before, after, own, rest, hprint, hown⟩ :=
      exists_infix_print h (bound + (values front).length + earlier.length)
    -- The columns that are missing stand behind all items.
    obtain ⟨missing, hmissing⟩ : ∃ missing, withMissing
        (itemTexts (bound + (values front).length) items)
        (itemTexts (bound + (values front).length) columns) =
          texts ++ (before ++ print (bound + (values front ++ earlier ++ own).length) inner ++
            after) :: missing := by
      rw [withMissing_eq, htexts, hprint, List.append_assoc, List.cons_append]
      simp only [List.length_append, Nat.add_assoc]
      exact ⟨_, rfl⟩
    obtain ⟨first, last, htext⟩ := exists_intercalate ", " texts
      (before ++ print (bound + (values front ++ earlier ++ own).length) inner ++ after) missing
    refine ⟨print bound front ++ first ++ before, after ++ last ++ print (bound +
        (values front).length + (Piece.itemsThenMissing items columns).values.length) back,
      values front ++ earlier ++ own, rest ++ later ++ itemValues columns ++ values back, ?_, ?_⟩
    · rw [print_append, print, Piece.print, hmissing, htext]
      simp only [String.append_assoc]
    · rw [values_append, values, Piece.values, hvalues, hown]
      simp only [List.append_assoc]

end Within

end Code

/-! ## Parts of a formula -/

theorem Layout.infix_within (joiner : Joiner) (layout : Layout) :
    layout.code <:+: layout.within joiner := by
  unfold Layout.within
  split
  · exact Code.infix_parenthesized layout.code
  · exact List.infix_rfl

/-- The code of each part lies within the code of the joined parts. -/
theorem Layout.exists_joined (joiner : Joiner) {layouts : List Layout} {layout : Layout}
    (h : layout ∈ layouts) :
    ∃ outer, Layout.joined joiner layouts = some outer ∧ layout.code <:+: outer.code := by
  match layouts with
  | [] => simp at h
  | [_] => exact ⟨layout, by rw [List.mem_singleton.1 h]; rfl, List.infix_rfl⟩
  | first :: second :: rest =>
    refine ⟨_, rfl, (layout.infix_within joiner).trans ?_⟩
    exact Code.infix_separated joiner.word (List.mem_map_of_mem h)

namespace Formula

/-- A part is written within the whole, unless it is empty. -/
def Covers (whole part : Formula) : Prop :=
  ∀ layout, part.layout = some layout →
    ∃ outer, whole.layout = some outer ∧ layout.code <:+: outer.code

theorem mem_layouts {formulas : List Formula} {formula : Formula} {layout : Layout}
    (h : formula ∈ formulas) (written : formula.layout = some layout) :
    layout ∈ layouts formulas := by
  induction formulas with
  | nil => simp at h
  | cons first rest ih =>
    rw [layouts, List.mem_append]
    rcases List.mem_cons.1 h with rfl | h
    · exact .inl (by simp [written])
    · exact .inr (ih h)

theorem covers_every {formulas : List Formula} {formula : Formula} (h : formula ∈ formulas) :
    (every formulas).Covers formula :=
  fun _ written ↦ Layout.exists_joined .and (mem_layouts h written)

theorem covers_any {formulas : List Formula} {formula : Formula} (h : formula ∈ formulas) :
    (any formulas).Covers formula :=
  fun _ written ↦ Layout.exists_joined .or (mem_layouts h written)

theorem covers_not (formula : Formula) : (not formula).Covers formula := by
  intro layout written
  refine ⟨layout.negated, by rw [Formula.layout, written]; rfl, ?_⟩
  exact (Code.infix_parenthesized layout.code).trans (List.suffix_cons _ _).isInfix

theorem Covers.trans {whole part inner : Formula} (h : whole.Covers part)
    (hinner : part.Covers inner) : whole.Covers inner := by
  intro layout written
  obtain ⟨between, hbetween, hlayout⟩ := hinner layout written
  obtain ⟨outer, houter, hcode⟩ := h between hbetween
  exact ⟨outer, houter, hlayout.trans hcode⟩

end Formula

end SqlComposer
