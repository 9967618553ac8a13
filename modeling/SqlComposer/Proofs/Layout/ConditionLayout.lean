import SqlComposer.Proofs.Code.EmbeddedQueries
import SqlComposer.Proofs.Layout.ListsAndBrackets

/-!
# Terms and conditions that are laid out

Columns, terms, windows, JSON expressions and conditions are elements of their own. A condition
brings along the statements in it, which stand in brackets; those that it leaves out do not matter.
-/

namespace SqlComposer

open Code (Laid Element Whole)

variable {full : Prop} {top : Bool} {owner : Option String} {code : Code}

/-! ## Columns -/

namespace ColumnRef

theorem element (column : ColumnRef) (owner : Option String) :
    Element full top (column.code (owner.map .name)) := by
  have hlast : Element full top [if column.isStar then .word "*" else .name column.name] := by
    split
    · exact .cons (by decide) (by decide) .nil
    · exact .name _
  have howned (table : String) : Element full top ([Piece.name table, .word "."] ++
      [if column.isStar then Piece.word "*" else .name column.name]) :=
    .cons rfl rfl (.word (by decide) hlast.laid)
  obtain ⟨table, name⟩ := column
  cases table with
  | some table => exact howned table
  | none =>
    cases owner with
    | some owner => exact howned owner
    | none => exact hlast

theorem element_list {columns : List ColumnRef} (some : full → columns ≠ [])
    (owner : Option String) : Element full top (listCode columns (owner.map .name)) := by
  refine .commas (fun hfull hnone ↦ some hfull (List.map_eq_nil_iff.1 hnone)) fun code hcode ↦ ?_
  obtain ⟨column, -, rfl⟩ := List.mem_map.1 hcode
  exact column.element owner

/-- The column of a call, or what is written when there is none. -/
theorem laid_argument (argument : Option ColumnRef) (owner : Option String) {absent : Code}
    (habsent : Laid full top absent) :
    Laid full top
      (match argument with
        | some column => column.code (owner.map .name)
        | none => absent) := by
  cases argument with
  | none => exact habsent
  | some column => exact (column.element owner).laid

end ColumnRef

/-! ## Terms and sorting -/

theorem Term.element {term : Term} (owner : Option String)
    (checked : term.Checked (Fragment.Fills full))
    (h : term.code (owner.map .name) = .ok code) : Element full top code := by
  cases term with
  | literal value =>
    cases h
    exact .cons rfl rfl .nil
  | raw fragment => exact fragment.element checked h
  | column reference =>
    cases h
    exact reference.element owner

theorem OrderItem.element {item : OrderItem} (checked : item.Checked (Fragment.Fills full))
    (h : item.code (owner.map .name) = .ok code) : Element full top code := by
  cases item with
  | raw fragment => exact fragment.element checked h
  | column reference direction =>
    cases h
    refine (reference.element owner).append ?_
    cases direction with
    | none => exact .nil
    | some direction => cases direction <;> exact .plains rfl

theorem GroupItem.element {item : GroupItem} (owner : Option String)
    (checked : item.Checked (Fragment.Fills full))
    (h : item.code (owner.map .name) = .ok code) : Element full top code := by
  cases item with
  | raw fragment => exact fragment.element checked h
  | column reference =>
    cases h
    exact reference.element owner

/-- A list of order items is an element, if it is not empty. -/
theorem OrderItem.element_list {items : List OrderItem} (owner : Option String)
    (some : full → items ≠ [])
    (checked : ∀ item ∈ items, item.Checked (Fragment.Fills full))
    (h : listCode (owner.map .name) items = .ok code) : Element full top code :=
  .mapM some (fun item hitem _ ↦ element (checked item hitem)) h

/-! ## Windows -/

namespace Window

/-- What stands between the brackets of a window, which may be nothing. -/
theorem exists_laid {window : Window} (checked : window.Checked (Fragment.Fills full))
    (h : window.code (owner.map .name) = .ok code) :
    ∃ inner, code = Code.parenthesized inner ∧ Laid full false inner := by
  obtain ⟨partition, order⟩ := window
  have hpartition : Laid full false
      (if partition.isEmpty then []
        else .word "PARTITION BY " :: ColumnRef.listCode partition (owner.map .name)) := by
    split
    · exact .nil
    · rename_i hsome
      exact Element.list (by decide)
        (ColumnRef.element_list (fun _ ↦ by simpa using hsome) owner)
  have hgap : Laid full false
      (if partition.isEmpty || order.isEmpty then [] else [Piece.word " "]) := by
    split
    · exact .nil
    · exact .plains rfl
  unfold Window.code at h
  dsimp only at h
  split at h
  · rw [pure_bind] at h
    exact ⟨_, (pure_eq_ok.1 h).symm, (hpartition.append hgap).append .nil⟩
  · rename_i hsome
    simp only [pure_bind] at h
    obtain ⟨items, hitems, hcode⟩ := bind_eq_ok.1 h
    have horder : Laid full false (.word "ORDER BY " :: items) := Element.list (by decide)
      (OrderItem.element_list owner (fun _ ↦ by simpa using hsome) checked hitems)
    exact ⟨_, (pure_eq_ok.1 hcode).symm, (hpartition.append hgap).append horder⟩

/-- A window behind the word that introduces it. -/
theorem laid {window : Window} {word : String} (owner : Option String)
    (checked : window.Checked (Fragment.Fills full))
    (h : window.code (owner.map .name) = .ok code) (calls : Code.isCallWord word) :
    Laid full top (.word word :: code) := by
  obtain ⟨inner, rfl, hinner⟩ := exists_laid checked h
  exact .call calls hinner

end Window

theorem WindowCall.element {call : WindowCall} (checked : call.Checked (Fragment.Fills full))
    (h : call.code (owner.map .name) = .ok code) : Element full top code := by
  obtain ⟨function, argument, place⟩ := call
  have hargument : Element full top (.word function :: Code.parenthesized _) :=
    .call checked.1 (ColumnRef.laid_argument argument owner .nil)
  cases place with
  | named name =>
    simp only [WindowCall.code, pure_bind, pure_eq_ok] at h
    rw [← h]
    exact hargument.append (.word (by decide) (.name name))
  | window given =>
    simp only [WindowCall.code, bind_eq_ok, pure_eq_ok] at h
    obtain ⟨window, hwindow, rfl⟩ := h
    exact hargument.append (Window.laid owner checked.2 hwindow (by decide))

/-! ## JSON expressions -/

theorem JsonExpr.element (expression : JsonExpr) (owner : Option String) :
    Element full top (expression.code (owner.map .name)) := by
  induction expression generalizing top with
  | column reference => exact reference.element owner
  | set target path value create ih =>
    refine .call (by decide) ((ih.laid.append (.plains rfl)).append ?_)
    split
    · exact .plains rfl
    · exact .nil
  | insert target path value after ih =>
    refine .call (by decide) ((ih.laid.append (.plains rfl)).append ?_)
    split
    · exact .plains rfl
    · exact .nil
  | remove target path ih => exact ih.append (.plains rfl)
  | query target path options ih =>
    refine .call (by decide) ((ih.laid.append (.plains rfl)).append ?_)
    match options with
    | none => exact .nil
    | some (bindings, silent) => cases silent <;> exact .plains rfl

/-! ## Comparisons -/

namespace Comparison

variable {left right : Code} {comparison : Comparison}

/-- Two sides with the operator between them. -/
private theorem element_sides (comparison : Comparison) (hleft : Element full top left)
    (hright : Laid full top right) :
    Element full top (left ++ [Piece.word " ", .word comparison.operator, .word " "] ++ right) := by
  refine (hleft.append ?_).append hright
  cases comparison <;> exact .plains rfl

private theorem laid_pattern (comparison : Comparison) (hright : Laid full top right) :
    Laid full top ((if comparison.anyBefore then [Piece.text "%", .word " || "] else []) ++ right ++
      if comparison.anyAfter then [Piece.word " || ", .text "%"] else []) := by
  refine (Laid.append ?_ hright).append ?_ <;>
  · split
    · exact .plains rfl
    · exact .nil

/-- A comparison of an element with a checked term is an element. -/
private theorem element_term {term : Term} (hleft : Element full top left)
    (checked : term.Checked (Fragment.Fills full))
    (h : comparisonCode left comparison (.term term) (owner.map .name) = .ok code) :
    Element full top code := by
  simp only [comparisonCode] at h
  split at h
  · cases h
    exact hleft.append (.plains rfl)
  · split at h
    · cases h
      exact hleft.append (.plains rfl)
    · obtain ⟨right, hright, hcode⟩ := bind_eq_ok.1 h
      have hterm : Element full top right := Term.element owner checked hright
      split at hcode
      · rw [← pure_eq_ok.1 hcode]
        have hall := element_sides comparison hleft (laid_pattern comparison hterm.laid)
        simpa only [List.append_assoc] using hall
      · rw [← pure_eq_ok.1 hcode]
        exact element_sides comparison hleft hterm.laid

/-- A comparison is an element if what it compares is, where that is written. -/
theorem element {operand : Comparand Written}
    (hleft : operand.keepsLeft → Element full top left)
    (checked : operand.Checked (Fragment.Fills full) fun _ ↦ True)
    (whole : ∀ sub, operand = .query sub → Whole full sub)
    (h : comparisonCode left comparison operand (owner.map .name) = .ok code) :
    Element full top code := by
  cases operand with
  | term term => exact element_term (hleft rfl) checked h
  | list terms =>
    simp only [comparisonCode] at h
    split at h
    · split at h
      · cases h
        refine ⟨(Laid.dropped left).append ?_, fun _ ↦ Code.begins_unused _ ?_⟩ <;> split
        · exact .plains rfl
        · exact .plains rfl
        · rfl
        · rfl
      · rename_i hsome
        obtain ⟨right, hright, hcode⟩ := bind_eq_ok.1 h
        rw [← pure_eq_ok.1 hcode]
        have hterms : Element full false right := .mapM (fun _ ↦ by simpa using hsome)
          (fun term hterm _ ↦ Term.element owner (checked term hterm)) hright
        exact element_sides comparison (hleft (by simpa [Comparand.keepsLeft] using hsome))
          hterms.bracketed.laid
    · cases h
  | range lower upper =>
    simp only [comparisonCode] at h
    split at h
    · obtain ⟨below, hbelow, hrest⟩ := bind_eq_ok.1 h
      obtain ⟨above, habove, hcode⟩ := bind_eq_ok.1 hrest
      rw [← pure_eq_ok.1 hcode]
      have hlower : Element full top below := Term.element owner checked.1 hbelow
      have hupper : Element full top above := Term.element owner checked.2 habove
      exact ((((hleft rfl).append (.plains rfl)).append hlower.laid).append
        (.plains rfl)).append hupper.laid
    · cases h
  | query sub =>
    obtain ⟨right, hright, hcode⟩ := bind_eq_ok.1 h
    rw [← pure_eq_ok.1 hcode]
    exact element_sides comparison (hleft rfl) ((whole sub rfl) right hright).bracketed.laid

end Comparison

/-! ## Formulas -/

namespace Formula

/-- The layout of a formula is an element; that of an empty one is not there. -/
def Whole (full : Prop) (formula : Formula) : Prop :=
  ∀ layout ∈ formula.layout, ∀ top, Element full top layout.code

theorem whole_atom (h : ∀ top, Element full top code) : Whole full (.atom code) := by
  rintro _ ⟨⟩
  exact h

private theorem element_within {layout : Layout} (h : ∀ top, Element full top layout.code)
    (joiner : Joiner) (top : Bool) : Element full top (layout.within joiner) := by
  unfold Layout.within
  split
  · exact (h false).bracketed
  · exact h top

/-- Joining formulas only puts words between them and brackets around them. -/
private theorem whole_joined {formulas : List Formula} (joiner : Joiner)
    (h : ∀ formula ∈ formulas, formula.Whole full) :
    ∀ layout ∈ Layout.joined joiner (layouts formulas), ∀ top, Element full top layout.code := by
  have hparts : ∀ layout ∈ layouts formulas, ∀ top, Element full top layout.code := by
    induction formulas with
    | nil => exact nofun
    | cons formula rest ih =>
      rw [List.forall_mem_cons] at h
      intro layout hlayout
      rcases List.mem_append.1 hlayout with hlayout | hlayout
      · exact h.1 layout (Option.mem_toList.1 hlayout)
      · exact ih h.2 layout hlayout
  match layouts formulas, hparts with
  | [], _ => exact nofun
  | [part], hparts =>
    rintro _ ⟨⟩
    exact hparts part (List.mem_singleton_self part)
  | first :: second :: rest, hparts =>
    rintro _ ⟨⟩ top
    refine .separated (by cases joiner <;> decide) (fun _ ↦ by simp) fun code hcode ↦ ?_
    obtain ⟨layout, hlayout, rfl⟩ := List.mem_map.1 hcode
    exact element_within (hparts layout hlayout) joiner top

theorem whole_every {formulas : List Formula} (h : ∀ formula ∈ formulas, formula.Whole full) :
    Whole full (.every formulas) := whole_joined .and h

theorem whole_any {formulas : List Formula} (h : ∀ formula ∈ formulas, formula.Whole full) :
    Whole full (.any formulas) := whole_joined .or h

theorem whole_not {formula : Formula} (h : formula.Whole full) : Whole full (.not formula) := by
  intro layout hlayout top
  obtain ⟨inner, hinner, rfl⟩ := Option.map_eq_some_iff.1 hlayout
  exact .cons (by decide) rfl (h inner hinner false).bracketed.laid

theorem Whole.element {formula : Formula} (h : formula.Whole full)
    (written : formula.code? = some code) : Element full top code := by
  obtain ⟨layout, hlayout, rfl⟩ := Option.map_eq_some_iff.1 written
  exact h layout hlayout top

theorem Whole.element_conjunct {formula : Formula} (h : formula.Whole full)
    (written : formula.conjunct? = some code) : Element full top code := by
  obtain ⟨layout, hlayout, rfl⟩ := Option.map_eq_some_iff.1 written
  exact element_within (h layout hlayout) .and top

end Formula

/-! ## Conditions -/

/-- The argument of an aggregate is laid out. -/
private theorem AggregateCall.laid_argument (distinct : Bool) (argument : Option ColumnRef)
    (owner : Option String) :
    Laid full top
      ((if distinct then [Piece.word "DISTINCT "] else []) ++
        match argument with
        | some column => column.code (owner.map .name)
        | none => [.word "*"]) := by
  have hcolumn : Laid full top _ := ColumnRef.laid_argument argument owner
    (.plains rfl : Laid full top [.word "*"])
  cases distinct with
  | false => exact hcolumn
  | true => exact .word (by decide) hcolumn

-- The theorems of this block walk through conditions as writing them does.
mutual

/-- The formula of a checked condition is whole. -/
private theorem whole_formula (condition : Condition Written)
    (checked : condition.Checked (Fragment.Fills full) fun _ ↦ True)
    (whole : ∀ sub, condition.Embeds sub → Whole full sub) {formula : Formula}
    (h : condition.formula (owner.map .name) = .ok formula) : formula.Whole full := by
  match condition, checked with
  | .compare column comparison operand, checked =>
    obtain ⟨code, hcode, hformula⟩ := bind_eq_ok.1 h
    rw [← pure_eq_ok.1 hformula]
    exact Formula.whole_atom fun top ↦ Comparison.element (fun _ ↦ column.element owner) checked
      (fun sub hsub ↦ whole sub (hsub ▸ .compare)) hcode
  | .every conditions, checked =>
    obtain ⟨formulas, hformulas, hformula⟩ := bind_eq_ok.1 h
    rw [← pure_eq_ok.1 hformula]
    exact Formula.whole_every (whole_formulas conditions checked
      (fun member sub hmember hsub ↦ whole sub (.every hmember hsub)) hformulas)
  | .any conditions, checked =>
    obtain ⟨formulas, hformulas, hformula⟩ := bind_eq_ok.1 h
    rw [← pure_eq_ok.1 hformula]
    exact Formula.whole_any (whole_formulas conditions checked
      (fun member sub hmember hsub ↦ whole sub (.any hmember hsub)) hformulas)
  | .not condition, checked =>
    obtain ⟨inner, hinner, hformula⟩ := bind_eq_ok.1 h
    rw [← pure_eq_ok.1 hformula]
    exact Formula.whole_not
      (whole_formula condition checked (fun sub hsub ↦ whole sub (.not hsub)) hinner)
  | .hasRow sub, _ =>
    obtain ⟨code, hcode, hformula⟩ := bind_eq_ok.1 h
    rw [← pure_eq_ok.1 hformula]
    exact Formula.whole_atom fun top ↦
      .cons (by decide) rfl (whole sub .hasRow code hcode).bracketed.laid
  | .raw fragment, checked =>
    obtain ⟨code, hcode, hformula⟩ := bind_eq_ok.1 h
    rw [← pure_eq_ok.1 hformula]
    exact Formula.whole_atom fun top ↦ fragment.element checked hcode
  | .aggregate call comparison operand, checked =>
    obtain ⟨left, hleft, hrest⟩ := bind_eq_ok.1 h
    obtain ⟨code, hcode, hformula⟩ := bind_eq_ok.1 hrest
    rw [← pure_eq_ok.1 hformula]
    exact Formula.whole_atom fun top ↦ Comparison.element
      (fun kept ↦ element_call call checked.1
        (fun sub hsub ↦ whole sub (.counted kept hsub)) hleft)
      checked.2 (fun sub hsub ↦ whole sub (hsub ▸ .operand)) hcode

private theorem whole_formulas (conditions : List (Condition Written))
    (checked : Condition.CheckedAll (Fragment.Fills full) (fun _ ↦ True) conditions)
    (whole : ∀ condition sub, condition ∈ conditions → condition.Embeds sub → Whole full sub)
    {formulas : List Formula}
    (h : Condition.formulas (owner.map .name) conditions = .ok formulas) :
    ∀ formula ∈ formulas, formula.Whole full := by
  match conditions, checked with
  | [], _ =>
    cases h
    exact nofun
  | condition :: rest, checked =>
    obtain ⟨first, hfirst, hrest⟩ := bind_eq_ok.1 h
    obtain ⟨others, hothers, hformulas⟩ := bind_eq_ok.1 hrest
    rw [← pure_eq_ok.1 hformulas]
    exact List.forall_mem_cons.2
      ⟨whole_formula condition checked.1 (fun sub ↦ whole condition sub List.mem_cons_self) hfirst,
        whole_formulas rest checked.2
          (fun member sub hmember ↦ whole member sub (List.mem_cons_of_mem _ hmember)) hothers⟩

private theorem whole_groups (groups : List (List (Condition Written)))
    (checked : Condition.CheckedIn (Fragment.Fills full) (fun _ ↦ True) groups)
    (whole : ∀ group ∈ groups, ∀ condition sub, condition ∈ group → condition.Embeds sub →
      Whole full sub)
    {formulas : List Formula}
    (h : Condition.groupFormulas (owner.map .name) groups = .ok formulas) :
    ∀ formula ∈ formulas, formula.Whole full := by
  match groups, checked with
  | [], _ =>
    cases h
    exact nofun
  | group :: rest, checked =>
    obtain ⟨first, hfirst, hrest⟩ := bind_eq_ok.1 h
    obtain ⟨others, hothers, hformulas⟩ := bind_eq_ok.1 hrest
    rw [← pure_eq_ok.1 hformulas]
    exact List.forall_mem_cons.2
      ⟨Formula.whole_every
          (whole_formulas group checked.1 (whole group List.mem_cons_self) hfirst),
        whole_groups rest checked.2
          (fun member hmember ↦ whole member (List.mem_cons_of_mem _ hmember)) hothers⟩

/-- An aggregate call is an element. -/
private theorem element_call (call : AggregateCall Written)
    (checked : call.Checked (Fragment.Fills full) fun _ ↦ True)
    (whole : ∀ sub, call.filter.condition.Embeds sub → Whole full sub) {top : Bool} {code : Code}
    (h : Condition.callCode (owner.map .name) call = .ok code) : Element full top code := by
  match call, checked with
  | ⟨function, argument, distinct, order, withinGroup, ⟨groups⟩⟩, ⟨form, horder, hgroups⟩ =>
    have hargument : Laid full false _ := AggregateCall.laid_argument distinct argument owner
    have hfilter {formulas : List Formula}
        (hformulas : Condition.groupFormulas (owner.map .name) groups = .ok formulas) :
        Laid full top
          (match (Formula.any formulas).code? with
            | some filter => .word " FILTER " :: Code.parenthesized (.word "WHERE " :: filter)
            | none => []) := by
      have hwhole := Formula.whole_any (whole_groups groups hgroups
        (fun group hgroup condition sub hcondition hsub ↦ whole sub
          (.any (List.mem_map_of_mem hgroup) (.every hcondition hsub))) hformulas)
      split
      · rename_i filter hcode
        have hinner : Element full false (.word "WHERE " :: filter) :=
          .cons (by decide) rfl (hwhole.element hcode).laid
        exact .word (by decide) hinner.bracketed.laid
      · exact .nil
    cases order with
    | nil =>
      simp only [Condition.callCode, List.isEmpty_nil, ↓reduceIte, pure_bind, bind_eq_ok,
        pure_eq_ok] at h
      obtain ⟨formulas, hformulas, rfl⟩ := h
      exact ((Element.call form (hargument.append .nil)).append .nil).append (hfilter hformulas)
    | cons item rest =>
      simp only [Condition.callCode, List.isEmpty_cons, Bool.false_eq_true, ↓reduceIte, pure_bind,
        bind_eq_ok, pure_eq_ok] at h
      obtain ⟨items, hitems, formulas, hformulas, rfl⟩ := h
      have hitems : Element full false items :=
        OrderItem.element_list owner (fun _ ↦ List.cons_ne_nil item rest) horder hitems
      have hordered : Element full false (.word "ORDER BY " :: items) :=
        ⟨.list (by decide) hitems.laid hitems.begins, fun _ ↦ rfl⟩
      cases withinGroup with
      | false =>
        have hspaced : Laid full false (.word " " :: .word "ORDER BY " :: items) :=
          .word (by decide) hordered.laid
        exact ((Element.call form (hargument.append hspaced)).append .nil).append
          (hfilter hformulas)
      | true =>
        have houter : Laid full top
            (.word " WITHIN GROUP " :: Code.parenthesized (.word "ORDER BY " :: items)) :=
          .word (by decide) hordered.bracketed.laid
        exact ((Element.call form (hargument.append .nil)).append houter).append
          (hfilter hformulas)

end

/-- The formula of a condition is whole if the statements that stand in it are. -/
theorem Condition.whole_formula {condition : Condition Written} {formula : Formula}
    (owner : Option String)
    (checked : condition.Checked (Fragment.Fills full) fun _ ↦ True)
    (whole : ∀ sub, condition.Embeds sub → Whole full sub)
    (h : condition.formula (owner.map .name) = .ok formula) : formula.Whole full :=
  SqlComposer.whole_formula condition checked whole h

end SqlComposer
