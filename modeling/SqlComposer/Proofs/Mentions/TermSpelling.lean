import SqlComposer.Proofs.Mentions.SpelledCode
import SqlComposer.Proofs.Statement.CheckedStatements

/-!
# Spelling of terms

Columns, terms, sort items, windows and JSON expressions are written as what they mention. Columns
without a table are qualified by the owner of the place where they stand.
-/

namespace SqlComposer

variable {raw : Fragment → Prop} {owner : Option String} {code : Code}

theorem Fragment.spells {fragment : Fragment} (kind : raw fragment) (h : fragment.code = .ok code) :
    Spells raw code [.fragment fragment] := by
  unfold Fragment.code at h
  split at h
  · exact absurd h (by simp)
  · rename_i sound
    have hspelled := Spells.fragment sound kind rfl .nil
    rw [List.append_nil] at hspelled
    rwa [← Except.ok.inj h]

/-! ## Columns -/

namespace ColumnRef

private theorem spells_last (column : ColumnRef) :
    Spells raw [if column.isStar then .word "*" else .name column.name]
      (if column.isStar then [] else [.name column.name]) := by
  split
  · exact .word (by simp [Code.vocabulary, Code.punctuation]) .nil
  · exact .name rfl .nil

theorem spells (column : ColumnRef) (owner : Option String) :
    Spells raw (column.code (owner.map .name)) (column.mentions owner) := by
  have hlast : Spells raw _ _ := column.spells_last
  have howned (table : String) : Spells raw
      ([Piece.name table, .word "."] ++
        [if column.isStar then Piece.word "*" else .name column.name])
      ([Mention.name table] ++ if column.isStar then [] else [Mention.name column.name]) :=
    .name rfl (.word (by simp [Code.vocabulary, Code.punctuation]) hlast)
  obtain ⟨table, name⟩ := column
  cases table with
  | some table => exact howned table
  | none =>
    cases owner with
    | some owner => exact howned owner
    | none => exact hlast

theorem spells_list (columns : List ColumnRef) (owner : Option String) :
    Spells raw (listCode columns (owner.map .name)) (columns.flatMap (mentions owner)) :=
  Spells.listOf columns fun column ↦ column.spells owner

/-- The column of a call, or what is written when there is none. -/
theorem spells_argument (argument : Option ColumnRef) (owner : Option String) {absent : Code}
    (habsent : Spells raw absent []) :
    Spells raw
      (match argument with
        | some column => column.code (owner.map .name)
        | none => absent)
      (argument.toList.flatMap (mentions owner)) := by
  cases argument with
  | none => exact habsent
  | some column =>
    rw [Option.toList_some, List.flatMap_singleton]
    exact column.spells owner

end ColumnRef

/-! ## Terms and sorting -/

theorem Term.spells {term : Term} (checked : term.Checked raw)
    (h : term.code (owner.map .name) = .ok code) : Spells raw code (term.mentions owner) := by
  cases term with
  | literal value =>
    rw [← Except.ok.inj h]
    exact .value rfl .nil
  | raw fragment => exact Fragment.spells checked h
  | column reference =>
    rw [← Except.ok.inj h]
    exact reference.spells owner

/-- A list of terms spells the mentions of the terms in order. -/
theorem Term.spells_list {terms : List Term} (checked : ∀ term ∈ terms, term.Checked raw)
    (h : Term.listCode (owner.map .name) terms = .ok code) :
    Spells raw code (terms.flatMap (Term.mentions owner)) :=
  Spells.list h fun term hterm _ hcode ↦ Term.spells (checked term hterm) hcode

theorem Direction.spells (direction : Direction) :
    Spells raw [.word " ", .word direction.toSql] [] := by
  refine .word (by simp [Code.vocabulary, Code.punctuation]) (.word ?_ .nil)
  cases direction <;> simp [Code.vocabulary, Code.orderWords, Direction.toSql]

namespace OrderItem

theorem spells {item : OrderItem} (checked : item.Checked raw)
    (h : item.code (owner.map .name) = .ok code) : Spells raw code (item.mentions owner) := by
  cases item with
  | raw fragment => exact Fragment.spells checked h
  | column reference direction =>
    rw [← Except.ok.inj h]
    have hcolumn : Spells raw _ _ := reference.spells owner
    cases direction with
    | none => rwa [List.append_nil]
    | some direction =>
      have hdirected := hcolumn.append direction.spells rfl
      rwa [List.append_nil] at hdirected

/-- A list of order items spells the mentions of the items in order. -/
theorem spells_list {items : List OrderItem} (checked : ∀ item ∈ items, item.Checked raw)
    (h : listCode (owner.map .name) items = .ok code) :
    Spells raw code (items.flatMap (mentions owner)) :=
  Spells.list h fun item hitem _ hcode ↦ spells (checked item hitem) hcode

end OrderItem

theorem GroupItem.spells {item : GroupItem} (checked : item.Checked raw)
    (h : item.code (owner.map .name) = .ok code) : Spells raw code (item.mentions owner) := by
  cases item with
  | raw fragment => exact Fragment.spells checked h
  | column reference =>
    rw [← Except.ok.inj h]
    exact reference.spells owner

/-! ## Windows -/

namespace Window

theorem spells {window : Window} (checked : window.Checked raw)
    (h : window.code (owner.map .name) = .ok code) :
    Spells raw code (window.mentions owner) := by
  obtain ⟨partition, order⟩ := window
  have hpartition : Spells raw _ _ := ColumnRef.spells_list partition owner
  cases order with
  | nil =>
    simp only [Window.code, List.isEmpty_nil, ↓reduceIte, Bool.or_true, pure_bind, pure_eq_ok] at h
    rw [← h]
    apply Spells.parenthesized
    simp only [Window.mentions, List.flatMap_nil, List.append_nil]
    cases partition with
    | nil => exact .nil
    | cons column rest => exact .word (by simp [Code.vocabulary, Code.orderWords]) hpartition
  | cons item rest =>
    simp only [Window.code, List.isEmpty_cons, Bool.or_false, Bool.false_eq_true, ↓reduceIte,
      bind_eq_ok, pure_bind, pure_eq_ok] at h
    obtain ⟨items, hitems, rfl⟩ := h
    have horder : Spells raw (.word "ORDER BY " :: items)
        ((item :: rest).flatMap (OrderItem.mentions owner)) :=
      .word (by simp [Code.vocabulary, Code.orderWords]) (OrderItem.spells_list checked hitems)
    apply Spells.parenthesized
    cases partition with
    | nil => exact horder
    | cons column others =>
      rw [List.append_assoc]
      refine .word (by simp [Code.vocabulary, Code.orderWords]) ?_
      exact hpartition.glued " " horder (by simp [Code.vocabulary, Code.punctuation]) rfl

end Window

theorem WindowCall.spells {call : WindowCall} (checked : call.Checked raw)
    (h : call.code (owner.map .name) = .ok code) : Spells raw code (call.mentions owner) := by
  obtain ⟨function, argument, place⟩ := call
  have hargument : Spells raw _ _ := (ColumnRef.spells_argument argument owner .nil).parenthesized
  have hcall {window : Code} {mentioned : List Mention} (hwindow : Spells raw window mentioned) :=
    hargument.glued " OVER " hwindow (by simp [Code.vocabulary, Code.selectionWords]) rfl
  cases place with
  | named name =>
    simp only [WindowCall.code, pure_bind, pure_eq_ok] at h
    rw [← h]
    exact .function checked.1 (hcall (.name rfl .nil))
  | window given =>
    simp only [WindowCall.code, bind_eq_ok, pure_eq_ok] at h
    obtain ⟨window, hwindow, rfl⟩ := h
    exact .function checked.1 (hcall (Window.spells checked.2 hwindow))

/-! ## JSON expressions -/

namespace JsonExpr

/-- A call on a JSON column spells its path as one constant. -/
private theorem spells_call {function : String} {target : Code} {mentioned : List Mention}
    {path : List JsonKey} {value : Json} {last : Bool} (known : function ∈ Code.vocabulary)
    (htarget : Spells raw target mentioned) :
    Spells raw (callCode function target path value last)
      (mentioned ++ [Mention.path path, .value (.json value)]) := by
  unfold callCode
  refine .word known (Spells.parenthesized ?_)
  rw [List.append_assoc]
  refine htarget.append ?_ rfl
  refine .word (by simp [Code.vocabulary, Code.punctuation]) (.path rfl ?_)
  refine .word (by simp [Code.vocabulary, Code.punctuation]) ?_
  cases last with
  | false => exact .value rfl .nil
  | true => exact .value rfl (.word (by simp [Code.vocabulary, Code.jsonWords]) .nil)

theorem spells (expression : JsonExpr) (owner : Option String) :
    Spells raw (expression.code (owner.map .name)) (expression.mentions owner) := by
  induction expression with
  | column reference => exact reference.spells owner
  | set target path value create ih =>
    exact spells_call (by simp [Code.vocabulary, Code.jsonWords]) ih
  | insert target path value after ih =>
    exact spells_call (by simp [Code.vocabulary, Code.jsonWords]) ih
  | remove target path ih =>
    exact ih.append (.word (by simp [Code.vocabulary, Code.jsonWords]) (.path rfl .nil)) rfl
  | query target path options ih =>
    refine .word (by simp [Code.vocabulary, Code.jsonWords]) (Spells.parenthesized ?_)
    rw [List.append_assoc]
    refine ih.append ?_ rfl
    refine .word (by simp [Code.vocabulary, Code.punctuation]) (.value rfl ?_)
    refine .word (by simp [Code.vocabulary, Code.jsonWords]) ?_
    cases options with
    | none => exact .nil
    | some options =>
      obtain ⟨bindings, silent⟩ := options
      refine .word (by simp [Code.vocabulary, Code.punctuation]) ?_
      cases silent with
      | false => exact .value rfl (.word (by simp [Code.vocabulary, Code.jsonWords]) .nil)
      | true => exact .value rfl (.word (by simp [Code.vocabulary, Code.jsonWords]) .nil)

end JsonExpr
end SqlComposer
