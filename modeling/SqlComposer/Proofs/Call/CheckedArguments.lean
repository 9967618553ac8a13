import SqlComposer.Condition.Shorthand
import SqlComposer.Proofs.Insertion.PayloadKeys
import SqlComposer.Proofs.Insertion.RelatedRequests
import SqlComposer.Proofs.Statement.CheckedStatements

/-!
# Checked arguments

What the methods make of their arguments before it becomes part of a clause: conditions are put into
groups or read from JSON, payloads are laid over others and become cells. Nothing unchecked comes in
on the way. The only fragment that the library makes of an argument is the number that a shorthand
compares a count with.
-/

namespace SqlComposer

/-- The fragments that the library writes itself: the number that a count is compared with, and the
rows of a query as one JSON value. -/
inductive Fragment.IsLibrary : Fragment → Prop
  | number {value : Json} {text : String} (h : Shorthand.numberText? value = some text) :
      IsLibrary (.verbatim text)
  | rows (shape : Shape) : IsLibrary (.verbatim (Query.jsonOf shape).1)

/-- The fragments supplied by the caller and those of the library. -/
def Fragment.Admitted (supplied : Fragment → Prop) (fragment : Fragment) : Prop :=
  supplied fragment ∨ fragment.IsLibrary

variable {Sub : Type} {raw : Fragment → Prop} {inner : Sub → Prop}

/-! ## Filters -/

namespace Condition

theorem checkedAll_iff {conditions : List (Condition Sub)} :
    CheckedAll raw inner conditions ↔ ∀ condition ∈ conditions, condition.Checked raw inner := by
  induction conditions with
  | nil => simp [CheckedAll]
  | cons condition rest ih => rw [CheckedAll, ih, List.forall_mem_cons]

theorem checkedIn_iff {groups : List (List (Condition Sub))} :
    CheckedIn raw inner groups ↔ ∀ group ∈ groups, CheckedAll raw inner group := by
  induction groups with
  | nil => simp [CheckedIn]
  | cons group rest ih => rw [CheckedIn, ih, List.forall_mem_cons]

/-- Two checked lists of conditions are checked together. -/
theorem CheckedAll.append {conditions others : List (Condition Sub)}
    (checked : CheckedAll raw inner conditions) (rest : CheckedAll raw inner others) :
    CheckedAll raw inner (conditions ++ others) := by
  rw [checkedAll_iff] at checked rest ⊢
  exact List.forall_mem_append.2 ⟨checked, rest⟩

theorem checkedAll_single {condition : Condition Sub} (checked : condition.Checked raw inner) :
    CheckedAll raw inner [condition] := ⟨checked, trivial⟩

end Condition

namespace Filter

theorem checked_unset : (unset : Filter Sub).Checked raw inner := trivial

/-- Adding a checked condition to the last group keeps the groups checked. -/
private theorem checkedIn_addToLast {condition : Condition Sub}
    {groups : List (List (Condition Sub))} (checked : Condition.CheckedIn raw inner groups)
    (added : condition.Checked raw inner) :
    Condition.CheckedIn raw inner (addToLast condition groups) := by
  induction groups with
  | nil => exact ⟨Condition.checkedAll_single added, trivial⟩
  | cons group rest ih =>
    cases rest with
    | nil => exact ⟨checked.1.append (Condition.checkedAll_single added), trivial⟩
    | cons second others => exact ⟨checked.1, ih checked.2⟩

theorem Checked.and {filter : Filter Sub} {condition : Condition Sub}
    (checked : filter.Checked raw inner) (added : condition.Checked raw inner) :
    (filter.and condition).Checked raw inner := checkedIn_addToLast checked added

theorem Checked.or {filter : Filter Sub} {condition : Condition Sub}
    (checked : filter.Checked raw inner) (added : condition.Checked raw inner) :
    (filter.or condition).Checked raw inner := by
  unfold Checked at checked ⊢
  rw [Condition.checkedIn_iff] at checked ⊢
  have hadded := Condition.checkedAll_single added
  exact List.forall_mem_append.2 ⟨checked, by simpa using hadded⟩

/-- Adding checked conditions as alternatives keeps a filter checked. -/
theorem Checked.foldlOr {filter : Filter Sub} {conditions : List (Condition Sub)}
    (checked : filter.Checked raw inner) (added : Condition.CheckedAll raw inner conditions) :
    (conditions.foldl Filter.or filter).Checked raw inner := by
  induction conditions generalizing filter with
  | nil => exact checked
  | cons condition rest ih => exact ih (checked.or added.1) added.2

end Filter

/-! ## Conditions from texts and from JSON -/

/-- A comparison of a column is checked as soon as its operand is. -/
theorem Condition.checked_ofColumn {column : String} {comparison : Comparison}
    {operand : Comparand Sub} {condition : Condition Sub}
    (h : Condition.ofColumn column comparison operand = .ok condition)
    (checked : operand.Checked raw inner) : condition.Checked raw inner := by
  unfold Condition.ofColumn at h
  split at h
  · obtain ⟨reference, _, rfl⟩ := map_eq_ok.1 h
    exact checked
  · simp at h

theorem AggregateCall.checked_iff {call : AggregateCall Sub} : call.Checked raw inner ↔
    isFunctionName call.function ∧ (∀ item ∈ call.order, item.Checked raw) ∧
      call.filter.Checked raw inner := by
  obtain ⟨function, argument, distinct, order, withinGroup, ⟨groups⟩⟩ := call
  rfl

theorem AggregateCall.checked_start {function : String} {call : AggregateCall Sub}
    (h : AggregateCall.start function = .ok call) : call.Checked raw inner := by
  simp only [AggregateCall.start, checkFunctionName, bind_eq_ok, pure_eq_ok] at h
  obtain ⟨_, hname, rfl⟩ := h
  split at hname
  · rename_i hform
    exact ⟨hform, by simp, trivial⟩
  · simp at hname

theorem AggregateCall.checked_on {call next : AggregateCall Sub} {column : String}
    (h : call.on column = .ok next) (checked : call.Checked raw inner) :
    next.Checked raw inner := by
  simp only [AggregateCall.on, bind_eq_ok, pure_eq_ok] at h
  obtain ⟨reference, _, rfl⟩ := h
  rw [AggregateCall.checked_iff] at checked ⊢
  exact checked

/-- A comparison of an aggregate is checked when its call and its operand are. -/
theorem AggregateCall.checked_compare {call : AggregateCall Sub} {comparison : Comparison}
    {operand : Comparand Sub} {condition : Condition Sub}
    (h : call.compare comparison operand = .ok condition) (checked : call.Checked raw inner)
    (right : operand.Checked raw inner) : condition.Checked raw inner := by
  unfold AggregateCall.compare at h
  split at h
  · cases h
    exact ⟨checked, right⟩
  · simp at h

theorem OrderItem.checked_ofColumn {column : String} {direction : Option Direction}
    {item : OrderItem} (h : OrderItem.ofColumn column direction = .ok item) :
    item.Checked raw := by
  obtain ⟨reference, _, rfl⟩ := map_eq_ok.1 h
  trivial

namespace Shorthand

@[simp]
private theorem malformed_ne_ok {α : Type} {fault : ShorthandFault} {a : α} :
    malformed fault ≠ .ok a := by
  simp [malformed]

private theorem checked_literals (items : List Json) :
    ∀ term ∈ items.map fun item ↦ Term.literal (.ofJson item), term.Checked raw := by
  intro term hterm
  obtain ⟨item, _, rfl⟩ := List.mem_map.1 hterm
  trivial

private theorem checked_operand {comparison : Comparison} {value : Json} {right : Comparand Sub}
    (h : operand comparison value = .ok right) : right.Checked raw inner := by
  unfold operand at h
  split at h
  case h_1 | h_2 =>
    split at h
    · cases h
      exact checked_literals _
    · simp at h
  case h_3 =>
    split at h
    · cases h
      exact ⟨trivial, trivial⟩
    · simp at h
  case h_4 | h_5 =>
    cases h
    trivial
  case h_6 =>
    split at h
    · simp at h
    · simp at h
    · cases h
      trivial

/-- The comparisons a shorthand object asks of a column hold values only, so they are checked. -/
private theorem checked_columnConditions {column : String} {value : Json}
    {conditions : List (Condition Sub)} (h : columnConditions column value = .ok conditions) :
    Condition.CheckedAll raw inner conditions := by
  unfold columnConditions at h
  split at h
  · simp at h
  · rw [Condition.checkedAll_iff]
    intro condition hcondition
    obtain ⟨member, _, hmember⟩ := exists_of_mem_results h hcondition
    simp only [bind_eq_ok] at hmember
    obtain ⟨comparison, _, right, hright, hcompared⟩ := hmember
    exact Condition.checked_ofColumn hcompared (checked_operand hright)
  · simp only [bind_eq_ok, pure_eq_ok] at h
    obtain ⟨condition, hcondition, rfl⟩ := h
    exact Condition.checkedAll_single (Condition.checked_ofColumn hcondition trivial)

mutual

private theorem checked_condition_aux (value : Json) (result : Condition Sub)
    (h : condition value = .ok result) : result.Checked raw inner := by
  cases value with
  | object members =>
    simp only [condition, bind_eq_ok, pure_eq_ok] at h
    obtain ⟨conditions, hconditions, rfl⟩ := h
    exact checked_memberConditions members conditions hconditions
  | _ => simp [condition] at h

/-- The conditions of the members of a shorthand object are checked. -/
private theorem checked_memberConditions (members : List (String × Json))
    (results : List (Condition Sub)) (h : memberConditions members = .ok results) :
    Condition.CheckedAll raw inner results := by
  match members with
  | [] =>
    simp only [memberConditions, Except.ok.injEq] at h
    subst h
    trivial
  | (name, value) :: rest =>
    have hrest (others) (hothers : memberConditions rest = .ok others) :=
      checked_memberConditions rest others hothers
    have hwrapped (wrap : List (Condition Sub) → Condition Sub)
        (hwrap : ∀ branch, Condition.CheckedAll raw inner branch → (wrap branch).Checked raw inner)
        (hdone : (do
          let branch ← branches value
          let first ← pure [wrap branch]
          return first ++ (← memberConditions rest)) = (.ok results : Except Error _)) :
        Condition.CheckedAll raw inner results := by
      simp only [bind_eq_ok, pure_eq_ok] at hdone
      obtain ⟨branch, hbranch, _, rfl, others, hothers, rfl⟩ := hdone
      have hfirst := hwrap branch (checked_branches value branch hbranch)
      exact (Condition.checkedAll_single hfirst).append (hrest others hothers)
    unfold memberConditions at h
    split at h
    · exact hwrapped .every (fun _ hbranch ↦ hbranch) h
    split at h
    · exact hwrapped .any (fun _ hbranch ↦ hbranch) h
    split at h
    · exact hwrapped (fun branch ↦ .not (.every branch)) (fun _ hbranch ↦ hbranch) h
    · simp only [bind_eq_ok, pure_eq_ok] at h
      obtain ⟨first, hfirst, others, hothers, rfl⟩ := h
      exact (checked_columnConditions hfirst).append (hrest others hothers)

private theorem checked_branches (value : Json) (results : List (Condition Sub))
    (h : branches value = .ok results) : Condition.CheckedAll raw inner results := by
  cases value with
  | list items => exact checked_conditions items results h
  | object members =>
    simp only [branches, bind_eq_ok, pure_eq_ok] at h
    obtain ⟨conditions, hconditions, rfl⟩ := h
    exact Condition.checkedAll_single (checked_memberConditions members conditions hconditions)
  | _ => simp [branches] at h

private theorem checked_conditions (items : List Json) (results : List (Condition Sub))
    (h : conditions items = .ok results) : Condition.CheckedAll raw inner results := by
  match items with
  | [] =>
    simp only [conditions, Except.ok.injEq] at h
    subst h
    trivial
  | item :: rest =>
    simp only [conditions, bind_eq_ok, pure_eq_ok] at h
    obtain ⟨first, hfirst, others, hothers, rfl⟩ := h
    exact ⟨checked_condition_aux item first hfirst, checked_conditions rest others hothers⟩

end

/-- A condition read from JSON holds literals only. -/
theorem checked_condition {value : Json} {result : Condition Sub}
    (h : condition value = .ok result) : result.Checked raw inner :=
  checked_condition_aux value result h

/-! ## Aggregates from JSON -/

private theorem checked_aggregateOrder {options : Json} {items : List OrderItem}
    (h : aggregateOrder options = .ok items) : ∀ item ∈ items, item.Checked raw := by
  unfold aggregateOrder at h
  split at h
  · cases h
    simp
  · intro item hitem
    obtain ⟨⟨column, direction⟩, _, hmember⟩ := exists_of_mem_results h hitem
    cases direction with
    | text direction =>
      obtain ⟨_, _, hcolumn⟩ := bind_eq_ok.1 hmember
      exact OrderItem.checked_ofColumn hcolumn
    | _ => simp at hmember
  · simp at h

/-- The filter of an aggregate is that of one option, with the alternatives of another one. -/
theorem aggregateFilter_eq_ok {options : Json} {filter : Filter Sub}
    (h : aggregateFilter options = .ok filter) : ∃ first,
      (options.get? "filter" = none ∧ first = .unset ∨
        ∃ value read, options.get? "filter" = some value ∧ condition value = .ok read ∧
          first = Filter.unset.and read) ∧
      (options.get? "filterOr" = none ∧ filter = first ∨
        ∃ items read, options.get? "filterOr" = some (.list items) ∧ conditions items = .ok read ∧
          filter = read.foldl Filter.or first) := by
  have hlist {first : Filter Sub} {items : List Json}
      (h : (do return (← conditions items).foldl Filter.or first) = .ok filter) :
      ∃ read, conditions items = .ok read ∧ filter = read.foldl Filter.or first := by
    obtain ⟨read, hread, h⟩ := bind_eq_ok.1 h
    exact ⟨read, hread, (pure_eq_ok.1 h).symm⟩
  unfold aggregateFilter at h
  cases hfilter : options.get? "filter" with
  | none =>
    simp only [hfilter, pure_bind] at h
    refine ⟨_, .inl ⟨rfl, rfl⟩, ?_⟩
    split at h
    · obtain ⟨read, hread, hdone⟩ := hlist h
      exact .inr ⟨_, read, ‹_›, hread, hdone⟩
    · cases h
    · exact .inl ⟨‹_›, (pure_eq_ok.1 h).symm⟩
  | some value =>
    simp only [hfilter, pure_bind] at h
    obtain ⟨first, hfirst, h⟩ := bind_eq_ok.1 h
    refine ⟨_, .inr ⟨value, first, rfl, hfirst, rfl⟩, ?_⟩
    split at h
    · obtain ⟨read, hread, hdone⟩ := hlist h
      exact .inr ⟨_, read, ‹_›, hread, hdone⟩
    · cases h
    · exact .inl ⟨‹_›, (pure_eq_ok.1 h).symm⟩

private theorem checked_aggregateFilter {options : Json} {filter : Filter Sub}
    (h : aggregateFilter options = .ok filter) : filter.Checked raw inner := by
  obtain ⟨first, hfirst, hothers⟩ := aggregateFilter_eq_ok h
  have hchecked : first.Checked raw inner := by
    rcases hfirst with ⟨-, rfl⟩ | ⟨_, _, -, hread, rfl⟩
    · exact Filter.checked_unset
    · exact Filter.checked_unset.and (checked_condition hread)
  rcases hothers with ⟨-, rfl⟩ | ⟨_, _, -, hread, rfl⟩
  · exact hchecked
  · exact hchecked.foldlOr (checked_conditions _ _ hread)

/-- The comparisons of one aggregate on one column are checked. -/
private theorem checked_aggregateConditions {function column : String} {value : Json}
    {results : List (Condition Sub)} (h : aggregateConditions function column value = .ok results) :
    Condition.CheckedAll raw inner results := by
  simp only [aggregateConditions, bind_eq_ok] at h
  obtain ⟨start, hstart, call, hcall, hdone⟩ := h
  have hchecked : call.Checked raw inner :=
    AggregateCall.checked_on hcall (AggregateCall.checked_start hstart)
  split at hdone
  · simp only [bind_eq_ok] at hdone
    obtain ⟨distinct, _, within, _, order, horder, filter, hfilter, conditions, hconditions,
      hdone⟩ := hdone
    split at hdone
    · simp at hdone
    · rw [pure_eq_ok] at hdone
      rw [← hdone, Condition.checkedAll_iff]
      intro condition hcondition
      obtain ⟨member, _, hmember⟩ := exists_of_mem_results hconditions hcondition
      simp only [bind_eq_ok] at hmember
      obtain ⟨comparison, _, right, hright, hcompared⟩ := hmember
      refine AggregateCall.checked_compare hcompared ?_ (checked_operand hright)
      rw [AggregateCall.checked_iff] at hchecked ⊢
      exact ⟨hchecked.1, checked_aggregateOrder horder, checked_aggregateFilter hfilter⟩
  · simp only [bind_eq_ok, pure_eq_ok] at hdone
    obtain ⟨condition, hcondition, rfl⟩ := hdone
    exact Condition.checkedAll_single
      (AggregateCall.checked_compare hcondition hchecked trivial)

/-- Conditions read from members one by one are checked if those of each member are. -/
private theorem checked_members {α : Type} {members : List α}
    {read : α → Except Error (List (Condition Sub))} {lists : List (List (Condition Sub))}
    (h : members.mapM read = .ok lists)
    (checked : ∀ member list, read member = .ok list → Condition.CheckedAll raw inner list) :
    Condition.CheckedAll raw inner lists.flatten := by
  rw [Condition.checkedAll_iff]
  intro condition hcondition
  obtain ⟨list, hlist, hmem⟩ := List.mem_flatten.1 hcondition
  obtain ⟨member, _, hmember⟩ := exists_of_mem_results h hlist
  exact Condition.checkedAll_iff.1 (checked member list hmember) condition hmem

/-- The comparisons of one aggregate function are checked. -/
private theorem checked_functionConditions
    (number : ∀ fragment : Fragment, fragment.IsLibrary → raw fragment) {function : String}
    {value : Json} {results : List (Condition Sub)}
    (h : functionConditions function value = .ok results) :
    Condition.CheckedAll raw inner results := by
  unfold functionConditions at h
  split at h
  · simp only [bind_eq_ok, pure_eq_ok] at h
    obtain ⟨lists, hlists, rfl⟩ := h
    exact checked_members hlists fun _ _ ↦ checked_aggregateConditions
  · split at h
    · rename_i text htext
      split at h
      · simp only [bind_eq_ok, pure_eq_ok] at h
        obtain ⟨call, hcall, condition, hcondition, rfl⟩ := h
        have hright : (Comparand.term (.raw (.verbatim text)) : Comparand Sub).Checked raw inner :=
          number _ (.number htext)
        exact Condition.checkedAll_single (AggregateCall.checked_compare hcondition
          (AggregateCall.checked_start hcall) hright)
      · simp at h
    · simp at h

/-- A condition on groups read from JSON holds literals and numbers to compare counts with. -/
theorem checked_aggregateCondition
    (number : ∀ fragment : Fragment, fragment.IsLibrary → raw fragment) {value : Json}
    {result : Condition Sub} (h : aggregateCondition value = .ok result) :
    result.Checked raw inner := by
  unfold aggregateCondition at h
  split at h
  · simp only [bind_eq_ok, pure_eq_ok] at h
    obtain ⟨lists, hlists, rfl⟩ := h
    exact checked_members hlists fun _ _ ↦ checked_functionConditions number
  · simp at h

end Shorthand

/-! ## Payloads -/

theorem Term.Checked.encoded {table : Table} {key : String} {term : Term}
    (checked : term.Checked raw) : (table.encodeTerm key term).Checked raw := by
  cases term with
  | literal value => trivial
  | _ => exact checked

namespace Payload

theorem checked_empty : empty.Checked raw := by
  intro key term hterm
  cases hterm

/-- Setting a key to a checked entry keeps a payload checked. -/
private theorem Checked.put {payload : Payload} {key : String} {entry : Entry}
    (checked : payload.Checked raw) (added : ∀ term, entry = .value term → term.Checked raw) :
    (payload.put key entry).Checked raw := by
  intro other term hterm
  rcases mem_entries_put hterm with hnew | hold
  · exact added term (congrArg Prod.snd hnew).symm
  · exact checked other term hold

theorem Checked.onto {payload defaults : Payload} (checked : payload.Checked raw)
    (given : defaults.Checked raw) : (payload.onto defaults).Checked raw := by
  unfold Payload.onto
  unfold Payload.Checked at checked
  generalize payload.entries = entries at checked ⊢
  induction entries generalizing defaults with
  | nil => exact given
  | cons entry rest ih =>
    obtain ⟨key, entry⟩ := entry
    have hput : (defaults.put key entry).Checked raw := by
      refine given.put ?_
      rintro term rfl
      exact checked key term List.mem_cons_self
    exact ih hput fun key term hterm ↦ checked key term (List.mem_cons_of_mem _ hterm)

/-- The values that an update takes from a checked payload are checked. -/
theorem Checked.columnValues {payload : Payload} {table : Table} {purpose : String}
    {values : List (String × Term)} (checked : payload.Checked raw)
    (h : payload.columnValues table purpose = .ok values) :
    ∀ value ∈ values, value.2.Checked raw := by
  simp only [Payload.columnValues, bind_eq_ok, pure_eq_ok] at h
  obtain ⟨found, hfound, rfl⟩ := h
  intro value hvalue
  obtain ⟨_, hmem, rfl⟩ := List.mem_filterMap.1 hvalue
  obtain ⟨⟨key, entry⟩, hentry, hwritten⟩ := exists_of_mem_results hfound hmem
  cases entry with
  | value term =>
    simp only [Except.ok.injEq] at hwritten
    split at hwritten
    · cases hwritten
      exact (checked key term hentry).encoded
    · simp at hwritten
  | _ => simp at hwritten

end Payload
/-! ## Plans -/

namespace RowPlan

/-- The cell that an entry of a checked payload fills holds a checked term. -/
private theorem checked_ofEntry {table : Table} {catalogued : Bool} {entry : String × Entry}
    {part : RowPart} (h : RowPart.ofEntry table catalogued entry = .ok part)
    (checked : ∀ term, entry.2 = .value term → term.Checked raw) {column : String} {cell : Cell}
    (hcell : part.cell? = some (column, cell)) : cell.Checked raw := by
  cases RowPart.ofEntry_eq_ok.1 h with
  | @cell _ term =>
    cases hcell
    exact (checked term rfl).encoded
  | before =>
    cases hcell
    trivial
  | skipped | after | many => cases hcell

private theorem checked_cellAt {column : String} {cells : List (String × Cell)}
    (checked : ∀ cell ∈ cells, cell.2.Checked raw) : (cellAt column cells).Checked raw := by
  unfold cellAt
  split
  · rename_i hfound
    exact checked _ (List.mem_reverse.1 (List.mem_of_find?_eq_some hfound))
  · trivial

/-- The cells of a plan hold what the payloads hold. -/
theorem checked_cells {table : Table} {catalogued : Bool} {payloads : List Payload}
    {plan : RowPlan} (h : ofPayloads table catalogued payloads = .ok plan)
    (checked : ∀ payload ∈ payloads, payload.Checked raw) :
    ∀ row ∈ plan.cells, ∀ cell ∈ row, cell.Checked raw := by
  simp only [ofPayloads, bind_eq_ok, pure_eq_ok] at h
  obtain ⟨rows, hrows, rfl⟩ := h
  intro row hrow cell hcell
  obtain ⟨parts, hparts, rfl⟩ := List.mem_map.1 hrow
  obtain ⟨column, _, rfl⟩ := List.mem_map.1 hcell
  apply checked_cellAt
  rintro ⟨name, written⟩ hwritten
  obtain ⟨part, hpart, hcell⟩ := List.mem_filterMap.1 hwritten
  obtain ⟨payload, hpayload, hplanned⟩ := exists_of_mem_results hrows hparts
  obtain ⟨⟨key, entry⟩, hentry, hof⟩ := exists_of_mem_results hplanned hpart
  refine checked_ofEntry hof ?_ hcell
  rintro term rfl
  exact checked payload hpayload key term hentry

end RowPlan
end SqlComposer
