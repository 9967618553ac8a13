import SqlComposer.Proofs.Condition.ShorthandLeaves
import SqlComposer.Proofs.Execution.HandedOutput

/-!
# Comparisons of aggregates in a shorthand object

A shorthand object for groups of rows asks for comparisons: under the name of a function and that of
a column stands a value, or comparisons mixed with the options of the call, and under `count` also a
number of rows. Every comparison is read once, in document order, with the options that stand beside
it, and binds the leaves of its filter, those of the alternatives to the filter and then those of
its own operand. A function without columns asks for nothing, and its name is not looked at.
-/

namespace SqlComposer

open Statement (foldComparand foldCondition foldCall)

namespace Shorthand

/-! ## What is asked for -/

/-- One comparison that a shorthand object asks for. -/
inductive Asked where
  /-- The number of rows of a group is to be a number. -/
  | rows (function : String) (number : Json)
  /-- A function of a column is to equal a value. -/
  | direct (function column : String) (value : Json)
  /-- A function of a column compares with a value under a key, beside the other members. -/
  | member (function column : String) (members : List (String × Json)) (key : String)
    (value : Json)

/-- The comparisons of a function with a column, in document order. -/
def askedOf (function column : String) : Json → List Asked
  | .object members =>
    (members.filter fun (key, _) ↦ key ∉ aggregateOptions).map fun (key, value) ↦
      .member function column members key value
  | value => [.direct function column value]

/-- The comparisons of a function, in document order. -/
def asked (function : String) : Json → List Asked
  | .object columns => columns.flatMap fun (column, value) ↦ askedOf function column value
  | value => [.rows function value]

/-! ## What is understood -/

/-- The order that is given for a call. -/
inductive Ordered : Option Json → List OrderItem → Prop
  | none : Ordered none []
  | columns {columns : List (String × Json)} {items : List OrderItem}
      (each : List.Forall₂ (fun column item ↦ ∃ text direction, column.2 = .text text ∧
        Direction.parse text = .ok direction ∧
        OrderItem.ofColumn column.1 (some direction) = .ok item) columns items) :
      Ordered (some (.object columns)) items

/-- The filter that is given for a call, with its leaves. -/
inductive Filtered : Option Json → List (List (Condition Statement)) → List Mark → Prop
  | none : Filtered none [] []
  | some {value : Json} {read : Condition Statement} {marks : List Mark}
      (accepted : condition value = .ok read) (sentence : Sentence value marks) :
      Filtered (some value) [[read]] marks

/-- The alternatives that are given to the filter of a call, with their leaves. -/
inductive Alternatives : Option Json → List (List (Condition Statement)) → List Mark → Prop
  | none : Alternatives none [] []
  | list {items : List Json} {read : List (Condition Statement)} {marks : List Mark}
      (accepted : conditions items = .ok read) (sentences : Sentences items marks) :
      Alternatives (some (.list items)) (read.map fun condition ↦ [condition]) marks

/-- A switch is on if it is given as true, and off without it. -/
def Switched (value : Option Json) (on : Bool) : Prop :=
  value = some (.bool on) ∨ value = none ∧ on = false

/-- The call of a function on a column with the options among some members, and the leaves of its
filter. -/
structure Calls (function column : String) (members : List (String × Json))
    (call : AggregateCall Statement) (marks : List Mark) : Prop where
  named : call.function = function ∧ isFunctionName function
  argument : ∃ reference, ColumnRef.parse column = .ok reference ∧ call.argument = some reference
  distinct : Switched ((Json.object members).get? "distinct") call.distinct
  withinGroup : Switched ((Json.object members).get? "withinGroup") call.withinGroup
  order : Ordered ((Json.object members).get? "order") call.order
  filter : ∃ first others firstMarks otherMarks,
    Filtered ((Json.object members).get? "filter") first firstMarks ∧
    Alternatives ((Json.object members).get? "filterOr") others otherMarks ∧
    call.filter.groups = first ++ others ∧ marks = firstMarks ++ otherMarks

/-- The condition that a comparison comes to, with its leaves. -/
inductive Answers : Asked → Condition Statement → List Mark → Prop
  | rows {number : Json} {text : String} (written : numberText? number = some text) :
      Answers (.rows "count" number) (.aggregate ⟨"count", none, false, [], false, .unset⟩ .equals
        (.term (.raw (.verbatim text)))) []
  | direct {function column : String} {value : Json} {call : AggregateCall Statement}
      (calls : Calls function column [] call []) :
      Answers (.direct function column value)
        (.aggregate call .equals (.term (.literal (.ofJson value))))
        [.compared .equals (.ofJson value)]
  | member {function column : String} {members : List (String × Json)} {comparison : Comparison}
      {value : Json} {call : AggregateCall Statement} {right : Comparand Statement}
      {filter marks : List Mark} (calls : Calls function column members call filter)
      (accepted : operand comparison value = .ok right) (form : Operand comparison value marks) :
      Answers (.member function column members comparison.key value)
        (.aggregate call comparison right) (filter ++ marks)

/-- Comparisons come to conditions one by one. -/
inductive AnswerAll : List Asked → List (Condition Statement) → List Mark → Prop
  | nil : AnswerAll [] [] []
  | cons {first : Asked} {rest : List Asked} {condition : Condition Statement}
      {others : List (Condition Statement)} {marks following : List Mark}
      (answers : Answers first condition marks) (all : AnswerAll rest others following) :
      AnswerAll (first :: rest) (condition :: others) (marks ++ following)

/-- The answers to two lists of asked comparisons answer them together. -/
theorem AnswerAll.append {one other : List Asked} {conditions others : List (Condition Statement)}
    {marks following : List Mark} (h : AnswerAll one conditions marks)
    (hother : AnswerAll other others following) :
    AnswerAll (one ++ other) (conditions ++ others) (marks ++ following) := by
  induction h with
  | nil => exact hother
  | cons answers _ ih =>
    rw [List.append_assoc]
    exact .cons answers ih

/-! ## Every comparison is read once -/

theorem switched_of_switch {name : String} {options : Json} {on : Bool}
    (h : switch name options = .ok on) : Switched (options.get? name) on := by
  unfold switch at h
  split at h
  · exact .inr ⟨‹_›, (Except.ok.inj h).symm⟩
  · rw [← Except.ok.inj h]
    exact .inl ‹_›
  · cases h

theorem ordered_of_aggregateOrder {options : Json} {items : List OrderItem}
    (h : aggregateOrder options = .ok items) : Ordered (options.get? "order") items := by
  unfold aggregateOrder at h
  split at h
  · rename_i hnone
    rw [hnone, ← Except.ok.inj h]
    exact .none
  · rename_i columns hcolumns
    rw [hcolumns]
    refine .columns ((forall₂_of_mapM h).imp fun column item hitem ↦ ?_)
    obtain ⟨name, direction⟩ := column
    cases direction with
    | text text =>
      obtain ⟨direction, hdirection, hitem⟩ := bind_eq_ok.1 hitem
      exact ⟨text, direction, rfl, hdirection, hitem⟩
    | _ => cases hitem
  · cases h

/-- Alternatives become groups of their own. -/
theorem groups_foldl_or (filter : Filter Statement) (conditions : List (Condition Statement)) :
    (conditions.foldl Filter.or filter).groups =
      filter.groups ++ conditions.map fun condition ↦ [condition] := by
  induction conditions generalizing filter with
  | nil => simp
  | cons condition rest ih =>
    rw [List.foldl_cons, ih, Filter.or, List.append_assoc]
    rfl

/-- The filter of an aggregate is read off its two options. -/
theorem filtered_of_aggregateFilter {options : Json} {filter : Filter Statement}
    (h : aggregateFilter options = .ok filter) :
    ∃ first others firstMarks otherMarks, Filtered (options.get? "filter") first firstMarks ∧
      Alternatives (options.get? "filterOr") others otherMarks ∧
      filter.groups = first ++ others := by
  obtain ⟨start, hfirst, hothers⟩ := aggregateFilter_eq_ok h
  obtain ⟨firstMarks, hfiltered⟩ :
      ∃ marks, Filtered (options.get? "filter") start.groups marks := by
    rcases hfirst with ⟨hnone, rfl⟩ | ⟨value, read, hvalue, hread, rfl⟩
    · exact ⟨[], hnone ▸ .none⟩
    · obtain ⟨marks, hmarks⟩ := exists_sentence value read hread
      exact ⟨marks, hvalue ▸ .some hread hmarks⟩
  rcases hothers with ⟨hnone, rfl⟩ | ⟨items, read, hitems, hread, rfl⟩
  · exact ⟨_, [], firstMarks, [], hfiltered, hnone ▸ .none, (List.append_nil _).symm⟩
  · obtain ⟨marks, hmarks⟩ := exists_sentences items read hread
    exact ⟨_, _, firstMarks, marks, hfiltered, hitems ▸ .list hread hmarks, groups_foldl_or _ _⟩

/-- A call that is started has a proper name, a column and no options. -/
theorem exists_of_start {function column : String} {start call : AggregateCall Statement}
    (started : AggregateCall.start function = .ok start) (called : start.on column = .ok call) :
    isFunctionName function ∧ ∃ reference, ColumnRef.parse column = .ok reference ∧
      call = ⟨function, some reference, false, [], false, .unset⟩ := by
  simp only [AggregateCall.start, bind_eq_ok, pure_eq_ok] at started
  obtain ⟨_, hchecked, rfl⟩ := started
  simp only [AggregateCall.on, bind_eq_ok, pure_eq_ok] at called
  obtain ⟨reference, hreference, rfl⟩ := called
  unfold checkFunctionName at hchecked
  split at hchecked
  · exact ⟨‹_›, reference, hreference, rfl⟩
  · cases hchecked

/-- A call that is compared is compared as it is. -/
theorem eq_of_compare {call : AggregateCall Statement} {comparison : Comparison}
    {right : Comparand Statement} {result : Condition Statement}
    (h : call.compare comparison right = .ok result) :
    result = .aggregate call comparison right := by
  unfold AggregateCall.compare at h
  split at h
  · exact (Except.ok.inj h).symm
  · cases h

/-- Every comparison beside the options is made with the same call. -/
theorem exists_answerAll {function column : String} {members compared : List (String × Json)}
    {call : AggregateCall Statement} {filter : List Mark} {results : List (Condition Statement)}
    (calls : Calls function column members call filter)
    (h : (compared.mapM fun (name, value) => do
      let comparison ← Comparison.ofKey name
      call.compare comparison (← operand comparison value)) = .ok results) :
    ∃ marks, AnswerAll
      (compared.map fun (key, value) ↦ .member function column members key value)
      results marks := by
  induction compared generalizing results with
  | nil =>
    cases h
    exact ⟨[], .nil⟩
  | cons member rest ih =>
    obtain ⟨key, value⟩ := member
    obtain ⟨first, others, hfirst, hothers, rfl⟩ := mapM_eq_ok_cons.1 h
    simp only [bind_eq_ok] at hfirst
    obtain ⟨comparison, hcomparison, right, hright, hcompared⟩ := hfirst
    obtain ⟨marks, hmarks⟩ := exists_operand_marks hright
    obtain ⟨following, hfollowing⟩ := ih hothers
    rw [eq_of_compare hcompared, ← Comparison.key_of_ofKey hcomparison]
    exact ⟨_, .cons (.member calls hright hmarks) hfollowing⟩

/-- What is read for a function and a column are the comparisons that are asked for, and there is
at least one. -/
theorem answerAll_of_aggregateConditions {function column : String} {value : Json}
    {results : List (Condition Statement)}
    (h : aggregateConditions function column value = .ok results) :
    isFunctionName function ∧ askedOf function column value ≠ [] ∧
      ∃ marks, AnswerAll (askedOf function column value) results marks := by
  simp only [aggregateConditions, bind_eq_ok] at h
  obtain ⟨start, hstart, call, hcall, h⟩ := h
  obtain ⟨hname, reference, hreference, rfl⟩ := exists_of_start hstart hcall
  refine ⟨hname, ?_⟩
  split at h
  · rename_i members
    simp only [bind_eq_ok] at h
    obtain ⟨distinct, hdistinct, withinGroup, hwithin, order, horder, filter, hfilter, conditions,
      hconditions, h⟩ := h
    split at h
    · cases h
    · rename_i hsome
      rw [← pure_eq_ok.1 h]
      obtain ⟨first, others, firstMarks, otherMarks, hfirst, hothers, hgroups⟩ :=
        filtered_of_aggregateFilter hfilter
      have hcalls : Calls function column members
          ⟨function, some reference, distinct, order, withinGroup, filter⟩
          (firstMarks ++ otherMarks) :=
        ⟨⟨rfl, hname⟩, ⟨reference, hreference, rfl⟩, switched_of_switch hdistinct,
          switched_of_switch hwithin, ordered_of_aggregateOrder horder,
          first, others, firstMarks, otherMarks, hfirst, hothers, hgroups, rfl⟩
      obtain ⟨marks, hmarks⟩ := exists_answerAll hcalls hconditions
      refine ⟨fun hnone ↦ hsome ?_, marks, hmarks⟩
      rw [List.map_eq_nil_iff.1 hnone] at hconditions
      cases hconditions
      rfl
  · rename_i hdirect
    obtain ⟨condition, hcondition, h⟩ := bind_eq_ok.1 h
    rw [← pure_eq_ok.1 h, eq_of_compare hcondition]
    have hcalls : Calls function column []
        ⟨function, some reference, false, [], false, .unset⟩ [] :=
      ⟨⟨rfl, hname⟩, ⟨reference, hreference, rfl⟩, .inr ⟨rfl, rfl⟩, .inr ⟨rfl, rfl⟩, .none,
        [], [], [], [], .none, .none, rfl, rfl⟩
    have hasked : askedOf function column value = [.direct function column value] := by
      cases value with
      | object members => exact absurd rfl (hdirect members)
      | _ => rfl
    rw [hasked]
    exact ⟨List.cons_ne_nil _ _, _, .cons (.direct hcalls) .nil⟩

/-- What is asked for part by part is read part by part. -/
theorem exists_answerAll_flatten {parts : List (String × Json)}
    {read : String × Json → Except Error (List (Condition Statement))}
    {asks : String × Json → List Asked} {lists : List (List (Condition Statement))}
    (each : ∀ part results, read part = .ok results → ∃ marks, AnswerAll (asks part) results marks)
    (h : parts.mapM read = .ok lists) :
    ∃ marks, AnswerAll (parts.flatMap asks) lists.flatten marks := by
  induction parts generalizing lists with
  | nil =>
    cases h
    exact ⟨[], .nil⟩
  | cons part rest ih =>
    obtain ⟨first, others, hfirst, hothers, rfl⟩ := mapM_eq_ok_cons.1 h
    obtain ⟨marks, hmarks⟩ := each part first hfirst
    obtain ⟨following, hfollowing⟩ := ih hothers
    exact ⟨marks ++ following, hmarks.append hfollowing⟩

/-- What is read for a function are the comparisons that are asked for. Only a function without
columns may have none, or a name that is no name of a function. -/
theorem answerAll_of_functionConditions {function : String} {value : Json}
    {results : List (Condition Statement)}
    (h : functionConditions function value = .ok results) :
    (value = .object [] ∨ isFunctionName function ∧ asked function value ≠ []) ∧
      ∃ marks, AnswerAll (asked function value) results marks := by
  unfold functionConditions at h
  split at h
  · rename_i columns
    obtain ⟨lists, hlists, h⟩ := bind_eq_ok.1 h
    rw [← pure_eq_ok.1 h]
    refine ⟨?_, exists_answerAll_flatten
      (fun _ _ hread ↦ (answerAll_of_aggregateConditions hread).2.2) hlists⟩
    cases columns with
    | nil => exact .inl rfl
    | cons column rest =>
      obtain ⟨first, _, hfirst, -, -⟩ := mapM_eq_ok_cons.1 hlists
      obtain ⟨hname, hasked, -⟩ := answerAll_of_aggregateConditions hfirst
      refine .inr ⟨hname, fun hnone ↦ hasked ?_⟩
      exact (List.append_eq_nil_iff.1 hnone).1
  · rename_i hother
    have hasked : asked function value = [.rows function value] := by
      cases value with
      | object members => exact absurd rfl (hother members)
      | _ => rfl
    split at h
    · rename_i text htext
      split at h
      · rename_i hcount
        subst hcount
        simp only [bind_eq_ok, pure_eq_ok] at h
        obtain ⟨call, hcall, condition, hcondition, rfl⟩ := h
        have hstart : AggregateCall.start "count" =
            (.ok ⟨"count", none, false, [], false, .unset⟩ :
              Except Error (AggregateCall Statement)) := rfl
        cases hstart.symm.trans hcall
        rw [eq_of_compare hcondition, hasked]
        exact ⟨.inr ⟨by decide, List.cons_ne_nil _ _⟩, _, .cons (.rows htext) .nil⟩
      · cases h
    · cases h

end Shorthand

/-! ## Every comparison binds its leaves -/

namespace Code

@[simp]
theorem values_dropped (code : Code) : values (dropped code) = values code := by
  unfold dropped
  induction values code with
  | nil => rfl
  | cons value rest ih => rw [List.map_cons, values, ih, Piece.values, List.singleton_append]

end Code

/-- What is written behind a left-hand side does not depend on it. -/
theorem exists_comparisonCode {operand : Comparand Written} {comparison : Comparison}
    {qualifier : Qualifier} {right : Code}
    (h : comparisonCode [] comparison operand qualifier = .ok right) (left : Code) :
    ∃ code, comparisonCode left comparison operand qualifier = .ok code ∧
      Code.values code = Code.values left ++ Code.values right := by
  cases operand with
  | term term =>
    simp only [comparisonCode] at h ⊢
    split at h
    · cases h
      exact ⟨_, if_pos ‹_›, Code.values_append _ _⟩
    · rename_i hequals
      rw [if_neg hequals]
      split at h
      · cases h
        exact ⟨_, if_pos ‹_›, Code.values_append _ _⟩
      · rename_i hnot
        rw [if_neg hnot]
        obtain ⟨inner, hinner, h⟩ := bind_eq_ok.1 h
        rw [hinner]
        split at h
        · cases h
          refine ⟨_, if_pos ‹_›, ?_⟩
          simp [Code.values_append]
        · cases h
          refine ⟨_, if_neg ‹_›, ?_⟩
          simp [Code.values_append]
  | list terms =>
    simp only [comparisonCode] at h ⊢
    split at h
    · rename_i hmember
      rw [if_pos hmember]
      split at h
      · cases h
        refine ⟨_, if_pos ‹_›, ?_⟩
        rw [Code.values_append, Code.values_dropped]
        rfl
      · rename_i hsome
        rw [if_neg hsome]
        obtain ⟨inner, hinner, h⟩ := bind_eq_ok.1 h
        rw [hinner]
        cases h
        refine ⟨_, rfl, ?_⟩
        simp [Code.values_append]
    · cases h
  | range lower upper =>
    simp only [comparisonCode] at h ⊢
    split at h
    · rename_i hbetween
      rw [if_pos hbetween]
      obtain ⟨first, hfirst, h⟩ := bind_eq_ok.1 h
      obtain ⟨second, hsecond, h⟩ := bind_eq_ok.1 h
      rw [hfirst, hsecond]
      cases h
      refine ⟨_, rfl, ?_⟩
      simp [Code.values_append]
    · cases h
  | query query =>
    obtain ⟨inner, hinner, h⟩ := bind_eq_ok.1 h
    cases h
    refine ⟨_, bind_eq_ok.2 ⟨inner, hinner, rfl⟩, ?_⟩
    simp [Code.values_append]

/-- Columns with directions are written and bind nothing. -/
theorem OrderItem.exists_listCode {items : List OrderItem} {qualifier : Qualifier}
    (plain : ∀ item ∈ items, ∃ reference direction, item = .column reference direction)
    (text : qualifier.IsText) :
    ∃ code, OrderItem.listCode qualifier items = .ok code ∧ Code.values code = [] := by
  have hitem {item : OrderItem} (h : item ∈ items) :
      ∃ code, item.code qualifier = .ok code ∧ Code.values code = [] := by
    obtain ⟨reference, direction, rfl⟩ := plain item h
    have hcolumn : Code.values (reference.code qualifier) = [] := by
      rw [Code.values_eq_marks, reference.marks_code text]
      rfl
    refine ⟨_, rfl, ?_⟩
    rw [Code.values_append, hcolumn]
    cases direction <;> rfl
  obtain ⟨codes, hcodes⟩ := exists_mapM_eq_ok fun item h ↦ (hitem h).imp fun _ ↦ And.left
  refine ⟨Code.separated ", " codes, by rw [listCode, hcodes]; rfl, ?_⟩
  rw [Code.values_separated, List.flatMap_eq_nil_iff]
  intro code hcode
  obtain ⟨item, hmem, hwritten⟩ := exists_of_mem_results hcodes hcode
  obtain ⟨own, hown, hvalues⟩ := hitem hmem
  cases hown.symm.trans hwritten
  exact hvalues

namespace Shorthand

open Condition (WriteAll writeAll_nil writeAll_single)

theorem Ordered.columns_of_mem {order : Option Json} {items : List OrderItem}
    (h : Ordered order items) :
    ∀ item ∈ items, ∃ reference direction, item = .column reference direction := by
  cases h with
  | none => exact fun item hitem ↦ absurd hitem List.not_mem_nil
  | columns each =>
    intro item hitem
    obtain ⟨column, -, text, direction, -, -, hcolumn⟩ := exists_of_forall₂ each hitem
    obtain ⟨reference, -, rfl⟩ := map_eq_ok.1 hcolumn
    exact ⟨reference, some direction, rfl⟩

theorem Filtered.writeAll {filter : Option Json} {groups : List (List (Condition Statement))}
    {marks : List Mark} (h : Filtered filter groups marks) :
    WriteAll (groups.map .every) marks := by
  cases h with
  | none => exact writeAll_nil
  | some accepted sentence =>
    obtain ⟨_, hsame, hwrites⟩ := exists_condition sentence
    cases hsame.symm.trans accepted
    exact writeAll_single (writeAll_single hwrites).every

/-- Conditions that are alternatives are written like themselves. -/
theorem writeAll_alternatives {conditions : List (Condition Statement)} {marks : List Mark}
    (h : WriteAll conditions marks) :
    WriteAll (conditions.map fun condition ↦ .every [condition]) marks := by
  intro qualifier text
  obtain ⟨written, hwritten, rfl⟩ := h qualifier text
  clear h
  induction conditions generalizing written with
  | nil =>
    rw [← Except.ok.inj hwritten]
    exact ⟨[], rfl, rfl⟩
  | cons condition rest ih =>
    simp only [List.map_cons, Condition.formulas, bind_eq_ok, pure_eq_ok] at hwritten
    obtain ⟨first, hfirst, later, hlater, rfl⟩ := hwritten
    obtain ⟨others, hothers, hmarks⟩ := ih later hlater
    refine ⟨.every [first] :: others, ?_, ?_⟩
    · rw [List.map_cons, List.map_cons, Condition.formulas, hothers, foldCondition,
        Statement.foldConditions_eq, Condition.formula, List.map_singleton, Condition.formulas,
        hfirst]
      rfl
    · simp only [Formula.marksOf, Formula.marks, hmarks, List.append_nil]

/-- The alternatives of an option are written with their marks in order. -/
theorem Alternatives.writeAll {alternatives : Option Json}
    {groups : List (List (Condition Statement))} {marks : List Mark}
    (h : Alternatives alternatives groups marks) : WriteAll (groups.map .every) marks := by
  cases h with
  | none => exact writeAll_nil
  | list accepted sentences =>
    obtain ⟨_, hsame, hall⟩ := exists_conditions sentences
    cases hsame.symm.trans accepted
    rw [List.map_map]
    exact writeAll_alternatives hall

/-- The filter of a call is written and binds its leaves. -/
theorem exists_groupFormulas {groups : List (List (Condition Statement))} {marks : List Mark}
    (h : WriteAll (groups.map .every) marks) {qualifier : Qualifier} (text : qualifier.IsText) :
    ∃ written, Condition.groupFormulas qualifier (Statement.foldGroups Clauses.code groups) =
      .ok written ∧ (Formula.any written).marks = marks := by
  obtain ⟨written, hwritten, hmarks⟩ := h qualifier text
  refine ⟨written, ?_, by rw [Formula.marks, hmarks]⟩
  rw [← formulas_groups, Statement.foldGroups_eq, ← hwritten, List.map_map, List.map_map]
  refine congrArg _ (List.map_congr_left fun group _ ↦ ?_)
  rw [Function.comp_apply, Function.comp_apply, foldCondition, Statement.foldConditions_eq]

/-- A call is written and binds the leaves of its filter. -/
theorem Calls.exists_callCode {function column : String} {members : List (String × Json)}
    {call : AggregateCall Statement} {marks : List Mark}
    (h : Calls function column members call marks) {qualifier : Qualifier}
    (text : qualifier.IsText) :
    ∃ code, Condition.callCode qualifier (foldCall Clauses.code call) = .ok code ∧
      Code.values code = marks.filterMap Mark.bound? := by
  obtain ⟨-, ⟨reference, -, hargument⟩, -, -, horder, first, others, firstMarks, otherMarks,
    hfirst, hothers, hgroups, rfl⟩ := h
  obtain ⟨name, argument, distinct, order, withinGroup, ⟨groups⟩⟩ := call
  subst hargument
  have hgroups : groups = first ++ others := hgroups
  subst hgroups
  have hall : WriteAll ((first ++ others).map .every) (firstMarks ++ otherMarks) := by
    rw [List.map_append]
    exact hfirst.writeAll.append hothers.writeAll
  obtain ⟨written, hwritten, hmarks⟩ := exists_groupFormulas hall text
  have hfilter : Code.values ((Formula.any written).code?.getD []) =
      (firstMarks ++ otherMarks).filterMap Mark.bound? := by
    rw [Code.values_eq_marks, Formula.marks_code?, hmarks]
  have hreference : Code.values (reference.code qualifier) = [] := by
    rw [Code.values_eq_marks, reference.marks_code text]
    rfl
  have hdistinct : Code.values (if distinct then [.word "DISTINCT "] else []) = [] := by
    cases distinct <;> rfl
  simp only [foldCall, Statement.foldFilter, Condition.callCode]
  cases order with
  | nil =>
    simp only [List.isEmpty_nil, ↓reduceIte, pure_bind]
    refine ⟨_, bind_eq_ok.2 ⟨written, hwritten, rfl⟩, ?_⟩
    rw [← hfilter]
    cases (Formula.any written).code? <;>
      simp [Code.values, Code.values_append, Code.values_parenthesized, Piece.values, hdistinct,
        hreference]
  | cons item items =>
    obtain ⟨list, hlist, hplain⟩ := OrderItem.exists_listCode horder.columns_of_mem text
    simp only [List.isEmpty_cons, Bool.false_eq_true, ↓reduceIte, pure_bind]
    refine ⟨_, bind_eq_ok.2 ⟨list, hlist, bind_eq_ok.2 ⟨written, hwritten, rfl⟩⟩, ?_⟩
    rw [← hfilter]
    cases (Formula.any written).code? <;> cases withinGroup <;>
      simp [Code.values, Code.values_append, Code.values_parenthesized, Piece.values, hdistinct,
        hreference, hplain]

/-- Behind every text, a condition is written and binds the values of its leaves. -/
def Binds (condition : Condition Statement) (marks : List Mark) : Prop :=
  ∀ qualifier : Qualifier, qualifier.IsText → ∃ formula,
    (foldCondition Clauses.code condition).formula qualifier = .ok formula ∧
      formula.marks.filterMap Mark.bound? = marks.filterMap Mark.bound?

/-- A call is compared with an operand behind it. -/
theorem binds_aggregate {call : AggregateCall Statement} {comparison : Comparison}
    {right : Comparand Statement} {filter marks : List Mark}
    (called : ∀ qualifier : Qualifier, qualifier.IsText → ∃ left,
      Condition.callCode qualifier (foldCall Clauses.code call) = .ok left ∧
        Code.values left = filter.filterMap Mark.bound?)
    (writes : right.Writes comparison marks) :
    Binds (.aggregate call comparison right) (filter ++ marks) := by
  intro qualifier text
  obtain ⟨left, hleft, hcall⟩ := called qualifier text
  obtain ⟨alone, halone, rfl⟩ := writes [] qualifier Code.marks_nil
  obtain ⟨code, hcode, hvalues⟩ := exists_comparisonCode halone left
  refine ⟨.atom code, ?_, ?_⟩
  · rw [foldCondition, Condition.formula]
    exact bind_eq_ok.2 ⟨left, hleft, bind_eq_ok.2 ⟨code, hcode, rfl⟩⟩
  · rw [Formula.marks, ← Code.values_eq_marks, hvalues, hcall, Code.values_eq_marks,
      List.filterMap_append]

/-- The condition of a comparison binds its leaves. -/
theorem Answers.binds {asked : Asked} {condition : Condition Statement} {marks : List Mark}
    (h : Answers asked condition marks) : Binds condition marks := by
  cases h with
  | @rows number text =>
    have hnumber : Comparand.Writes .equals (.term (.raw (.verbatim text))) [] := by
      intro left qualifier hleft
      refine ⟨_, rfl, ?_⟩
      simp [hleft, Piece.marks, Comparison.operator, Fragment.pieces, Fragment.verbatim]
    have hcall (qualifier : Qualifier) : qualifier.IsText → ∃ left,
        Condition.callCode qualifier (foldCall Clauses.code
          ⟨"count", none, false, [], false, .unset⟩) = .ok left ∧
          Code.values left = ([] : List Mark).filterMap Mark.bound? := fun _ ↦ ⟨_, rfl, rfl⟩
    exact binds_aggregate hcall hnumber
  | direct calls =>
    exact binds_aggregate (fun _ ↦ calls.exists_callCode) (Comparand.writes_literal .equals _)
  | member calls accepted form =>
    obtain ⟨_, hsame, -, hwrites⟩ := exists_operand form
    cases hsame.symm.trans accepted
    exact binds_aggregate (fun _ ↦ calls.exists_callCode) hwrites

/-- Conditions bind the leaves of one after another. -/
theorem AnswerAll.exists_formulas {asked : List Asked} {conditions : List (Condition Statement)}
    {marks : List Mark} (h : AnswerAll asked conditions marks) {qualifier : Qualifier}
    (text : qualifier.IsText) :
    ∃ written, Condition.formulas qualifier (conditions.map (foldCondition Clauses.code)) =
      .ok written ∧
      (Formula.marksOf written).filterMap Mark.bound? = marks.filterMap Mark.bound? := by
  induction h with
  | nil => exact ⟨[], rfl, rfl⟩
  | cons answers _ ih =>
    obtain ⟨first, hfirst, hvalues⟩ := answers.binds qualifier text
    obtain ⟨others, hothers, hall⟩ := ih
    refine ⟨first :: others, ?_, ?_⟩
    · rw [List.map_cons, Condition.formulas, hfirst, hothers]
      rfl
    · rw [Formula.marksOf, List.filterMap_append, List.filterMap_append, hvalues, hall]

/-- A shorthand object for groups that is read comes to one condition for each comparison that it
asks for, in document order, with the options beside it and nothing else. It is written behind every
text and binds the leaves of the comparisons one after another. Every function in it has a proper
name and is compared with something, unless no column stands under it. -/
theorem aggregateCondition_answers {json : Json} {result : Condition Statement}
    (h : aggregateCondition json = .ok result) :
    ∃ functions conditions marks, json = .object functions ∧ result = .every conditions ∧
      (∀ function value, (function, value) ∈ functions →
        value = .object [] ∨ isFunctionName function ∧ asked function value ≠ []) ∧
      AnswerAll (functions.flatMap fun (function, value) ↦ asked function value) conditions marks ∧
      ∀ qualifier : Qualifier, qualifier.IsText → ∃ code,
        (foldCondition Clauses.code result).code? qualifier = .ok code ∧
          Code.values (code.getD []) = marks.filterMap Mark.bound? := by
  cases json with
  | object functions =>
    obtain ⟨lists, hlists, hresult⟩ := bind_eq_ok.1 h
    rw [← pure_eq_ok.1 hresult]
    obtain ⟨marks, hmarks⟩ := exists_answerAll_flatten
      (fun _ _ hread ↦ (answerAll_of_functionConditions hread).2) hlists
    refine ⟨functions, lists.flatten, marks, rfl, rfl, fun function value hmem ↦ ?_, hmarks,
      fun qualifier text ↦ ?_⟩
    · obtain ⟨results, -, hread⟩ := exists_result_of_mem hlists hmem
      exact (answerAll_of_functionConditions hread).1
    · obtain ⟨written, hwritten, hvalues⟩ := hmarks.exists_formulas text
      refine ⟨(Formula.every written).code?, ?_, ?_⟩
      · rw [foldCondition, Statement.foldConditions_eq, Condition.code?, Condition.formula,
          hwritten]
        rfl
      · rw [Code.values_eq_marks, Formula.marks_code?, Formula.marks, hvalues]
  | _ => cases h

/-- The condition on groups of users that a shorthand object comes to, if it is read. -/
def written? (json : Json) : Option (Option Code) :=
  ((aggregateCondition json).bind fun result ↦
    (foldCondition Clauses.code result).code? (some (.name "user"))).toOption

/-- How many different users of one age or of one name a group has. -/
def idCounts : Json :=
  .object [("id", .object [("gt", .int 2), ("filter", .object [("age", .int 30)]),
    ("filterOr", .list [.object [("name", .text "Ada")]]), ("distinct", .bool true),
    ("lt", .int 9)])]

/-- The same options stand in both comparisons, and their values come first in each. -/
theorem answers_idCounts : ∃ conditions marks code,
    aggregateCondition (.object [("count", idCounts)]) = .ok (.every conditions) ∧
    AnswerAll (asked "count" idCounts) conditions marks ∧
    written? (.object [("count", idCounts)]) = some code ∧
    Code.values (code.getD []) = marks.filterMap Mark.bound? ∧
    (Code.values (code.getD [])).map Literal.asInt? =
      [some 30, none, some 2, some 30, none, some 9] ∧
    Code.print 0 (code.getD []) =
      "count(DISTINCT \"user\".\"id\") FILTER (WHERE \"user\".\"age\" = $1 " ++
        "OR \"user\".\"name\" = $2) > $3 AND " ++
      "count(DISTINCT \"user\".\"id\") FILTER (WHERE \"user\".\"age\" = $4 " ++
        "OR \"user\".\"name\" = $5) < $6" := by
  have hread : (aggregateCondition (.object [("count", idCounts)]) :
      Except Error (Condition Statement)).isOk := by decide +kernel
  have hshown : (written? (.object [("count", idCounts)])).map (fun code ↦
      ((Code.values (code.getD [])).map Literal.asInt?, Code.print 0 (code.getD []))) =
      some ([some 30, none, some 2, some 30, none, some 9],
        "count(DISTINCT \"user\".\"id\") FILTER (WHERE \"user\".\"age\" = $1 " ++
          "OR \"user\".\"name\" = $2) > $3 AND " ++
        "count(DISTINCT \"user\".\"id\") FILTER (WHERE \"user\".\"age\" = $4 " ++
          "OR \"user\".\"name\" = $5) < $6") := by decide +kernel
  cases hresult : (aggregateCondition (.object [("count", idCounts)]) :
      Except Error (Condition Statement)) with
  | error fault =>
    rw [hresult] at hread
    cases hread
  | ok result =>
    obtain ⟨functions, conditions, marks, hfunctions, rfl, -, hmarks, hwritten⟩ :=
      aggregateCondition_answers hresult
    cases hfunctions
    have htext : Qualifier.IsText (some (.name "user")) := by
      rintro piece ⟨⟩
      exact ⟨"user", .inl rfl⟩
    obtain ⟨code, hcode, hvalues⟩ := hwritten _ htext
    have hwhole : written? (.object [("count", idCounts)]) = some code := by
      rw [written?, hresult]
      exact congrArg Except.toOption hcode
    rw [hwhole, Option.map_some, Option.some.injEq, Prod.mk.injEq] at hshown
    rw [List.flatMap_singleton] at hmarks
    exact ⟨conditions, marks, code, rfl, hmarks, hwhole, hvalues, hshown⟩

/-- Under the name of a function that is none, no column is asked for and none is missed. -/
theorem aggregateCondition_unnamed :
    aggregateCondition (.object [("drop table", .object [])]) =
      (.ok (.every []) : Except Error (Condition Statement)) ∧
    isFunctionName "drop table" = false ∧ asked "drop table" (.object []) = [] :=
  ⟨rfl, by decide, rfl⟩

end Shorthand

end SqlComposer
