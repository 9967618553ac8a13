import SqlComposer.Proofs.Code.ColumnRefParsing
import SqlComposer.Proofs.Nested.AnsweredInsertions
import SqlComposer.Proofs.Statement.ReturningForms

/-!
# Columns as they are declared

A schema declares columns under any names, and in the text of a query each name stands in quotes.
The key of a row that others are inserted behind is asked for in this way. The row of a key and the
key of a row in front are asked for under the declared name as it is read, as if a caller had given
it. There a name is taken as it is declared just if it could be written without quotes; any other
name is refused or refers to another column.
-/

namespace SqlComposer

/-! ## Names in quotes -/

/-- A name in quotes ends where it is followed by anything but a quote. -/
theorem eq_of_quoteName_append {name other behind rest : String}
    (ends : '"' ∉ behind.toList.head?) (endsOther : '"' ∉ rest.toList.head?)
    (same : quoteName name ++ behind = quoteName other ++ rest) : name = other ∧ behind = rest := by
  have hread (name behind : String) (ends : '"' ∉ behind.toList.head?) :
      ∃ written, (quoteName name ++ behind).toList = '"' :: written ∧
        Ident.readQuoted written = some (name.toList, behind.toList) := by
    refine ⟨doubled '"' name.toList ++ '"' :: behind.toList, ?_,
      Ident.readQuoted_complete (Ident.standsFor_doubled name.toList) ends⟩
    simp [quoteName, enclosed]
  obtain ⟨written, hwritten, hname⟩ := hread name behind ends
  obtain ⟨_, hsame, hother⟩ := hread other rest endsOther
  rw [← same, hwritten, List.cons.injEq] at hsame
  rw [← hsame.2, hname, Option.some.injEq, Prod.mk.injEq] at hother
  exact hother.imp String.toList_inj.1 String.toList_inj.1

/-- The column of a declared name: the name of the table and its own, both in quotes. -/
def verbatim (owner column : String) : String := quoteName owner ++ "." ++ quoteName column

namespace Ident

/-- A name that can be written without quotes. -/
def Bare (name : String) : Prop :=
  ∃ c rest, name.toList = c :: rest ∧ OpensBareName c ∧ ∀ d ∈ rest, StaysInBareName d

theorem bare_iff (name : String) : Bare name ↔
    name.toList.head?.any startsBareName ∧ name.toList.all continuesBareName := by
  unfold Bare
  cases name.toList with
  | nil => simp
  | cons c rest =>
    simp only [List.cons.injEq, List.head?_cons, Option.any_some, List.all_cons, Bool.and_eq_true,
      List.all_eq_true, startsBareName_iff, continuesBareName_iff]
    constructor
    · rintro ⟨_, _, ⟨rfl, rfl⟩, hopens, hstays⟩
      exact ⟨hopens, .inl hopens, hstays⟩
    · rintro ⟨hopens, -, hstays⟩
      exact ⟨c, rest, ⟨rfl, rfl⟩, hopens, hstays⟩

instance (name : String) : Decidable (Bare name) := decidable_of_iff _ (bare_iff name).symm

theorem Bare.denoted {name : String} (bare : Bare name) :
    IdentPart.Denoted name.toList (.name name) := by
  obtain ⟨c, rest, hname, hopens, hstays⟩ := bare
  have hdenoted := IdentPart.Denoted.bare hopens hstays
  rwa [← hname, String.ofList_toList] at hdenoted

theorem Bare.parse {name : String} (bare : Bare name) :
    parse name = .ok ⟨[.name name]⟩ := by
  refine (parse_iff _ _).2 ⟨[name.toList], .cons bare.denoted .nil, List.cons_ne_nil _ _, ?_,
    by simp, fun hnul ↦ ?_⟩
  · simp [List.intercalate]
  · obtain ⟨c, rest, hname, hopens, hstays⟩ := bare
    rw [hname] at hnul
    have hstays : StaysInBareName '\x00' := by
      rcases List.mem_cons.1 hnul with rfl | hmem
      · exact .inl hopens
      · exact hstays _ hmem
    exact absurd ((continuesBareName_iff _).2 hstays) (by decide)

theorem length_le_of_standsFor {written name : List Char} (stands : StandsFor written name) :
    name.length ≤ written.length := by
  induction stands with
  | nil => exact Nat.le_refl 0
  | quote _ ih => simp only [List.length_cons]; omega
  | plain _ _ ih => exact Nat.succ_le_succ ih

/-- A name is no longer than the part that it was read from, and shorter if that has quotes. -/
theorem length_of_denoted {written : List Char} {name : String}
    (denoted : IdentPart.Denoted written (.name name)) :
    name.toList.length ≤ written.length ∧ (name.toList.length = written.length → Bare name) := by
  generalize hpart : IdentPart.name name = part at denoted
  cases denoted with
  | @bare c rest opens stays =>
    cases hpart
    rw [String.toList_ofList]
    exact ⟨Nat.le_refl _, fun _ ↦ ⟨c, rest, String.toList_ofList, opens, stays⟩⟩
  | quoted stands nonempty =>
    cases hpart
    have hlength := length_le_of_standsFor stands
    rw [String.toList_ofList]
    simp only [List.length_cons, List.length_append]
    exact ⟨by omega, fun h ↦ by omega⟩
  | star => cases hpart

end Ident

namespace ColumnRef

variable {name owner : String} {reference : ColumnRef}

/-- A name is read as a column of that name only if it is bare. -/
theorem bare_of_parse (read : parse name = .ok reference) (same : reference.name = name)
    (plain : name ≠ "*") : Ident.Bare name := by
  obtain ⟨ident, hident, hparts⟩ := parse_eq_ok.1 read
  obtain ⟨written, hwritten, -, hdotted, -, -⟩ := (Ident.parse_iff _ _).1 hident
  -- The part that the name comes from is as long as the whole text at most.
  have hlast {text : List Char} {part : IdentPart} (denoted : part.Denoted text)
      (hname : partName part = name) (inside : text.length ≤ name.toList.length) :
      Ident.Bare name ∧ text.length = name.toList.length := by
    cases part with
    | name other =>
      obtain rfl : other = name := hname
      obtain ⟨hle, hbare⟩ := Ident.length_of_denoted denoted
      have hlength := Nat.le_antisymm hle inside
      exact ⟨hbare hlength, hlength.symm⟩
    | star => exact absurd hname.symm plain
  rcases hparts with ⟨part, hparts, rfl⟩ | ⟨table, part, hparts, rfl⟩
  · rw [hparts] at hwritten
    obtain ⟨text, rest, hdenoted, hnil, rfl⟩ := List.forall₂_cons_right_iff.1 hwritten
    obtain rfl := List.forall₂_nil_right_iff.1 hnil
    rw [Ident.intercalate_dot] at hdotted
    exact (hlast hdenoted same (by simp [hdotted])).1
  · rw [hparts] at hwritten
    obtain ⟨_, _, _, hrest, rfl⟩ := List.forall₂_cons_right_iff.1 hwritten
    obtain ⟨text, _, hdenoted, hnil, rfl⟩ := List.forall₂_cons_right_iff.1 hrest
    obtain rfl := List.forall₂_nil_right_iff.1 hnil
    rw [Ident.intercalate_dot] at hdotted
    have hlength := congrArg List.length hdotted
    simp only [Ident.led, List.flatMap_cons, List.flatMap_nil, List.length_append,
      List.length_cons, List.length_nil] at hlength
    have := (hlast hdenoted same (by omega)).2
    omega

/-- The names that are read as the columns of those names are the bare ones. -/
theorem plainName_iff : PlainName name ↔ Ident.Bare name := by
  constructor
  · rintro ⟨read, plain⟩
    exact bare_of_parse read rfl plain
  · intro bare
    refine ⟨parse_eq_ok.2 ⟨_, bare.parse, .inl ⟨_, rfl, rfl⟩⟩, ?_⟩
    rintro rfl
    exact absurd bare (by decide)

/-- The text of a reference behind the name of a table. -/
def textOn (reference : ColumnRef) (owner : String) : String :=
  Code.print 0 (reference.code (some (.name owner)))

theorem textOn_eq (reference : ColumnRef) (owner : String) :
    reference.textOn owner = quoteName (reference.table.getD owner) ++
      ("." ++ if reference.isStar then "*" else quoteName reference.name) := by
  unfold textOn code
  cases reference.table <;> cases reference.isStar <;>
    simp [Code.print, Piece.print]

theorem textOn_unqualified (plain : name ≠ "*") :
    (unqualified name).textOn owner = verbatim owner name := by
  have hstar : (unqualified name).isStar = false := beq_eq_false_iff_ne.2 plain
  rw [textOn_eq, hstar, verbatim, String.append_assoc]
  rfl

theorem textOn_of_bare (bare : Ident.Bare name) (read : parse name = .ok reference) :
    reference.textOn owner = verbatim owner name := by
  obtain ⟨hread, plain⟩ := plainName_iff.2 bare
  obtain rfl := Except.ok.inj (read.symm.trans hread)
  exact textOn_unqualified plain

/-- What is read from a name has the text of the column of that name only if the name is bare. -/
theorem bare_of_textOn_append {behind rest : String} (read : parse name = .ok reference)
    (ends : '"' ∉ behind.toList.head?) (endsOther : '"' ∉ rest.toList.head?)
    (same : reference.textOn owner ++ behind = verbatim owner name ++ rest) : Ident.Bare name := by
  have hdot (text : String) : '"' ∉ ("." ++ text).toList.head? := by simp
  simp only [textOn_eq, verbatim, String.append_assoc] at same
  have hcolumn := (eq_of_quoteName_append (hdot _) (hdot _) same).2
  rw [String.append_right_inj] at hcolumn
  split at hcolumn
  · have hfirst := congrArg (·.toList.head?) hcolumn
    simp [quoteName, enclosed] at hfirst
  · rename_i hplain
    obtain ⟨hname, -⟩ := eq_of_quoteName_append ends endsOther hcolumn
    refine bare_of_parse read hname fun hstar ↦ hplain ?_
    rw [isStar, hname, hstar, beq_self_eq_true]

/-- A declared name is read as an identifier before a query is built with it. Building fails as
reading does. Otherwise the query has the text of what was read, and this is the declared column
just if its name is bare. -/
structure Rereads {α : Type} (name owner : String) (built : Except Error α)
    (has : α → String → Prop) : Prop where
  fails : ∀ error, parse name = .error error → built = .error error
  refers : ∀ reference, parse name = .ok reference →
    ∃ query, built = .ok query ∧ has query (reference.textOn owner)
  verbatim_iff : (∃ query, built = .ok query ∧ has query (verbatim owner name)) ↔ Ident.Bare name

/-- A column is reread like a text whose parse has the same references. -/
theorem Rereads.of_map {α : Type} {built : Except Error α} {has : α → String → Prop}
    {build : ColumnRef → α} (reads : built = (parse name).map build)
    (refers : ∀ reference, has (build reference) (reference.textOn owner))
    (bare : ∀ reference, parse name = .ok reference →
      has (build reference) (verbatim owner name) → Ident.Bare name) :
    Rereads name owner built has where
  fails error failed := by rw [reads, failed]; rfl
  refers reference read := ⟨_, by rw [reads, read]; rfl, refers reference⟩
  verbatim_iff := by
    constructor
    · rintro ⟨query, hbuilt, htext⟩
      obtain ⟨reference, hread, rfl⟩ := map_eq_ok.1 (reads.symm.trans hbuilt)
      exact bare reference hread htext
    · intro hbare
      have hread := (plainName_iff.2 hbare).1
      refine ⟨_, by rw [reads, hread]; rfl, ?_⟩
      rw [← textOn_of_bare hbare hread]
      exact refers _

end ColumnRef

/-! ## The row of a key -/

namespace Query

/-- The WHERE clause of a query compares a column with one value, and stands as it is in the text of
a selection. -/
def Compares (query : Query) (value : Literal) (column : String) : Prop :=
  ∃ code, (Statement.foldClauses Clauses.code query.clauses).filterCode = .ok code ∧
    Code.values code = [value] ∧
    (∀ bound, Code.print bound code = " WHERE " ++ column ++ " = $" ++ toString (bound + 1)) ∧
    ∀ sql, query.clauses.verb = .select → query.compile = .ok sql →
      ∃ front rest : Code, sql = (front ++ code ++ rest).compile

variable {query : Query} {table : Table} {owner : String}

/-- The restriction stands in the code of a selection, between what precedes and follows it. -/
theorem exists_around_where {clauses : Clauses Written} {code : Code}
    (select : clauses.verb = .select) (h : clauses.code = .ok code) :
    ∃ front filter rest : Code, clauses.filterCode = .ok filter ∧
      code = front ++ filter ++ rest := by
  obtain ⟨declarations, change, -, hchange, rfl⟩ := Clauses.code_eq_ok h
  simp only [Clauses.verbCode, select, Clauses.selectCode, bind_eq_ok, pure_eq_ok] at hchange
  obtain ⟨projection, -, source, -, joins, -, filter, hfilter, groups, -, having, -, windows, -,
    combinations, -, order, -, lock, -, rfl⟩ := hchange
  refine ⟨declarations ++ (.word "SELECT " :: clauses.distinctCode ++ projection ++ source ++
    Clauses.spaced joins), filter, groups ++ having ++ windows ++ Clauses.spaced combinations ++
    order ++ Clauses.numberCode " LIMIT " clauses.writtenLimit ++
    Clauses.numberCode " OFFSET " clauses.offset ++ lock, hfilter, ?_⟩
  simp only [List.append_assoc]

/-- A query whose only condition is that a column has a value compares them. -/
theorem compares_of_filter (named : query.clauses.aliasName = some owner) {reference : ColumnRef}
    {key : Literal} (known : key ≠ .null)
    (only : query.clauses.filter = ⟨[[.compare reference .equals (.term (.literal key))]]⟩) :
    query.Compares key (reference.textOn owner) := by
  have hnull : (Term.literal key).isNull = false := by
    cases key <;> first | rfl | exact absurd rfl known
  have hatom : comparisonCode (reference.code (some (.name owner))) .equals (.term (.literal key))
      (some (.name owner)) = .ok (reference.code (some (.name owner)) ++
        ([.word " ", .word "=", .word " ", .bind key] : Code)) := by
    simp [comparisonCode, hnull, Term.code, Comparison.isPattern, Comparison.operator]
  have hcode : (Statement.foldClauses Clauses.code query.clauses).filterCode = .ok
      (.word " WHERE " :: (reference.code (some (.name owner)) ++
        ([.word " ", .word "=", .word " ", .bind key] : Code))) := by
    rw [Clauses.filterCode, Statement.filter_fold, only, Statement.qualifier_fold, named]
    simp [Statement.foldFilter, Statement.foldGroups, Statement.foldConditions,
      Statement.foldCondition, Statement.foldComparand, Filter.code?, Filter.condition,
      Condition.code?, Condition.formula, Condition.formulas, hatom, Formula.code?,
      Formula.layout, Formula.layouts, Layout.joined]
    rfl
  have hvalues : Code.values (reference.code (some (.name owner))) = [] :=
    Code.values_column reference (some owner)
  refine ⟨_, hcode, ?_, fun bound ↦ ?_, fun sql select written ↦ ?_⟩
  · simp [Code.values, Piece.values, Code.values_append, hvalues]
  · have hprint : Code.print bound (reference.code (some (.name owner))) = reference.textOn owner :=
      Code.print_column bound reference (some owner)
    have hsign : " = $" = " " ++ ("=" ++ (" " ++ "$")) := rfl
    simp only [Code.print, Piece.print, Piece.values, Code.print_append, hprint, hvalues, hsign,
      List.length_nil, Nat.add_zero, String.append_assoc, String.append_empty]
  · obtain ⟨code, hwritten, rfl⟩ := map_eq_ok.1 written
    have hselect : (Statement.foldClauses Clauses.code query.clauses).verb = .select := by
      rw [Statement.verb_fold, select]
      rfl
    obtain ⟨front, filter, rest, hfilter, rfl⟩ := exists_around_where hselect hwritten
    obtain rfl := Except.ok.inj (hcode.symm.trans hfilter)
    exact ⟨front, rest, rfl⟩

/-- The row of a key is asked for under the name of the column as it is read. -/
theorem rereads_filterKey (target : query.clauses.table = some table)
    (named : query.clauses.aliasName = some owner) (unset : query.clauses.filter = .unset)
    {column : String} (single : table.primaryKeys = [column]) {key : Literal} (known : key ≠ .null)
    (shape : Shape) :
    ColumnRef.Rereads column owner ((query.filterKey (.literal key)).map (shaped · shape))
      fun found ↦ found.Compares key := by
  have hreads : (query.filterKey (.literal key)).map (shaped · shape) =
      (ColumnRef.parse column).map fun reference ↦
        (query.filter (.compare reference .equals (.term (.literal key)))).shaped shape := by
    unfold filterKey
    rw [Clauses.requireTable_eq_ok.2 target]
    dsimp only [bind, Except.bind]
    rw [single]
    simp only [Condition.ofTerm, Condition.ofColumn, Comparison.accepts]
    cases ColumnRef.parse column <;> rfl
  have hcompares (reference : ColumnRef) :
      ((query.filter (.compare reference .equals (.term (.literal key)))).shaped shape).Compares key
        (reference.textOn owner) := by
    refine compares_of_filter ?_ known ?_
    · exact named
    · show query.clauses.filter.and _ = _
      rw [unset]
      rfl
  refine .of_map hreads hcompares fun reference read compares ↦ ?_
  obtain ⟨code, hcode, -, hprint, -⟩ := compares
  obtain ⟨_, hown, -, hreference, -⟩ := hcompares reference
  obtain rfl := Except.ok.inj (hcode.symm.trans hown)
  have hsame := (hreference 0).symm.trans (hprint 0)
  simp only [String.append_left_inj, String.append_right_inj] at hsame
  have hempty : '"' ∉ "".toList.head? := by simp
  exact ColumnRef.bare_of_textOn_append read hempty hempty (by rw [hsame])

/-! ## Columns that are handed back -/

/-- The RETURNING clause of an insertion is of a form, and ends the text whatever fills the
cells. -/
def Returns (query : Query) (form : String → Prop) : Prop :=
  ∃ code, (Statement.foldClauses Clauses.code query.clauses).returningCode = .ok code ∧
    (∀ bound, form (Code.print bound code)) ∧
    ∀ sent sql, query.Filled sent → sent.compile = .ok sql →
      ∃ front : Code, sql = (front ++ code).compile

/-- A RETURNING clause lists a column in front of others. -/
def OpensWith (column clause : String) : Prop :=
  ∃ others, clause = " RETURNING " ++ ", ".intercalate (column :: others)

/-- A RETURNING clause lists a column, or is about all of them. -/
def Covers (column clause : String) : Prop :=
  clause = " RETURNING *" ∨ ∃ items, clause = " RETURNING " ++ ", ".intercalate items ∧
    column ∈ items

/-- Filled cells do not change what is handed back. -/
theorem returningCode_of_filled {sent : Query}
    (inserts : ∃ insertion, query.clauses.verb = .insert insertion) (filled : query.Filled sent) :
    (Statement.foldClauses Clauses.code sent.clauses).returningCode =
      (Statement.foldClauses Clauses.code query.clauses).returningCode := by
  obtain ⟨insertion, hverb⟩ := inserts
  obtain ⟨inserted, hsent⟩ := filled.verb ⟨insertion, hverb⟩
  have hclauses := filled.clauses
  rw [hsent] at hclauses
  simp only [Clauses.returningCode, Clauses.returnsAll, Statement.selection_fold,
    Statement.selectsAll_fold, Statement.verb_fold, Statement.shape_fold, Statement.readBack_fold,
    Statement.qualifier_fold, hclauses, hverb, Statement.foldVerb]
  rfl

/-- What the RETURNING list is written as is what the query returns. -/
theorem returns_of_code (inserts : ∃ insertion, query.clauses.verb = .insert insertion)
    {code : Code} {form : String → Prop}
    (written : (Statement.foldClauses Clauses.code query.clauses).returningCode = .ok code)
    (h : ∀ bound, form (Code.print bound code)) : query.Returns form := by
  refine ⟨code, written, h, fun sent sql filled compiled ↦ ?_⟩
  obtain ⟨inserted, hsent⟩ := filled.verb inserts
  have hmutation : (Statement.foldClauses Clauses.code sent.clauses).verb.isMutation := by
    rw [Statement.verb_fold, hsent]
    rfl
  obtain ⟨whole, hwhole, rfl⟩ := map_eq_ok.1 compiled
  obtain ⟨declarations, _, -, hchange, rfl⟩ := Clauses.code_eq_ok hwhole
  obtain ⟨change, _, -, hreturning, rfl⟩ := Clauses.verbCode_eq_ok hmutation hchange
  rw [returningCode_of_filled inserts filled] at hreturning
  obtain rfl := Except.ok.inj (written.symm.trans hreturning)
  exact ⟨declarations ++ change, by rw [List.append_assoc]⟩

/-- Items with commas between them begin with the first, and no quote follows it. -/
theorem exists_intercalate_cons (first : String) (rest : List String) :
    ∃ behind, '"' ∉ behind.toList.head? ∧ ", ".intercalate (first :: rest) = first ++ behind := by
  cases rest with
  | nil => exact ⟨"", by simp, by simp⟩
  | cons second rest =>
    exact ⟨", " ++ ", ".intercalate (second :: rest), by simp,
      by rw [String.intercalate_cons_of_ne_nil (List.cons_ne_nil _ _), String.append_assoc]⟩

variable {relation : Relation} {data : Payload} {target : Table} {plan : RowPlan}

/-- The key of a row in front is asked for under the name of the column as it is read. -/
theorem rereads_insertionBefore
    (registered : Catalog.lookUp query.catalog relation.table = some target)
    (planned : RowPlan.ofPayloads target query.catalog.isSome [data.onto .empty] = .ok plan) :
    ColumnRef.Rereads relation.primaryKey target.name (query.insertionBefore relation data)
      fun insertion column ↦ insertion.Returns (OpensWith column) := by
  let build (reference : ColumnRef) : Query :=
    (((query.on target).planned plan false).selectItems [.ofColumn reference]).take
  have hreads : query.insertionBefore relation data =
      (ColumnRef.parse relation.primaryKey).map build := by
    cases hparse : ColumnRef.parse relation.primaryKey with
    | ok reference =>
      exact insertionBefore_eq_ok.2 ⟨target, plan, reference, registered, planned, hparse, rfl⟩
    | error error =>
      have hsibling := sibling_eq_ok.2 ⟨target, registered, rfl⟩
      have hinsert : (query.on target).insert data = .ok ((query.on target).planned plan false) :=
        insertRows_eq_ok.2 ⟨target, plan, rfl, planned, by simp, rfl, rfl⟩
      simp only [insertionBefore, hsibling, bind, Except.bind, hinsert, select, List.mapM_cons,
        hparse]
      rfl
  -- The selection is the reference alone, so the clause opens with its text.
  have hopens (reference : ColumnRef) : ∃ code,
      (Statement.foldClauses Clauses.code (build reference).clauses).returningCode = .ok code ∧
      ∀ bound, ∃ missing, Code.print bound code =
        " RETURNING " ++ ", ".intercalate (reference.textOn target.name :: missing) := by
    let clauses := Statement.foldClauses Clauses.code (build reference).clauses
    have hselection : clauses.selection = [.ofColumn reference] := Statement.selection_fold _ _
    have hqualifier : clauses.qualifier = some (.name target.name) := Statement.qualifier_fold _ _
    have hcode : clauses.returningCode = .ok [.word " RETURNING ", .itemsThenMissing
        [reference.code (some (.name target.name))] (clauses.readBack.map fun column ↦
          (ColumnRef.unqualified column).code clauses.qualifier)] := by
      have hitems : SelectItem.codes (some (.name target.name)) [.ofColumn reference] =
          .ok [reference.code (some (.name target.name))] := by
        refine mapM_eq_ok_cons.2 ⟨_, [], ?_, rfl, rfl⟩
        simp [SelectItem.code, SelectItem.ofColumn, SelectItem.writtenName?,
          SelectItem.expressionCode, bind, Except.bind, pure, Except.pure]
      rw [Clauses.returningCode, Clauses.returnsAll, hselection, hqualifier, hitems]
      rfl
    have htexts (bound : Nat) : Code.itemTexts bound [reference.code (some (.name target.name))] =
        [reference.textOn target.name] :=
      Code.itemTexts_columns bound [reference] (some target.name)
    refine ⟨_, hcode, fun bound ↦ ?_⟩
    obtain ⟨missing, hprint, -, -⟩ := Clauses.exists_print_listed clauses
      [reference.code (some (.name target.name))] bound
    rw [htexts] at hprint
    exact ⟨missing, hprint⟩
  refine .of_map hreads (fun reference ↦ ?_) fun reference read returns ↦ ?_
  · obtain ⟨code, hcode, hprint⟩ := hopens reference
    exact returns_of_code ⟨_, rfl⟩ hcode hprint
  · obtain ⟨code, hcode, hverbatim, -⟩ := returns
    obtain ⟨_, hown, hprint⟩ := hopens reference
    obtain rfl := Except.ok.inj (hcode.symm.trans hown)
    obtain ⟨others, hothers⟩ := hverbatim 0
    obtain ⟨missing, hmissing⟩ := hprint 0
    have hsame := (String.append_right_inj _).1 (hmissing.symm.trans hothers)
    obtain ⟨behind, hends, hfirst⟩ := exists_intercalate_cons (reference.textOn target.name) missing
    obtain ⟨rest, hendsOther, hsecond⟩ :=
      exists_intercalate_cons (verbatim target.name relation.primaryKey) others
    rw [hfirst, hsecond] at hsame
    exact ColumnRef.bare_of_textOn_append read hends hendsOther hsame

/-- The key of a row that others are inserted behind is asked for as it is declared. -/
theorem Plans.covers {payloads : List Payload} (h : query.Plans table payloads plan)
    (named : query.clauses.aliasName = some owner) {row : Nat} {rows : List Payload}
    (asked : .after row relation rows ∈ query.clauses.related) (plain : relation.primaryKey ≠ "*")
    (written : ∃ code,
      (Statement.foldClauses Clauses.code query.clauses).returningCode = .ok code) :
    query.Returns (Covers (verbatim owner relation.primaryKey)) := by
  obtain ⟨code, hcode⟩ := written
  obtain ⟨conflict, hverb⟩ := h.verb
  have hread : relation.primaryKey ∈ query.clauses.readBack := by
    rw [h.readBack]
    exact RowPlan.mem_readBack (h.related ▸ asked)
  have htext : verbatim owner relation.primaryKey ∈ query.clauses.readBackTexts := by
    rw [← ColumnRef.textOn_unqualified plain]
    refine List.mem_map.2 ⟨_, hread, ?_⟩
    rw [Clauses.qualifier, named]
    rfl
  have hmutation : (Statement.foldClauses Clauses.code query.clauses).verb.isMutation := by
    rw [Statement.verb_fold, hverb]
    rfl
  obtain ⟨items, -, hreturning⟩ := Clauses.exists_returning hmutation hcode
  refine returns_of_code ⟨_, hverb⟩ hcode fun bound ↦ ?_
  have hlists := hreturning bound
  rw [Clauses.readBackTexts_fold] at hlists
  generalize Code.print bound code = clause at hlists
  cases hlists with
  | none _ unread => exact absurd (unread ▸ htext) List.not_mem_nil
  | all => exact .inl rfl
  | @listed missing _ _ missed =>
    refine .inr ⟨_, rfl, List.mem_append.2 ?_⟩
    by_cases hitem : verbatim owner relation.primaryKey ∈ Code.itemTexts bound items
    · exact .inl hitem
    · exact .inr ((missed _).2 ⟨htext, hitem⟩)

/-! ## Keys in runs -/

section

variable {σ : Type} (surroundings : Script.Surroundings σ)

/-- A row in front was inserted, and the cell of the foreign key holds the key that it handed back.
-/
def KeyFilled (query sent : Query) (row : Nat) (relation : Relation) (data : Payload) : Prop :=
  ∃ insertion inner result key memory ended,
    query.insertionBefore relation data = .ok insertion ∧ insertion.Filled inner ∧
    inner.Answered surroundings memory result ended ∧ result.key? 0 relation = some key ∧
    sent.cell? row relation.foreignKey = some (.value (.literal key))

/-- Rows behind a row were inserted with its key under their foreign key, unless they ask for a row
of their own under it or their table does not take it. -/
def KeyPassed (query : Query) (result : RowSet) (row : Nat) (relation : Relation)
    (rows : List Payload) : Prop :=
  ∃ key insertion target, result.key? row relation = some key ∧
    query.insertionAfter relation rows key = .ok insertion ∧
    Catalog.lookUp query.catalog relation.table = some target ∧
    ∀ index < rows.length, target.takesKey relation.foreignKey →
      (∀ request ∈ target.requests
          (rows.map fun row ↦ (row.set relation.foreignKey (.literal key)).onto .empty),
        request.precedes → request.row = index →
          request.relation.foreignKey ≠ relation.foreignKey) →
      insertion.cell? index relation.foreignKey =
        some (.value (.literal (target.encode relation.foreignKey key)))

variable {surroundings}

/-- By induction on the rows in front: the first is inserted and fills its cell, and what fills the
cells of the others leaves it as it is. -/
theorem CompletesBefore.keyFilled {filled final : Query} {related : List RelatedInsert}
    {height : Nat} {memory ended : σ}
    (h : CompletesBefore surroundings query filled related memory final ended)
    (fits : ∀ insert ∈ related, insert.Fits filled.insertedColumns height)
    (rectangular : filled.Rectangular height) (apart : Write.Apart (requestsBefore related))
    {row column : Nat} (asked : .before row column relation data ∈ related) :
    query.KeyFilled surroundings final row relation data := by
  induction related generalizing filled memory with
  | nil => cases asked
  | cons insert rest ih =>
    rw [List.forall_mem_cons] at fits
    cases h with
    | after others =>
      rw [requestsBefore_after fits.1.1] at apart
      rcases List.mem_cons.1 asked with heq | hrest
      · cases heq
      · exact ih others fits.2 rectangular apart hrest
    | @before _ _ _ insertion firstRow firstColumn first _ _ outcome key _ inserted _ built
        completes handed others =>
      obtain ⟨⟨hkind, hinside, hmem, hcolumn⟩, hfits⟩ := fits
      rw [requestsBefore_before hkind] at apart
      obtain ⟨hfirst, hothers⟩ := List.pairwise_cons.1 apart
      have hlater : ∀ insert ∈ rest,
          insert.Fits (filled.fillCell firstRow firstColumn key).insertedColumns height := by
        simpa using hfits
      rcases List.mem_cons.1 asked with heq | hrest
      · cases heq
        obtain ⟨_, _, _, _, halone, _⟩ := plans_insertionBefore built
        cases completes with
        | creating _ _ replaced => cases halone.symm.trans replaced
        | @matching _ inner result _ _ _ _ before answer =>
          have hinner : insertion.Filled inner := filled_of_completesBefore before .refl
          rw [outputOf_insertionBefore built hinner, returnedKey_one_eq_ok,
            List.head?_eq_getElem?] at handed
          refine ⟨insertion, inner, result, key, _, _, built, hinner, answer, handed, ?_⟩
          rw [cell?_of_completesBefore others hlater, hcolumn,
            cell?_fillCell_self rectangular hinside hmem]
          intro other hother hprecedes hrow
          exact (hfirst other.request
            (List.mem_filter.2 ⟨List.mem_map_of_mem hother, hprecedes⟩) hrow.symm).symm
      · exact ih others hlater rectangular.fillCell hothers hrest

/-- Rows behind a row are inserted with its key. -/
theorem CompletesAfter.keyPassed {result : RowSet} {related : List RelatedInsert} {memory ended : σ}
    (h : CompletesAfter surroundings query result related memory ended) {row : Nat}
    {rows : List Payload} (asked : .after row relation rows ∈ related) :
    query.KeyPassed result row relation rows := by
  induction related generalizing memory with
  | nil => cases asked
  | cons insert rest ih =>
    cases h with
    | before others =>
      rcases List.mem_cons.1 asked with heq | hrest
      · cases heq
      · exact ih others hrest
    | after found built completes others =>
      rcases List.mem_cons.1 asked with heq | hrest
      · cases heq
        obtain ⟨target, plan, htarget, hplans, -, -⟩ := plans_insertionAfter built
        exact ⟨_, _, target, parentKey_eq_ok.1 found, built, htarget,
          fun index inside taken own ↦ hplans.cell?_set inside taken own⟩
      · exact ih others hrest

end

/-- What a query on a table says of the columns that a schema declares, and what runs of it do with
their values. -/
structure TakesColumns (query : Query) (table : Table) (owner : String) : Prop where
  /-- The row of a key is asked for under the declared name as it is read. -/
  found : ∀ column key, table.primaryKeys = [column] → query.clauses.filter = .unset →
    key ≠ .null →
    ColumnRef.Rereads column owner (query.find (.literal key)) (fun found ↦ found.Compares key) ∧
    ColumnRef.Rereads column owner (query.findOptional (.literal key))
      fun found ↦ found.Compares key
  /-- So is the key of a row in front. -/
  front : ∀ relation data target plan,
    Catalog.lookUp query.catalog relation.table = some target →
    RowPlan.ofPayloads target query.catalog.isSome [data.onto .empty] = .ok plan →
    ColumnRef.Rereads relation.primaryKey target.name (query.insertionBefore relation data)
      fun insertion column ↦ insertion.Returns (OpensWith column)
  /-- What comes back is looked up under the declared name itself. -/
  handed : ∀ relation data insertion sent result key,
    query.insertionBefore relation data = .ok insertion → insertion.Filled sent →
    (returnedKey relation (sent.outputOf result) = .ok key ↔ result.key? 0 relation = some key)
  /-- The key of a row that others are inserted behind is asked for as it is declared. -/
  behind : ∀ payloads plan row relation rows, query.Plans table payloads plan →
    .after row relation rows ∈ query.clauses.related → relation.primaryKey ≠ "*" →
    (∃ code, (Statement.foldClauses Clauses.code query.clauses).returningCode = .ok code) →
    query.Returns (Covers (verbatim owner relation.primaryKey))
  /-- Where a run succeeds, the keys that came back stand under the foreign keys. -/
  runs : ∀ payloads plan, query.Plans table payloads plan →
    Write.Apart (requestsBefore query.clauses.related) →
    ∀ {σ : Type} (surroundings : Script.Surroundings σ) (memory ended : σ) (outcome : Outcome),
      query.runStatements.Yields surroundings memory outcome ended → outcome.created = none →
      ∃ sent result sentAt answeredAt, query.Filled sent ∧
        sent.Answered surroundings sentAt result answeredAt ∧
        outcome.output = sent.outputOf result ∧
        (∀ row column relation data, .before row column relation data ∈ query.clauses.related →
          query.KeyFilled surroundings sent row relation data) ∧
        ∀ row relation rows, .after row relation rows ∈ query.clauses.related →
          query.KeyPassed result row relation rows

/-- Every query takes the columns that a schema declares in this way. In particular, the row of a
key and the key of a row in front are asked for in the column that was declared just if its name is
bare. -/
theorem takesColumns (target : query.clauses.table = some table)
    (named : query.clauses.aliasName = some owner) : query.TakesColumns table owner where
  found column key single unset known :=
    ⟨rereads_filterKey target named unset single known .oneOrThrow,
      rereads_filterKey target named unset single known .one⟩
  front relation data other plan registered planned := rereads_insertionBefore registered planned
  handed relation data insertion sent result key built filled := by
    rw [outputOf_insertionBefore built filled, returnedKey_one_eq_ok, List.head?_eq_getElem?]
    rfl
  behind payloads plan row relation rows plans asked plain written :=
    plans.covers named asked plain written
  runs payloads plan plans apart σ surroundings memory ended outcome hyields own := by
    cases (yields_runStatements query).1 hyields with
    | creating _ _ _ _ _ _ => cases own
    | matching before answer _ _ after =>
      exact ⟨_, _, _, _, filled_of_completesBefore before .refl, answer, rfl,
        fun _ _ _ _ asked ↦ before.keyFilled plans.fits plans.rectangular apart asked,
        fun _ _ _ asked ↦ after.keyPassed asked⟩

end Query

namespace Blog

def invoice : Table :=
  { Table.named "invoice" with
    columns := [{ Column.plain "number" .integer with primaryKey := true }] }

/-- The number of an order has a blank in its name. -/
def order : Table :=
  { Table.named "order" with
    columns := [{ Column.plain "order number" .integer with primaryKey := true }] }

/-- An invoice is found by its number, the user of a post in front of the post hands back the key,
and in a run it stands in the post, whose key stands in the comment. -/
theorem takesColumns_article :
    (∃ found, (Query.ofTable invoice).find (.literal (.int 1)) = .ok found ∧
      found.Compares (.int 1) (verbatim "invoice" "number")) ∧
    (∃ insertion, (posts.planned plan false).insertionBefore author (text "name" "Ada") =
      .ok insertion ∧ insertion.Returns (Query.OpensWith (verbatim "user" "id"))) ∧
    ∃ outcome ended sent result,
      (posts.planned plan false).runStatements.Yields clerk 1 outcome ended ∧
      (posts.planned plan false).KeyFilled clerk sent 0 author (text "name" "Ada") ∧
      (posts.planned plan false).KeyPassed result 0 comments [text "body" "Deep"] := by
  have hplans : (posts.planned plan false).Plans post [article] plan :=
    Query.plans_planned false rfl rfl
  have hposts := Query.takesColumns hplans.target (rfl : _ = some "post")
  refine ⟨?_, ?_, ?_⟩
  · have htarget : (Query.ofTable invoice).clauses.table = some invoice := rfl
    have hinvoices := Query.takesColumns htarget (rfl : _ = some "invoice")
    exact (hinvoices.found "number" (.int 1) rfl rfl nofun).1.verbatim_iff.2 (by decide)
  · exact (hposts.front author (text "name" "Ada") user _ rfl rfl).verbatim_iff.2 (by decide)
  · have hready : (posts.planned plan false).Ready post [article] plan :=
      ⟨hplans, fun row hrow ↦ List.mem_singleton.1 hrow ▸ wellFormed_article,
        List.cons_ne_nil _ _, fun _ ↦ rfl, Query.writable_of_plans hplans
          (fun row hrow ↦ List.mem_singleton.1 hrow ▸ wellFormed_article.plain) nofun
          (Query.framed_of_plain rfl rfl rfl (List.forall_mem_nil _))⟩
    obtain ⟨filled, _, ended, hcompletes, -⟩ :=
      Query.exists_completes hready obliging_clerk.answers 1
    have hyields := (Query.yields_runStatements _).2 hcompletes
    have hapart : Write.Apart
        (Query.requestsBefore (posts.planned plan false).clauses.related) :=
      List.pairwise_singleton _ _
    obtain ⟨sent, result, _, _, -, -, -, hbefore, hafter⟩ :=
      hposts.runs _ _ hplans hapart clerk 1 ended _ hyields rfl
    exact ⟨_, ended, sent, result, hyields, hbefore 0 1 author _ List.mem_cons_self,
      hafter 0 comments _ (List.mem_cons_of_mem _ List.mem_cons_self)⟩

/-- An order is not found by its number, the one column of its primary key. -/
theorem find_order : order.primaryKeys = ["order number"] ∧ "order number" ≠ "" ∧
    '\x00' ∉ "order number".toList ∧ Literal.int 1 ≠ .null ∧
    ¬∃ found, (Query.ofTable order).find (.literal (.int 1)) = .ok found := by
  have hparse : ColumnRef.parse "order number" =
      .error (.invalidCharacter "order number" ' ') := by decide +kernel
  have hfind := (Query.rereads_filterKey (rfl : (Query.ofTable order).clauses.table = some order)
    (rfl : _ = some "order") rfl (rfl : order.primaryKeys = ["order number"])
    (nofun : Literal.int 1 ≠ .null) .oneOrThrow).fails _ hparse
  refine ⟨rfl, by decide, by decide, nofun, fun ⟨found, hfound⟩ ↦ ?_⟩
  exact nomatch hfind.symm.trans hfound

end Blog
end SqlComposer
