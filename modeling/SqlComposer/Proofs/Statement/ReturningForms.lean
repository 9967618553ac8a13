import SqlComposer.Proofs.Execution.FailedScopes
import SqlComposer.Proofs.Insertion.PendingCells
import SqlComposer.Proofs.Statement.ReturnedList

/-!
# RETURNING and the form of the output

Whether a change hands back rows is decided three times: when its text is written, from the clauses
and the columns that related rows refer to; when its result is read, from the clauses alone; and by
its shape, which may drop rows that came back. The three agree. A RETURNING clause is written
exactly if the change hands back rows or related rows refer to its columns, and the output has the
form of the shape exactly if the change hands back rows, whatever clause was written for related
rows.
-/

namespace SqlComposer

/-! ## The text of the clause -/

namespace Clauses

/-- A change, written, without what it hands back. -/
def changeCode (clauses : Clauses Written) : Written :=
  match clauses.verb with
  | .insert insertion => do
    let target := clauses.targetCode (← clauses.requireTable "insert")
    insertion.code target clauses.filter clauses.qualifier
  | .update assignments => do
    clauses.updateCode (← clauses.requireTable "update") assignments
  | .delete => do clauses.deleteCode (← clauses.requireTable "delete")
  | _ => clauses.verbCode

/-- The RETURNING clause of a change, from the texts of its items and of the columns that related
rows refer to. -/
inductive Returning {Sub : Type} (clauses : Clauses Sub) (items columns : List String) :
    String → Prop
  /-- Neither rows nor columns are handed back. -/
  | none (silent : clauses.returnsRecords = false) (unread : columns = []) :
      Returning clauses items columns ""
  /-- Nothing is selected, and all columns are handed back. -/
  | all (unselected : clauses.selection = []) (records : clauses.returnsRecords) :
      Returning clauses items columns " RETURNING *"
  /-- The items stand in order, and behind them the columns that do not stand among them, once. -/
  | listed {missing : List String}
      (selected : clauses.selection ≠ [] ∨ clauses.returnsRecords = false ∧ columns ≠ [])
      (once : missing.Nodup)
      (missed : ∀ column, column ∈ missing ↔ column ∈ columns ∧ column ∉ items) :
      Returning clauses items columns (" RETURNING " ++ ", ".intercalate (items ++ missing))

/-- A RETURNING clause is written iff records or columns are handed back. -/
theorem Returning.ne_empty_iff {Sub : Type} {clauses : Clauses Sub} {items columns : List String}
    {clause : String} (mutation : clauses.verb.isMutation)
    (h : clauses.Returning items columns clause) :
    clause ≠ "" ↔ clauses.returnsRecords ∨ columns ≠ [] := by
  cases h with
  | none silent unread => simp [silent, unread]
  | all unselected records => simp [records]
  | @listed missing selected =>
    have hwritten : " RETURNING " ++ ", ".intercalate (items ++ missing) ≠ "" := by
      intro hempty
      have hlength := congrArg String.length hempty
      simp at hlength
    have hrecords : clauses.selection ≠ [] → clauses.returnsRecords := by
      intro hselection
      unfold returnsRecords
      cases hverb : clauses.verb <;> simp_all [Verb.isMutation]
    exact ⟨fun _ ↦ selected.imp hrecords And.right, fun _ ↦ hwritten⟩

/-- A change is written with what it hands back behind it. -/
theorem verbCode_eq_ok {clauses : Clauses Written} {code : Code}
    (mutation : clauses.verb.isMutation) (h : clauses.verbCode = .ok code) :
    ∃ change returning, clauses.changeCode = .ok change ∧ clauses.returningCode = .ok returning ∧
      code = change ++ returning := by
  unfold changeCode
  cases hverb : clauses.verb with
  | insert insertion =>
    obtain ⟨table, change, returning, htable, hchange, hreturning, rfl⟩ := insert_eq_ok hverb h
    exact ⟨change, returning, bind_eq_ok.2 ⟨table, requireTable_eq_ok.2 htable, hchange⟩,
      hreturning, rfl⟩
  | update assignments =>
    obtain ⟨table, change, returning, htable, hchange, hreturning, rfl⟩ := update_eq_ok hverb h
    exact ⟨change, returning, bind_eq_ok.2 ⟨table, requireTable_eq_ok.2 htable, hchange⟩,
      hreturning, rfl⟩
  | delete =>
    obtain ⟨table, change, returning, htable, hchange, hreturning, rfl⟩ := delete_eq_ok hverb h
    exact ⟨change, returning, bind_eq_ok.2 ⟨table, requireTable_eq_ok.2 htable, hchange⟩,
      hreturning, rfl⟩
  | _ => simp [hverb, Verb.isMutation] at mutation

theorem returnsAll_eq (clauses : Clauses Written) (mutation : clauses.verb.isMutation) :
    clauses.returnsAll = (clauses.selection.isEmpty && clauses.returnsRecords) := by
  unfold returnsAll returnsRecords
  cases hverb : clauses.verb <;> simp_all [Verb.isMutation] <;>
    cases clauses.selection.isEmpty <;> simp

/-- The texts of the columns that related rows refer to. -/
def readBackTexts {Sub : Type} (clauses : Clauses Sub) : List String :=
  clauses.readBack.map fun column ↦
    Code.print 0 ((ColumnRef.unqualified column).code clauses.qualifier)

/-- Behind the items, the columns are printed that do not stand among them. -/
theorem exists_print_listed (clauses : Clauses Written) (items : List Code) (bound : Nat) :
    ∃ missing, Code.print bound [.word " RETURNING ", .itemsThenMissing items
        (clauses.readBack.map fun column ↦
          (ColumnRef.unqualified column).code clauses.qualifier)] =
        " RETURNING " ++ ", ".intercalate (Code.itemTexts bound items ++ missing) ∧
      missing.Nodup ∧ ∀ column, column ∈ missing ↔
        column ∈ clauses.readBackTexts ∧ column ∉ Code.itemTexts bound items := by
  have hcolumns : Code.itemTexts bound (clauses.readBack.map fun column ↦
      (ColumnRef.unqualified column).code clauses.qualifier) = clauses.readBackTexts := by
    have htexts := Code.itemTexts_columns bound (clauses.readBack.map .unqualified)
      clauses.aliasName
    rwa [List.map_map, List.map_map] at htexts
  refine ⟨(clauses.readBackTexts.filter (· ∉ Code.itemTexts bound items)).eraseDups, ?_,
    nodup_eraseDups _, fun column ↦ ?_⟩
  · rw [← Code.withMissing_eq]
    simp only [Code.print, Piece.print, Piece.values, List.length_nil, Nat.add_zero, hcolumns,
      String.append_empty]
  · rw [List.mem_eraseDups, List.mem_filter, decide_eq_true_iff]

/-- The RETURNING clause is printed from the texts of the items and of the columns behind them. -/
theorem exists_returning {clauses : Clauses Written} {returning : Code}
    (mutation : clauses.verb.isMutation) (h : clauses.returningCode = .ok returning) :
    ∃ items, SelectItem.codes clauses.qualifier clauses.selection = .ok items ∧
      ∀ bound, clauses.Returning (Code.itemTexts bound items) clauses.readBackTexts
        (Code.print bound returning) := by
  unfold returningCode at h
  rw [returnsAll_eq clauses mutation] at h
  split at h <;> rename_i hall
  · rw [Bool.and_eq_true, List.isEmpty_iff] at hall
    obtain ⟨hunselected, hrecords⟩ := hall
    cases h
    refine ⟨[], by rw [hunselected]; rfl, fun bound ↦ ?_⟩
    exact .all hunselected hrecords
  · obtain ⟨items, hitems, h⟩ := bind_eq_ok.1 h
    refine ⟨items, hitems, fun bound ↦ ?_⟩
    have hunselected : items = [] ↔ clauses.selection = [] := by
      have hlength := (forall₂_of_mapM hitems).length_eq
      rw [← List.length_eq_zero_iff, ← List.length_eq_zero_iff, hlength]
    have hsilent (hselection : clauses.selection = []) : clauses.returnsRecords = false := by
      simpa [hselection] using hall
    have hunread : clauses.readBackTexts = [] ↔ clauses.readBack = [] := List.map_eq_nil_iff
    dsimp only at h
    split at h <;> rename_i hnone
    · simp only [Bool.and_eq_true, List.isEmpty_iff, List.map_eq_nil_iff] at hnone
      cases h
      exact .none (hsilent (hunselected.1 hnone.1)) (hunread.2 hnone.2)
    · cases h
      obtain ⟨missing, hprint, honce, hmissed⟩ := exists_print_listed clauses items bound
      rw [hprint]
      refine .listed ?_ honce hmissed
      by_cases hselection : clauses.selection = []
      · refine .inr ⟨hsilent hselection, fun hempty ↦ hnone ?_⟩
        simp [hunselected.2 hselection, hunread.1 hempty]
      · exact .inl hselection

section

variable {Result : Type} (step : Clauses Result → Result) (clauses : Clauses Statement)

theorem isMutation_fold :
    (Statement.foldClauses step clauses).verb.isMutation = clauses.verb.isMutation := by
  rw [Statement.verb_fold]
  cases clauses.verb <;> rfl

theorem returnsRecords_fold :
    (Statement.foldClauses step clauses).returnsRecords = clauses.returnsRecords := by
  simp only [returnsRecords, Statement.verb_fold, Statement.selection_fold, List.isEmpty_map,
    Statement.selectsAll_fold, Statement.shape_fold]
  cases clauses.verb <;> rfl

theorem readBackTexts_fold :
    (Statement.foldClauses step clauses).readBackTexts = clauses.readBackTexts := by
  simp only [readBackTexts, Statement.readBack_fold, qualifier, Statement.aliasName_fold]

end

theorem Returning.of_fold {Result : Type} {step : Clauses Result → Result}
    {clauses : Clauses Statement} {items columns : List String} {clause : String}
    (h : (Statement.foldClauses step clauses).Returning items columns clause) :
    clauses.Returning items columns clause := by
  have hselection : (Statement.foldClauses step clauses).selection = [] ↔
      clauses.selection = [] := by
    rw [Statement.selection_fold, List.map_eq_nil_iff]
  have hrecords := returnsRecords_fold step clauses
  cases h with
  | none silent unread => exact .none (hrecords ▸ silent) unread
  | all unselected records => exact .all (hselection.1 unselected) (hrecords ▸ records)
  | listed selected once missed =>
    exact .listed (selected.imp (mt hselection.2) (And.imp_left hrecords.symm.trans)) once missed

end Clauses

/-! ## The form of the output -/

/-- Whether outputs of a form carry rows or values of rows. -/
def Output.Form.carriesRows : Output.Form → Bool
  | .all | .one | .rows | .pluck | .value => true
  | .rowCount | .void => false

/-- The form of the outputs of a shape. -/
def Shape.form : Shape → Output.Form
  | all => .all
  | one | oneOrThrow => .one
  | rows => .rows
  | pluck => .pluck
  | value | valueOrThrow => .value
  | rowCount => .rowCount
  | void => .void

theorem Shape.carriesRows_form (shape : Shape) : shape.form.carriesRows = shape.returnsRows := by
  cases shape <;> rfl

namespace Query

/-- The form of the shape is that of the output, unless rows are asked for that do not come. -/
theorem form_eq (query : Query) :
    query.form = if query.clauses.returnsRecords || !query.clauses.shape.returnsRows then
      query.clauses.shape.form else .rowCount := by
  unfold form outputOf
  cases query.clauses.shape <;> cases query.clauses.returnsRecords <;> rfl

theorem carriesRows_form (query : Query) : query.form.carriesRows =
    (query.clauses.returnsRecords && query.clauses.shape.returnsRows) := by
  have hshape := query.clauses.shape.carriesRows_form
  have hcount : Output.Form.rowCount.carriesRows = false := rfl
  rw [form_eq]
  cases query.clauses.returnsRecords <;> cases hrows : query.clauses.shape.returnsRows <;>
    simp [hshape, hrows, hcount]

/-- A query without a row in its place hands back an output of its own form. -/
theorem form_exec {σ : Type} {surroundings : Script.Surroundings σ} {query : Query}
    {session : Session} {memory : σ} {output : Output} (alone : query.clauses.fallback = none)
    (h : ((query.exec session).run surroundings memory).result = .ok output) :
    output.form = query.form := by
  obtain ⟨_, _, outcome, _, -, -, hstatements, rfl⟩ := exists_opened_of_exec surroundings h
  cases (yields_runStatements query).1 hstatements with
  | matching before => rw [form_outputOf, form_runBefore before]
  | creating _ _ replaced => cases alone.symm.trans replaced

/-- The text of a change ends with its RETURNING clause. -/
theorem exists_returning_text {query : Query} {sql : CompiledSql}
    (changes : query.clauses.verb.isMutation) (written : query.compile = .ok sql) :
    ∃ declarations change items clause,
      CommonTable.declarations (Statement.foldClauses Clauses.code query.clauses).commonTables =
        .ok declarations ∧
      (Statement.foldClauses Clauses.code query.clauses).changeCode = .ok change ∧
      SelectItem.codes query.clauses.qualifier
        (query.clauses.selection.map (Statement.foldItem Clauses.code)) = .ok items ∧
      sql.text = Code.print 0 (declarations ++ change) ++ clause ∧
      query.clauses.Returning
        (Code.itemTexts (Code.values (declarations ++ change)).length items)
        query.clauses.readBackTexts clause := by
  obtain ⟨code, hcode, rfl⟩ := map_eq_ok.1 written
  have hmutation := (Clauses.isMutation_fold Clauses.code query.clauses).trans changes
  obtain ⟨declarations, _, hdeclarations, hverb, rfl⟩ := Clauses.code_eq_ok hcode
  obtain ⟨change, returning, hchange, hreturning, rfl⟩ := Clauses.verbCode_eq_ok hmutation hverb
  obtain ⟨items, hitems, hlists⟩ := Clauses.exists_returning hmutation hreturning
  rw [Clauses.qualifier, Statement.aliasName_fold, Statement.selection_fold] at hitems
  rw [Clauses.readBackTexts_fold] at hlists
  refine ⟨declarations, change, items, _, hdeclarations, hchange, hitems, ?_,
    (hlists (Code.values (declarations ++ change)).length).of_fold⟩
  rw [Code.compile, ← List.append_assoc, Code.print_append, Nat.zero_add]

/-- The text of a change without a row in its place has a RETURNING clause exactly if the change
hands back rows or related rows refer to its columns. The clause is a star, or it lists the items in
order and behind them the missing ones of these columns. Whatever the change is answered, its output
carries rows exactly if the change hands them back and the shape asks for them, and then the output
has the form of the shape. -/
theorem exec_returning {query : Query} {sql : CompiledSql} (changes : query.clauses.verb.isMutation)
    (alone : query.clauses.fallback = none) (written : query.compile = .ok sql) :
    (∃ declarations change items clause,
      CommonTable.declarations (Statement.foldClauses Clauses.code query.clauses).commonTables =
        .ok declarations ∧
      (Statement.foldClauses Clauses.code query.clauses).changeCode = .ok change ∧
      SelectItem.codes query.clauses.qualifier
        (query.clauses.selection.map (Statement.foldItem Clauses.code)) = .ok items ∧
      sql.text = Code.print 0 (declarations ++ change) ++ clause ∧
      query.clauses.Returning
        (Code.itemTexts (Code.values (declarations ++ change)).length items)
        query.clauses.readBackTexts clause ∧
      (clause ≠ "" ↔ query.clauses.returnsRecords ∨ query.clauses.readBack ≠ [])) ∧
    ∀ {σ : Type} (surroundings : Script.Surroundings σ) (session : Session) (memory : σ)
        (output : Output), ((query.exec session).run surroundings memory).result = .ok output →
      (output.form.carriesRows ↔ query.clauses.returnsRecords ∧
        query.clauses.shape ≠ .rowCount ∧ query.clauses.shape ≠ .void) ∧
      (output.form.carriesRows → output.form = query.clauses.shape.form) := by
  constructor
  · obtain ⟨declarations, change, items, clause, hdeclarations, hchange, hitems, htext, hclause⟩ :=
      exists_returning_text changes written
    refine ⟨declarations, change, items, clause, hdeclarations, hchange, hitems, htext, hclause, ?_⟩
    have hread : query.clauses.readBackTexts ≠ [] ↔ query.clauses.readBack ≠ [] :=
      not_congr List.map_eq_nil_iff
    rw [hclause.ne_empty_iff changes, hread]
  · intro σ surroundings session memory output houtput
    have hform : output.form = query.form := form_exec alone houtput
    have hcarries : output.form.carriesRows ↔ query.clauses.returnsRecords ∧
        query.clauses.shape.returnsRows := by
      rw [hform, carriesRows_form, Bool.and_eq_true]
    have hrows : query.clauses.shape.returnsRows ↔
        query.clauses.shape ≠ .rowCount ∧ query.clauses.shape ≠ .void := by
      cases query.clauses.shape <;> decide
    refine ⟨hcarries.trans (and_congr_right fun _ ↦ hrows), fun h ↦ ?_⟩
    rw [hform, form_eq, if_pos (by simp [(hcarries.1 h).1])]

end Query

namespace Blog

/-- The user with the key one is renamed, and the key is handed back. -/
def revised : Query := (keyed.update ada).toOption.getD keyed

/-- The renaming is answered by the key. -/
theorem result_revised : ((revised.exec ⟨false, true⟩).run server [.ok added]).result =
    .ok (.all added.rows) := by
  obtain ⟨update, hupdate⟩ : ∃ sql, revised.compile = .ok sql := ⟨_, rfl⟩
  have hplays : (revised.runBetween ⟨false, true⟩).Plays server [.ok added] ([] ++ update :: [])
      ⟨revised.outputOf added, none⟩ [] :=
    Query.plays_runStatements nofun (Query.plays_runBefore_nil revised _) hupdate
      (send_server hupdate _) rfl rfl (Query.plays_runAfter_nil _ _ _)
  exact Query.result_exec server hplays rfl rfl

end Blog

namespace Query

/-- The renaming has a RETURNING clause, and its output has the form of its shape. -/
theorem exec_returning_revised : ∃ sql declarations change clause,
    Blog.revised.clauses.verb.isMutation ∧ Blog.revised.clauses.fallback = none ∧
    Blog.revised.compile = .ok sql ∧
    sql.text = Code.print 0 (declarations ++ change) ++ clause ∧ clause ≠ "" ∧
    ((Blog.revised.exec ⟨false, true⟩).run Blog.server [.ok Blog.added]).result =
      .ok (.all Blog.added.rows) ∧
    (Output.all Blog.added.rows).form = Blog.revised.clauses.shape.form := by
  obtain ⟨sql, hsql⟩ : ∃ sql, Blog.revised.compile = .ok sql := ⟨_, rfl⟩
  have hchanges : Blog.revised.clauses.verb.isMutation := rfl
  obtain ⟨⟨declarations, change, -, clause, -, -, -, htext, -, hclause⟩, houtput⟩ :=
    exec_returning hchanges rfl hsql
  have hrecords : Blog.revised.clauses.returnsRecords := rfl
  obtain ⟨hcarries, hform⟩ := houtput _ _ _ _ Blog.result_revised
  exact ⟨sql, declarations, change, clause, rfl, rfl, hsql, htext, hclause.2 (.inl hrecords),
    Blog.result_revised, hform rfl⟩

end Query
end SqlComposer
