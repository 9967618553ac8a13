import SqlComposer.Proofs.Call.CarriedClauses
import SqlComposer.Proofs.Execution.FailedScopes

/-!
# Rows that have to exist

A query whose shape requires a row hands back that row or fails. The number of rows is checked
before the output is read off them, so a result without rows never becomes an output of such a
shape. The row that is inserted in place of a query is the one exception: its shape is settled when
it is asked for, so it may be missing from the output of a query that comes to require it later.
-/

namespace SqlComposer

/-! ## Results with their rows -/

/-- A result that counts the rows that came with it, each of which has a column. -/
structure RowSet.Counted (result : RowSet) : Prop where
  rowCount : result.rowCount = result.rows.length
  columns : ∀ row ∈ result.rows, row.columns ≠ [] ∧ row.values ≠ []

/-- Whether an output lacks the row or the value that was asked for. -/
def Output.isNothing : Output → Bool
  | one none | value none => true
  | _ => false

/-- Whether an output of a shape may lack the row. -/
def Shape.isOptional : Shape → Bool
  | one | value => true
  | _ => false

theorem Shape.isOptional_eq_false {shape : Shape} (requires : shape.requiresRow) :
    shape.isOptional = false := by
  cases shape <;> first | rfl | cases requires

/-- Decoding the text of a row leaves neither its columns nor its values empty. -/
theorem Row.values_of_decodeText {table : Table} {row read : Row}
    (h : row.decodeText table = .ok read) (columns : row.columns ≠ []) (values : row.values ≠ []) :
    read.columns ≠ [] ∧ read.values ≠ [] := by
  obtain ⟨texts, htexts, hread⟩ := bind_eq_ok.1 h
  rw [← pure_eq_ok.1 hread]
  refine ⟨columns, fun hempty ↦ ?_⟩
  have hlength := (forall₂_of_mapM htexts).length_eq
  obtain ⟨column, columns, hcolumns⟩ := List.exists_cons_of_ne_nil columns
  obtain ⟨value, values, hvalues⟩ := List.exists_cons_of_ne_nil values
  rw [hcolumns, hvalues] at hlength
  simp_all

namespace Query

variable {query filled : Query} {result reply : RowSet}

/-- Reading values as the types of the table keeps the rows and their columns. -/
theorem counted_of_decoded (h : query.decoded reply = .ok result) (counted : reply.Counted) :
    result.Counted := by
  unfold decoded at h
  split at h
  · cases h
    exact counted
  · obtain ⟨rows, hrows, hresult⟩ := bind_eq_ok.1 h
    rw [← pure_eq_ok.1 hresult]
    have hlength := (forall₂_of_mapM hrows).length_eq
    refine ⟨counted.rowCount.trans hlength, fun row hrow ↦ ?_⟩
    obtain ⟨arrived, harrived, hdecoded⟩ := exists_of_mem_results hrows hrow
    obtain ⟨hcolumns, hvalues⟩ := counted.columns arrived harrived
    exact Row.values_of_decodeText hdecoded hcolumns hvalues

/-- Where rows that are handed back are counted, the number of rows of a query is theirs. -/
theorem matchedRows_eq (counted : result.Counted) :
    query.matchedRows result = result.rows.length := by
  unfold matchedRows
  split
  · exact counted.rowCount
  · rfl

/-- A result that fits a shape without optional rows has the row that is asked for. -/
theorem isNothing_outputOf (strict : query.clauses.shape.isOptional = false)
    (counted : query.clauses.returnsRecords → result.Counted)
    (fits : query.checkRowCount (query.matchedRows result) = .ok ()) :
    (query.outputOf result).isNothing = false := by
  unfold outputOf
  cases hrecords : query.clauses.returnsRecords with
  | false => cases query.clauses.shape <;> rfl
  | true =>
    have hcounted := counted hrecords
    have hfirst (requires : query.clauses.shape.requiresRow) :
        ∃ row value, result.rows.head? = some row ∧ row.first? = some value := by
      cases hrows : result.rows with
      | nil =>
        unfold checkRowCount at fits
        rw [matchedRows_eq hcounted, hrows] at fits
        simp [requires] at fits
      | cons row rest =>
        obtain ⟨value, values, hvalues⟩ :=
          List.exists_cons_of_ne_nil (hcounted.columns row (by simp [hrows])).2
        exact ⟨row, value, rfl, by rw [Row.first?, hvalues]; rfl⟩
    cases hshape : query.clauses.shape with
    | one | value =>
      rw [hshape] at strict
      cases strict
    | oneOrThrow | valueOrThrow =>
      obtain ⟨row, value, hrow, hvalue⟩ := hfirst (by rw [hshape]; rfl)
      simp [Output.ofRowSet, hrow, hvalue, Output.isNothing]
    | all | rows | pluck | rowCount | void => rfl

/-! ## Statements of a query -/

variable {σ : Type} (surroundings : Script.Surroundings σ)

/-- Surroundings that count the rows with which they answer a statement that hands back rows. -/
def CountsRows : Prop :=
  ∀ {query : Query} {sql : CompiledSql} {memory ended : σ} {reply : RowSet},
    query.compile = .ok sql → query.clauses.returnsRecords →
    surroundings.send memory sql.text sql.values = (.ok reply, ended) → reply.Counted

variable {surroundings}

/-- Filled cells change neither the shape nor whether rows are handed back. -/
theorem shape_of_arrives {start answered : σ} {earlier : List CompiledSql} {sql : CompiledSql}
    (h : query.Arrives surroundings start earlier filled sql result answered) :
    filled.clauses.shape = query.clauses.shape ∧ filled.clauses.table = query.clauses.table := by
  rw [h.clauses_eq]
  exact ⟨rfl, rfl⟩

/-- What a query without optional rows hands back for itself has the row that is asked for. -/
theorem isNothing_finish (counts : CountsRows surroundings)
    (strict : query.clauses.shape.isOptional = false) {start answered closed : σ}
    {earlier : List CompiledSql} {sql : CompiledSql} {outcome : Outcome}
    (h : query.Arrives surroundings start earlier filled sql result answered)
    (finished : (query.finish filled result).Yields surroundings answered outcome closed) :
    outcome.output.isNothing = false := by
  obtain ⟨hfits, -, rfl⟩ := yields_finish.1 finished
  obtain ⟨hshape, -⟩ := shape_of_arrives h
  obtain ⟨between, -, hown⟩ := h
  obtain ⟨sent, reply, hsent, hreply, hread, -⟩ := (plays_sendStatement surroundings).1 hown
  exact isNothing_outputOf (hshape ▸ strict)
    (fun hrecords ↦ counted_of_decoded hread (counts hsent hrecords hreply)) hfits

/-- A query without optional rows and without a row in its place is not run to nothing. -/
theorem isNothing_runStatements (counts : CountsRows surroundings)
    (strict : query.clauses.shape.isOptional = false) (alone : query.clauses.fallback = none)
    {start closed : σ} {outcome : Outcome}
    (h : query.runStatements.Yields surroundings start outcome closed) :
    outcome.output.isNothing = false := by
  obtain ⟨_, filled, _, result, _, harrives, hproceed⟩ := exists_arrives surroundings h
  have hfinish : query.proceed filled result = query.finish filled result := by
    unfold proceed
    rw [alone]
  exact isNothing_finish counts strict harrives (hfinish ▸ hproceed)

/-- Statements that require a row and match none fail. -/
theorem result_finish_unmatched (requires : query.clauses.shape.requiresRow)
    {start answered : σ} {earlier : List CompiledSql} {sql : CompiledSql}
    (h : query.Arrives surroundings start earlier filled sql result answered)
    (unmatched : filled.matchedRows result = 0) :
    ((query.finish filled result).run surroundings answered).result =
      .error (.rowMissing (query.clauses.table.map Table.name)) := by
  obtain ⟨hshape, htable⟩ := shape_of_arrives h
  have hcheck : filled.checkRowCount (filled.matchedRows result) =
      .error (.rowMissing (query.clauses.table.map Table.name)) := by
    unfold checkRowCount
    simp [hshape, htable, requires, unmatched]
  unfold finish
  rw [hcheck]
  rfl

/-! ## The row in place of a query -/

/-- A query that does not go on with another one has no row in its place. -/
theorem fallback_of_fresh {next : Query} {call : Call} (done : call.apply query = .ok next)
    (fresh : call.continues = false) : next.clauses.fallback = none := by
  cases call with
  | json =>
    cases done
    rfl
  | sibling name =>
    obtain ⟨table, rfl⟩ := exists_of_sibling done
    rfl
  | _ => cases fresh

/-- The row in place of a query was asked for on some query. -/
theorem Reachable.exists_orCreate {supplied : Fragment → Prop} {fallback : Statement}
    (reached : query.Reachable supplied) (held : query.clauses.fallback = some fallback) :
    ∃ (base : Query) (row : Payload) (made : Query), base.orCreate row = .ok made ∧
      made.clauses.fallback = some fallback := by
  induction reached with
  | ofTable | ofRaw => cases held
  | @call query next call inner _ _ _ done ih =>
    by_cases hreplaces : call.replaces
    · obtain ⟨base, row, -, hmade⟩ := Call.exists_orCreate done hreplaces
      exact ⟨base, row, next, hmade, held⟩
    · cases hcontinues : call.continues with
      | true =>
        have hgrows := Call.grows_apply done hcontinues (Bool.eq_false_iff.2 hreplaces)
        exact ih (hgrows.fallback.symm.trans held)
      | false => cases (fallback_of_fresh done hcontinues).symm.trans held

/-- An insertion hands back a number of rows if the query counts, and its own shape otherwise. -/
theorem shape_insert {query inserted : Query} {row : Payload}
    (h : query.insert row = .ok inserted) :
    inserted.clauses.shape =
      if query.clauses.counts then .rowCount else insertShape false query.clauses.shape := by
  obtain ⟨_, _, -, -, -, -, rfl⟩ := insertRows_eq_ok.1 h
  rfl

/-- A row that is asked for on a query that requires a row is not optional. -/
theorem isOptional_of_orCreate {base made : Query} {row : Payload} {fallback : Statement}
    (asked : base.orCreate row = .ok made) (held : made.clauses.fallback = some fallback)
    (requires : base.clauses.shape.requiresRow) : fallback.clauses.shape.isOptional = false := by
  obtain ⟨table, insertion, -, -, hinsert, rfl⟩ := orCreate_eq_ok asked
  cases held
  have hexpects : base.clauses.shape.expectsOne := by
    cases hshape : base.clauses.shape <;> rw [hshape] at requires <;> first | rfl | cases requires
  have hshape : fallbackShape base.clauses = .rowCount ∨
      fallbackShape base.clauses = base.clauses.shape := by
    unfold fallbackShape
    rw [if_pos hexpects]
    exact ite_eq_or_eq _ _ _
  have hsettled : (insertShape false (fallbackShape base.clauses)).isOptional = false := by
    rcases hshape with hcounted | hown
    · rw [hcounted]
      rfl
    · rw [hown]
      cases hkept : base.clauses.shape <;> rw [hkept] at requires <;> first | rfl | cases requires
  change insertion.clauses.shape.isOptional = false
  rw [shape_insert hinsert]
  split
  · rfl
  · exact hsettled

/-! ## Executing -/

/-- How a query that requires a row comes to none, which is missing in a table. -/
inductive Lacks (surroundings : Script.Surroundings σ) (query : Query) (session : Session)
    (memory : σ) : Option Table → Prop
  /-- The query matches no row, and there is none in its place. -/
  | own {ready start answered : σ} {earlier : List CompiledSql} {filled : Query} {sql : CompiledSql}
      {result : RowSet} (alone : query.clauses.fallback = none)
      (agreed : Script.Agree surroundings query.hooksBefore memory ready)
      (opened : (query.opening session).Yields surroundings ready () start)
      (arrives : query.Arrives surroundings start earlier filled sql result answered)
      (unmatched : filled.matchedRows result = 0) :
      Lacks surroundings query session memory query.clauses.table
  /-- The query matches no row, and the insertion in its place, which requires one, hands back none.
  -/
  | replaced {ready start answered ended created : σ} {earlier later : List CompiledSql}
      {filled inserted : Query} {sql insertion : CompiledSql} {result reply : RowSet}
      {fallback : Statement} (held : query.clauses.fallback = some fallback)
      (alone : fallback.clauses.fallback = none) (requires : fallback.clauses.shape.requiresRow)
      (agreed : Script.Agree surroundings query.hooksBefore memory ready)
      (opened : (query.opening session).Yields surroundings ready () start)
      (arrives : query.Arrives surroundings start earlier filled sql result answered)
      (unmatched : filled.matchedRows result = 0)
      (admitted : Script.Agree surroundings (query.withClauses fallback.clauses).hooksBefore
        answered ended)
      (creates : (query.withClauses fallback.clauses).Arrives surroundings ended later inserted
        insertion reply created)
      (uncreated : inserted.matchedRows reply = 0) :
      Lacks surroundings query session memory fallback.clauses.table

/-- Without a row in its place, statements that require a row and match none fail. -/
theorem result_unmatched (requires : query.clauses.shape.requiresRow)
    (alone : query.clauses.fallback = none) {start answered : σ} {earlier : List CompiledSql}
    {sql : CompiledSql} (h : query.Arrives surroundings start earlier filled sql result answered)
    (unmatched : filled.matchedRows result = 0) :
    (query.runStatements.run surroundings start).result =
      .error (.rowMissing (query.clauses.table.map Table.name)) := by
  rw [h.result_runStatements]
  unfold proceed
  rw [alone]
  exact result_finish_unmatched requires h unmatched

/-- Where a row is missing, a query that requires it fails for that reason. -/
theorem exists_surfaces_lacks {session : Session} {memory : σ} {table : Option Table}
    (requires : query.clauses.shape.requiresRow)
    (lacks : query.Lacks surroundings session memory table) :
    ∃ error, ((query.exec session).run surroundings memory).result = .error error ∧
      (Error.rowMissing (table.map Table.name)).Surfaces error ∧
      (Controls surroundings → error = .rowMissing (table.map Table.name)) := by
  cases lacks with
  | own alone agreed opened arrives unmatched =>
    exact exists_surfaces_exec surroundings agreed opened
      (result_unmatched requires alone arrives unmatched)
  | @replaced _ _ answered _ _ _ _ filled _ _ _ result _ fallback held alone inserts agreed opened
      arrives unmatched admitted creates uncreated =>
    refine exists_surfaces_exec surroundings agreed opened ?_
    have hhooks : (Script.callAll (query.withClauses fallback.clauses).hooksBefore).Yields
        surroundings answered () _ := (Script.yields_callAll surroundings).2 admitted
    rw [arrives.result_runStatements, proceed_unmatched held unmatched]
    unfold create
    rw [Script.result_bind_ok surroundings hhooks.1, hhooks.2,
      Script.result_bind_error surroundings (result_unmatched inserts alone creates uncreated)]
    rfl

/-- A query that requires a row is run to nothing only by the row in its place, if that row was
asked for on a query that did not require it yet. Where a row is missing otherwise, the query fails
for that reason. -/
theorem exec_requiring {supplied : Fragment → Prop} (reached : query.Reachable supplied)
    (requires : query.clauses.shape.requiresRow) (counts : CountsRows surroundings)
    (session : Session) (memory : σ) :
    (∀ output, ((query.exec session).run surroundings memory).result = .ok output →
      output.isNothing → ∃ (base : Query) (row : Payload) (made : Query),
        base.orCreate row = .ok made ∧ made.clauses.fallback = query.clauses.fallback ∧
        base.clauses.shape.requiresRow = false ∧
        ((query.matching session).run surroundings memory).result = .ok 0) ∧
    ∀ table, query.Lacks surroundings session memory table →
      ∃ error, ((query.exec session).run surroundings memory).result = .error error ∧
        (Error.rowMissing (table.map Table.name)).Surfaces error ∧
        (Controls surroundings → error = .rowMissing (table.map Table.name)) := by
  refine ⟨fun output houtput hnothing ↦ ?_, fun table ↦ exists_surfaces_lacks requires⟩
  have hstrict := Shape.isOptional_eq_false requires
  obtain ⟨ready, start, outcome, closed, hagreed, hopened, hstatements, rfl⟩ :=
    exists_opened_of_exec surroundings houtput
  obtain ⟨earlier, filled, sql, result, answered, harrives, hproceed⟩ :=
    exists_arrives surroundings hstatements
  have hfinish (h : (query.finish filled result).Yields surroundings answered outcome closed) :
      False := Bool.false_ne_true ((isNothing_finish counts hstrict harrives h).symm.trans hnothing)
  cases hheld : query.clauses.fallback with
  | none =>
    unfold proceed at hproceed
    rw [hheld] at hproceed
    exact (hfinish hproceed).elim
  | some fallback =>
    obtain ⟨base, row, made, hasked, hmade⟩ := reached.exists_orCreate hheld
    unfold proceed at hproceed
    simp only [hheld] at hproceed
    split at hproceed
    · exact absurd hproceed (Script.yields_fail surroundings)
    · split at hproceed
      · rename_i hunmatched
        -- Had the row been required when it was asked for, its insertion would have failed.
        refine ⟨base, row, made, hasked, hmade, Bool.eq_false_iff.2 fun hrequires ↦ ?_,
          (result_matching_iff surroundings).2 ⟨ready, start, earlier, filled, sql, result,
            answered, hagreed, hopened, harrives, hunmatched⟩⟩
        obtain ⟨-, insertion, hinsertion, hconfigures⟩ := configures_orCreate hasked
        cases hinsertion.symm.trans hmade
        obtain ⟨_, created, -, hcreated, rfl⟩ := yields_create.1 hproceed
        have hoptional : (query.withClauses insertion.statement.clauses).clauses.shape.isOptional =
            false := isOptional_of_orCreate hasked hmade hrequires
        have hsome := isNothing_runStatements counts hoptional hconfigures.alone hcreated
        exact Bool.false_ne_true (hsome.symm.trans hnothing)
      · exact (hfinish hproceed).elim

end Query

/-! ## A user that has to exist -/

namespace Blog

/-- A server that holds no rows and takes none. -/
def vacant : Script.Surroundings Unit where
  send _ _ _ := (.ok .empty, ())
  control _ _ := (.ok (), ())
  call _ _ := (.ok (), ())

theorem countsRows_vacant : Query.CountsRows vacant := by
  intro query sql memory ended reply _ _ hsent
  cases hsent
  exact ⟨rfl, nofun⟩

def namesakes : Query :=
  users.filter (.compare ⟨none, "name"⟩ .equals (.term (.literal (.text "Ada"))))

theorem reachable_namesakes : namesakes.Reachable fun _ ↦ False :=
  .call_alone (.ofTable user (some catalog) none)
    (.filter (.compare ⟨none, "name"⟩ .equals (.term (.literal (.text "Ada"))))) trivial rfl

/-- One of them, who has to exist. -/
theorem reachable_demanded : namesakes.take.Reachable fun _ ↦ False :=
  .call_alone reachable_namesakes .take trivial rfl

theorem lacks_demanded : namesakes.take.Lacks vacant ⟨false, true⟩ () (some user) := by
  obtain ⟨sql, hsql⟩ : ∃ sql, namesakes.take.compile = .ok sql := ⟨_, rfl⟩
  have harrives : namesakes.take.Arrives vacant () [] namesakes.take sql .empty () :=
    ⟨(), Query.plays_runBefore_nil namesakes.take (),
      (Query.plays_sendStatement vacant).2 ⟨sql, .empty, hsql, rfl, rfl, rfl⟩⟩
  exact .own rfl rfl ⟨rfl, rfl⟩ harrives rfl

def provided : Query := (namesakes.orCreate ada).toOption.getD namesakes

theorem orCreate_namesakes : (Call.orCreate ada).apply namesakes = .ok provided := rfl

theorem given_orCreate : (Call.orCreate ada).Given (fun _ ↦ False) (fun _ ↦ False)
    (Call.IsStatement fun _ ↦ False) := by
  intro key term hterm
  cases List.mem_singleton.1 hterm
  trivial

theorem reachable_provided : provided.Reachable fun _ ↦ False :=
  .call_alone reachable_namesakes _ given_orCreate orCreate_namesakes

def arrival : Query :=
  provided.take.withClauses ((provided.clauses.fallback.map Statement.clauses).getD .empty)

/-- Neither the selection nor the insertion hands back a user. -/
theorem plays_provided : ∃ selection insertion,
    (provided.take.runBetween ⟨false, true⟩).Plays vacant ()
      [⟨"BEGIN", []⟩, selection, insertion, ⟨"COMMIT", []⟩] ⟨.one none, some arrival⟩ () := by
  obtain ⟨selection, hselection⟩ : ∃ sql, provided.take.compile = .ok sql := ⟨_, rfl⟩
  obtain ⟨insertion, hinsertion⟩ : ∃ sql, arrival.compile = .ok sql := ⟨_, rfl⟩
  have hcreation : arrival.runStatements.Plays vacant () ([] ++ insertion :: [])
      ⟨arrival.outputOf .empty, none⟩ () :=
    Query.plays_runStatements nofun (Query.plays_runBefore_nil arrival _) hinsertion rfl rfl rfl
      (Query.plays_runAfter_nil _ _ _)
  have hheld : provided.take.clauses.fallback = some arrival.statement := rfl
  have hhooks : Script.Agree vacant arrival.hooksBefore () () := rfl
  have hreplaced : provided.take.runStatements.Plays vacant ()
      ([] ++ selection :: ([] ++ insertion :: [])) ⟨arrival.outputOf .empty, some arrival⟩ () :=
    Query.plays_replaced vacant hheld (Query.plays_runBefore_nil provided.take _) hselection rfl rfl
      rfl hhooks hcreation
  have hscope : Scope.ofSession ⟨false, true⟩ = .ok .transaction := rfl
  have hcontrol (sql : String) : vacant.send () sql [] = (.ok .empty, ()) := rfl
  exact ⟨selection, insertion,
    Query.plays_runBetween vacant rfl hscope (hcontrol _) hreplaced (hcontrol _)⟩

end Blog

namespace Query

/-- A user who has to exist is missing. -/
theorem exec_requiring_demanded :
    Blog.namesakes.take.clauses.shape.requiresRow ∧
      ∃ error, ((Blog.namesakes.take.exec ⟨false, true⟩).run Blog.vacant ()).result =
        .error error ∧ (Error.rowMissing (some "user")).Surfaces error := by
  obtain ⟨-, hlacks⟩ := exec_requiring Blog.reachable_demanded rfl Blog.countsRows_vacant
    ⟨false, true⟩ ()
  obtain ⟨error, hresult, hsurfaces, -⟩ := hlacks _ Blog.lacks_demanded
  exact ⟨rfl, error, hresult, hsurfaces⟩

/-- A user who is inserted if there is none, and has to exist from then on, is missing all the same.
-/
theorem exec_provided_take :
    Blog.provided.take.Reachable (fun _ ↦ False) ∧
      Blog.provided.take.clauses.shape.requiresRow ∧ CountsRows Blog.vacant ∧
      ((Blog.provided.take.exec ⟨false, true⟩).run Blog.vacant ()).result = .ok (.one none) := by
  obtain ⟨_, _, hplays⟩ := Blog.plays_provided
  exact ⟨.call_alone Blog.reachable_provided .take trivial rfl, rfl, Blog.countsRows_vacant,
    result_exec Blog.vacant hplays rfl rfl⟩

end Query
end SqlComposer
