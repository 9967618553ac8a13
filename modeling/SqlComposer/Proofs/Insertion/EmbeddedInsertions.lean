import SqlComposer.Proofs.Call.CheckedQueries
import SqlComposer.Proofs.Code.EmbeddedQueries
import SqlComposer.Proofs.Execution.QueriesRun
import SqlComposer.Proofs.Fallback.RowsInPlace
import SqlComposer.Proofs.Nested.AttachedRows

/-!
# Rows asked for by embedded statements

A query inserts the rows that it asks for itself, and fills in their keys. A statement that is
embedded in it is only written: the rows that it asks for are never inserted, and the cells that
wait for their keys are written as defaults. So no pending cell is written exactly where no embedded
statement that is written asks for a row that comes before its own.
-/

namespace SqlComposer

variable {Sub : Type} {raw : Fragment → Prop} {inner : Sub → Prop} {sub : Sub}

/-! ## Statements in checked clauses -/

theorem Filter.checked_condition {filter : Filter Sub} (checked : filter.Checked raw inner) :
    filter.condition.Checked raw inner := by
  refine Condition.checkedAll_iff.2 fun condition hcondition ↦ ?_
  obtain ⟨group, hgroup, rfl⟩ := List.mem_map.1 hcondition
  exact Condition.checkedIn_iff.1 checked group hgroup

theorem Condition.checked_of_embeds {condition : Condition Sub} (h : condition.Embeds sub)
    (checked : condition.Checked raw inner) : inner sub := by
  induction h with
  | compare => exact checked
  | every member _ ih | any member _ ih => exact ih (checkedAll_iff.1 checked _ member)
  | not _ ih => exact ih checked
  | hasRow => exact checked
  | operand => exact checked.2
  | counted _ _ ih =>
    obtain ⟨-, -, hfilter⟩ := AggregateCall.checked_iff.1 checked.1
    exact ih (Filter.checked_condition hfilter)

/-- The statements that clauses embed have the property that all statements in them have. -/
theorem Clauses.Checked.of_embeds {clauses : Clauses Sub} (checked : clauses.Checked raw inner)
    (h : clauses.Embeds sub) : inner sub := by
  cases h with
  | declared member body =>
    have hbody := checked.commonTables _ member
    rwa [body] at hbody
  | selected _ member expression =>
    have hexpression := checked.selection _ member
    rwa [expression] at hexpression
  | source _ source =>
    have hsource := checked.source
    rwa [source] at hsource
  | joined _ member target =>
    have htarget := (checked.joins _ member).1
    rwa [target] at htarget
  | on _ member condition => exact Condition.checked_of_embeds condition (checked.joins _ member).2
  | filter _ condition =>
    exact Condition.checked_of_embeds condition (Filter.checked_condition checked.filter)
  | having _ condition =>
    exact Condition.checked_of_embeds condition (Filter.checked_condition checked.having)
  | combined _ member operand =>
    have hoperand := checked.combinations _ member
    rwa [operand] at hoperand
  | rows verb source =>
    have hverb := checked.verb
    rw [verb] at hverb
    have hsource := hverb.1
    rwa [source] at hsource

/-- The places of an insertion in which statements stand. -/
theorem Clauses.embeds_insert_iff {clauses : Clauses Sub} {insertion : Insertion Sub}
    (inserts : clauses.verb = .insert insertion) : clauses.Embeds sub ↔
      (∃ table ∈ clauses.commonTables, table.body = .query sub) ∨
      (∃ item ∈ clauses.selection, item.expression = .query sub) ∨
      clauses.filter.condition.Embeds sub ∨ insertion.source = .query sub := by
  have hrows : clauses.verb.handlesRows := by
    rw [inserts]
    rfl
  constructor
  · intro h
    cases h with
    | declared member body => exact .inl ⟨_, member, body⟩
    | selected _ member expression => exact .inr (.inl ⟨_, member, expression⟩)
    | filter _ condition => exact .inr (.inr (.inl condition))
    | rows verb source =>
      cases verb.symm.trans inserts
      exact .inr (.inr (.inr source))
    | joined verb => rcases verb with verb | verb <;> cases verb.symm.trans inserts
    | on verb => rcases verb with ⟨verb, -⟩ | verb <;> cases verb.symm.trans inserts
    | source verb | having verb | combined verb => cases verb.symm.trans inserts
  · rintro (⟨_, member, body⟩ | ⟨_, member, expression⟩ | condition | source)
    · exact .declared member body
    · exact .selected hrows member expression
    · exact .filter hrows condition
    · exact .rows inserts source

/-! ## Statements at any depth -/

/-- A statement stands in clauses at some depth, in places that are written. -/
inductive Clauses.Contains (inner : Statement) : Clauses Statement → Prop
  | embedded {clauses : Clauses Statement} (h : clauses.Embeds inner) : Contains inner clauses
  | deeper {clauses : Clauses Statement} {outer : Statement} (h : clauses.Embeds outer)
      (within : Contains inner outer.clauses) : Contains inner clauses

/-- What a statement contains stands in its text. -/
theorem Clauses.Contains.exists_print {clauses : Clauses Statement} {inner : Statement}
    (h : clauses.Contains inner) {code : Code} (written : Statement.code ⟨clauses⟩ = .ok code)
    (bound : Nat) : ∃ own position before after, inner.code = .ok own ∧
      Code.print bound code = before ++ Code.print position own ++ after := by
  induction h generalizing code bound with
  | embedded h =>
    obtain ⟨own, hown, hwithin⟩ := Statement.within_code h written
    obtain ⟨before, after, earlier, later, htext, -⟩ := hwithin.exists_print bound
    exact ⟨own, _, before, after, hown, htext⟩
  | @deeper clauses outer h _ ih =>
    obtain ⟨middle⟩ := outer
    obtain ⟨between, hbetween, hwithin⟩ := Statement.within_code h written
    obtain ⟨before, after, earlier, later, htext, -⟩ := hwithin.exists_print bound
    obtain ⟨own, position, front, back, hown, hinner⟩ := ih hbetween (bound + earlier.length)
    refine ⟨own, position, before ++ front, back ++ after, hown, ?_⟩
    rw [htext, hinner]
    simp only [String.append_assoc]

/-- No statement stands in an insertion of rows that declares no tables, restricts no reaction and
hands back no query. -/
theorem Clauses.not_contains_rows {clauses : Clauses Statement} {inner : Statement}
    {columns : List String} {rows : List (List Cell)} {conflict : Option Conflict}
    (verb : clauses.verb = .insert ⟨columns, .rows rows, conflict⟩)
    (tables : clauses.commonTables = []) (filter : clauses.filter = .unset)
    (selection : ∀ item ∈ clauses.selection, ∀ sub, item.expression ≠ .query sub) :
    ¬clauses.Contains inner := by
  have hnone (sub : Statement) : ¬clauses.Embeds sub := by
    rw [embeds_insert_iff verb, tables, filter]
    rintro (⟨_, member, -⟩ | ⟨item, member, expression⟩ | condition | source)
    · cases member
    · exact selection item member sub expression
    · cases condition with
      | any member => cases member
    · cases source
  rintro (hembeds | ⟨hembeds, -⟩)
  · exact hnone _ hembeds
  · exact hnone _ hembeds

/-- The pending cells of a statement, and those of all statements in it, are to be filled by rows
that the same statement asks for. -/
def Statement.Sound (statement : Statement) : Prop :=
  statement.clauses.Awaits ∧
    ∀ inner, Clauses.Contains inner statement.clauses → inner.clauses.Awaits

theorem Clauses.Checked.of_contains {clauses : Clauses Statement} {inner : Statement}
    (checked : clauses.Checked raw Statement.Sound) (h : clauses.Contains inner) :
    inner.clauses.Awaits := by
  cases h with
  | embedded h => exact (checked.of_embeds h).1
  | deeper h within => exact (checked.of_embeds h).2 _ within

/-- Checked clauses over sound statements form a sound statement. -/
theorem Clauses.Checked.sound {clauses : Clauses Statement}
    (checked : clauses.Checked raw Statement.Sound) (awaits : clauses.Awaits) :
    Statement.Sound ⟨clauses⟩ := ⟨awaits, fun _ h ↦ checked.of_contains h⟩

/-! ## What calls ask for -/

namespace Query

/-- The pending cells of a query, those of the row in its place and those of all statements in the
two are to be filled by rows that the same statement asks for. -/
structure Prepared (query : Query) : Prop where
  careful : query.Careful
  holds : query.Holds (fun _ ↦ True) Statement.Sound
  replaced : ∀ fallback, query.clauses.fallback = some fallback →
    fallback.clauses.Checked (fun _ ↦ True) Statement.Sound

variable {query next : Query}

theorem Prepared.sound (prepared : query.Prepared) : query.statement.Sound :=
  Clauses.Checked.sound prepared.holds prepared.careful.own

/-- A query without a row in its place is prepared if its own statement is. -/
theorem Prepared.of_alone (alone : query.clauses.fallback = none) (awaits : query.clauses.Awaits)
    (holds : query.Holds (fun _ ↦ True) Statement.Sound) : query.Prepared where
  careful := ⟨awaits, fun _ held ↦ by cases alone.symm.trans held⟩
  holds := holds
  replaced _ held := by cases alone.symm.trans held

theorem Prepared.orCreate {row : Payload} (prepared : query.Prepared)
    (given : row.Checked fun _ ↦ True) (h : query.orCreate row = .ok next) : next.Prepared := by
  have hholds : next.Holds (fun _ ↦ True) Statement.Sound := prepared.holds.orCreate h
  obtain ⟨table, inserted, -, -, hinserted, rfl⟩ := orCreate_eq_ok h
  have hclauses : query.clauses.Checked (fun _ ↦ True) Statement.Sound := prepared.holds
  have hbase : (query.withClauses (fallbackBase query.clauses table)).Holds (fun _ ↦ True)
      Statement.Sound :=
    { checked_empty with selection := hclauses.selection, defaults := hclauses.defaults }
  refine ⟨⟨prepared.careful.own.congr rfl rfl, ?_⟩, hholds, ?_⟩
  · rintro _ ⟨⟩
    exact ⟨awaits_insertRows hinserted, (configures_insert hinserted).alone⟩
  · rintro _ ⟨⟩
    exact hbase.insertRows (List.forall_mem_singleton.2 given) hinserted

end Query

/-- Every method prepares queries out of prepared ones. -/
theorem Call.prepared_apply {query next : Query} {call : Call} (prepared : query.Prepared)
    (given : call.Given (fun _ ↦ True)
      (fun inner ↦ inner.Holds (fun _ ↦ True) Statement.Sound ∧ inner.statement.Sound)
      Statement.Sound)
    (done : call.apply query = .ok next) : next.Prepared := by
  have hholds : next.Holds (fun _ ↦ True) Statement.Sound := by
    refine holds_apply (fun _ _ ↦ trivial) prepared.holds given prepared.sound ?_ done
    exact fun clauses checked selects ↦
      checked.sound (Clauses.awaits_of_verb (by simp [selects]))
  cases call with
  | sibling =>
    obtain ⟨table, -, rfl⟩ := Query.sibling_eq_ok.1 done
    exact .of_alone rfl (Clauses.awaits_of_verb nofun) hholds
  | json =>
    cases done
    exact .of_alone rfl (Clauses.awaits_of_verb nofun) hholds
  | orCreate => exact prepared.orCreate given done
  | upsert data row =>
    simp only [apply, Query.upsert] at done
    split at done
    · exact prepared.orCreate given.2 done
    · obtain ⟨updated, hupdated, hcreated⟩ := bind_eq_ok.1 done
      have hretains := Query.Retains.update hupdated
      refine Query.Prepared.orCreate ⟨⟨hretains.awaits prepared.careful.own, ?_⟩,
        prepared.holds.update given.1 hupdated, ?_⟩ given.2 hcreated
      · rw [hretains.fallback]
        exact prepared.careful.replaced
      · rw [hretains.fallback]
        exact prepared.replaced
  | _ =>
    have hgrows := grows_apply done rfl rfl
    refine ⟨⟨hgrows.awaits prepared.careful.own, ?_⟩, hholds, ?_⟩
    · rw [hgrows.fallback]
      exact prepared.careful.replaced
    · rw [hgrows.fallback]
      exact prepared.replaced

/-- All queries that methods lead to are prepared. -/
theorem Query.Reachable.prepared {supplied : Fragment → Prop} {query : Query}
    (reached : query.Reachable supplied) : query.Prepared := by
  induction reached with
  | ofTable table catalog log =>
    exact .of_alone rfl (Clauses.awaits_of_verb nofun) (Query.checked_ofTable table)
  | ofRaw =>
    refine .of_alone rfl (Clauses.awaits_of_verb nofun) { Query.checked_empty with selection := ?_ }
    intro item hitem
    rw [List.mem_singleton.1 hitem]
    trivial
  | call inner _ given _ done ih ihsubs =>
    refine Call.prepared_apply ih ?_ done
    refine given.mono (fun _ _ ↦ trivial)
      (fun query hquery ↦ ⟨(ihsubs query hquery).holds, (ihsubs query hquery).sound⟩) ?_
    rintro _ ⟨query, hquery, rfl⟩
    exact (ihsubs query hquery).sound

/-! ## What is run -/

namespace Query

variable {query filled insertion part : Query} {inner : Statement}

/-- Keys are filled into rows, in which no statement stands. -/
theorem embeds_fillCell {row column : Nat} {key : Literal}
    (h : (query.fillCell row column key).clauses.Embeds inner) : query.clauses.Embeds inner := by
  have hverb : (query.fillCell row column key).clauses.verb = _ := verb_fillCell
  cases hown : query.clauses.verb with
  | insert insertion =>
    rw [hown] at hverb
    rw [Clauses.embeds_insert_iff hverb, clauses_fillCell] at h
    refine (Clauses.embeds_insert_iff hown).2
      (h.imp_right <| .imp_right <| .imp_right fun held ↦ ?_)
    obtain ⟨columns, source, conflict⟩ := insertion
    cases source with
    | rows | raw => cases held
    | query sub => exact held
  | _ =>
    simp only [fillCell, modify, hown] at h
    exact h

theorem Filled.embeds (filling : query.Filled filled) (h : filled.clauses.Embeds inner) :
    query.clauses.Embeds inner := by
  induction filling with
  | refl => exact h
  | fill _ row column key ih => exact ih (embeds_fillCell h)

theorem Filled.contains (filling : query.Filled filled) (h : filled.clauses.Contains inner) :
    query.clauses.Contains inner := by
  cases h with
  | embedded h => exact .embedded (filling.embeds h)
  | deeper h within => exact .deeper (filling.embeds h) within

theorem not_contains_insertionBefore {relation : Relation} {data : Payload}
    (h : query.insertionBefore relation data = .ok insertion) :
    ¬insertion.clauses.Contains inner := by
  obtain ⟨table, plan, reference, -, -, -, rfl⟩ := insertionBefore_eq_ok.1 h
  refine Clauses.not_contains_rows rfl rfl rfl fun item hitem sub ↦ ?_
  cases List.mem_singleton.1 hitem
  exact nofun

/-- An insertion behind a query embeds no statement. -/
theorem not_contains_insertionAfter {relation : Relation} {rows : List Payload} {key : Literal}
    (h : query.insertionAfter relation rows key = .ok insertion) :
    ¬insertion.clauses.Contains inner := by
  obtain ⟨table, plan, -, -, -, -, rfl⟩ := insertionAfter_eq_ok.1 h
  refine Clauses.not_contains_rows rfl rfl rfl fun item hitem ↦ ?_
  cases (hitem : item ∈ ([] : List (SelectItem Statement)))

/-- What is run for a query contains only statements that stand in the query or in the row in its
place. -/
theorem Runs.contains (runs : query.Runs part) (careful : query.Careful)
    (h : part.clauses.Contains inner) : query.clauses.Contains inner ∨
      ∃ fallback, query.clauses.fallback = some fallback ∧ fallback.clauses.Contains inner := by
  induction runs with
  | own filling => exact .inl (filling.contains h)
  | before _ built _ ih =>
    rcases ih (careful_insertionBefore built) h with hown | ⟨fallback, held, -⟩
    · exact absurd hown (not_contains_insertionBefore built)
    · cases (fallback_insertionBefore built).symm.trans held
  | after _ built _ ih =>
    rcases ih (careful_insertionAfter built) h with hown | ⟨fallback, held, -⟩
    · exact absurd hown (not_contains_insertionAfter built)
    · cases (fallback_insertionAfter built).symm.trans held
  | replaced held _ ih =>
    rcases ih (careful.withClauses held) h with hown | ⟨other, hother, -⟩
    · exact .inr ⟨_, held, hown⟩
    · cases (careful.replaced _ held).2.symm.trans hother

/-- In no query that is run is a cell of its own rows pending. -/
theorem Runs.settled (runs : query.Runs part) (row column : Nat) :
    ¬part.clauses.PendingAt row column := by
  induction runs with
  | own _ settled => exact settled row column
  | before _ _ _ ih | after _ _ _ ih | replaced _ _ ih => exact ih

/-- Apart from what controls its transaction, a query that calls lead to sends statements of itself,
of the row in its place and of related rows that these ask for. No cell of their own rows is
pending. A statement in them stands in the query or in the row in its place and is written as it
is, with the pending cells for which it asks for rows before its own. -/
theorem exec_pending {supplied : Fragment → Prop} (reached : query.Reachable supplied) {σ : Type}
    (surroundings : Script.Surroundings σ) (session : Session) (memory : σ) :
    ∀ sent ∈ ((query.exec session).run surroundings memory).transmissions,
      ControlsTransaction sent.text ∨ ∃ part, query.Runs part ∧ part.compile = .ok sent ∧
        (∀ row column, ¬part.clauses.PendingAt row column) ∧
        ∀ inner, part.clauses.Contains inner →
          (query.clauses.Contains inner ∨
            ∃ fallback, query.clauses.fallback = some fallback ∧ fallback.clauses.Contains inner) ∧
          (∃ code position before after, inner.code = .ok code ∧
            sent.text = before ++ Code.print position code ++ after) ∧
          ∀ row column, inner.clauses.PendingAt row column →
            ∃ relation data, .before row column relation data ∈ inner.clauses.related := by
  intro sent hsent
  have prepared := reached.prepared
  refine (sent_exec surroundings prepared.careful session memory sent hsent).imp_right ?_
  rintro ⟨part, hruns, hcompiled⟩
  refine ⟨part, hruns, hcompiled, hruns.settled, fun inner hinner ↦ ?_⟩
  have hplace := hruns.contains prepared.careful hinner
  obtain ⟨code, hcode, rfl⟩ := map_eq_ok.1 hcompiled
  refine ⟨hplace, hinner.exists_print hcode 0, ?_⟩
  rcases hplace with hown | ⟨fallback, held, hin⟩
  · exact prepared.holds.of_contains hown
  · exact (prepared.replaced fallback held).of_contains hin

end Query

/-! ## Users behind a new post -/

namespace Blog

def publishing : Query := (posts.insert article).toOption.getD posts

theorem insert_article : posts.insert article = .ok publishing := rfl

def published : Query := users.withQuery "new" publishing ⟨false, none, []⟩

theorem checked_article : article.Checked fun _ ↦ True := by
  intro key term _
  cases term <;> trivial

theorem reachable_publishing : publishing.Reachable fun _ ↦ True := by
  have hposts : posts.Reachable fun _ ↦ True := .ofTable post (some catalog) none
  exact @Query.Reachable.call _ posts publishing (.insert article) (fun _ ↦ False) hposts
    checked_article (fun _ ↦ False.elim) insert_article

theorem reachable_published : published.Reachable fun _ ↦ True := by
  have husers : users.Reachable fun _ ↦ True := .ofTable user (some catalog) none
  exact @Query.Reachable.call _ users published (.withQuery "new" publishing ⟨false, none, []⟩)
    (fun query ↦ query = publishing) husers rfl (fun _ h ↦ h ▸ reachable_publishing) rfl

theorem contains_published : published.clauses.Contains publishing.statement :=
  .embedded (.declared List.mem_cons_self rfl)

/-- One statement runs. -/
theorem plays_published {sql : CompiledSql} (compiled : published.compile = .ok sql) :
    (published.runBetween ⟨false, true⟩).Plays server [.ok ⟨0, []⟩] [sql] ⟨.all [], none⟩ [] := by
  have hplays : published.runStatements.Plays server [.ok ⟨0, []⟩] ([] ++ sql :: [])
      ⟨published.outputOf ⟨0, []⟩, none⟩ [] :=
    Query.plays_runStatements nofun (Query.plays_runBefore_nil published _) compiled
      (send_server compiled _) rfl rfl (Query.plays_runAfter_nil _ _ _)
  exact hplays

theorem agree_published (answers : Rehearsal.Answers) :
    Script.Agree server published.hooksBefore answers answers := rfl

end Blog

namespace Query

/-- The users are selected with one statement, in which the insertion of the post stands. -/
theorem exec_pending_published : ∃ sent, Blog.published.Reachable (fun _ ↦ True) ∧
    ((Blog.published.exec ⟨false, true⟩).run Blog.server [.ok ⟨0, []⟩]).transmissions = [sent] ∧
    ∃ part, Blog.published.Runs part ∧ part.compile = .ok sent ∧
      (∀ row column, ¬part.clauses.PendingAt row column) ∧
      ∀ inner, part.clauses.Contains inner → ∀ row column, inner.clauses.PendingAt row column →
        ∃ relation data, .before row column relation data ∈ inner.clauses.related := by
  obtain ⟨sql, hsql⟩ : ∃ sql, Blog.published.compile = .ok sql := ⟨_, rfl⟩
  have hsent := transmissions_exec Blog.server (Blog.agree_published _) (Blog.plays_published hsql)
  refine ⟨sql, Blog.reachable_published, hsent, ?_⟩
  rcases exec_pending Blog.reachable_published Blog.server ⟨false, true⟩ [.ok ⟨0, []⟩] sql
    (hsent ▸ List.mem_singleton_self sql) with
      hcontrols | ⟨part, hruns, hcompiled, hsettled, hcontained⟩
  · exact absurd hcontrols (not_controlsTransaction_compile hsql)
  · exact ⟨part, hruns, hcompiled, hsettled, fun inner h ↦ (hcontained inner h).2.2⟩

/-- The users are selected, and the post is inserted without its author, although the insertion of
the post asks for one. -/
theorem exec_published : Blog.published.Reachable (fun _ ↦ True) ∧
    Blog.published.clauses.Contains Blog.publishing.statement ∧
    Blog.publishing.clauses.related =
      [.before 0 1 Blog.author (Blog.text "name" "Ada"),
        .after 0 Blog.comments [Blog.text "body" "Deep"]] ∧
    Blog.publishing.clauses.PendingAt 0 1 ∧
    ∃ sent, sent.text = "WITH \"new\" AS (INSERT INTO \"post\"(\"title\", \"authorId\") " ++
        "VALUES ($1, DEFAULT) RETURNING *) SELECT \"user\".* FROM \"user\"" ∧
      sent.values = [.text "Rivers"] ∧
      ((Blog.published.exec ⟨false, true⟩).run Blog.server [.ok ⟨0, []⟩]).result = .ok (.all []) ∧
      ((Blog.published.exec ⟨false, true⟩).run Blog.server [.ok ⟨0, []⟩]).transmissions =
        [sent] := by
  obtain ⟨sql, hsql⟩ : ∃ sql, Blog.published.compile = .ok sql := ⟨_, rfl⟩
  have hplays := Blog.plays_published hsql
  have hsent := transmissions_exec Blog.server (Blog.agree_published _) hplays
  refine ⟨Blog.reachable_published, Blog.contains_published, rfl,
    ⟨_, _, _, rfl, rfl, rfl, rfl⟩, sql, ?_, ?_,
    result_exec Blog.server hplays (Blog.agree_published _) rfl, hsent⟩
  · cases hsql
    decide +kernel
  · cases hsql
    rfl

end Query
end SqlComposer
