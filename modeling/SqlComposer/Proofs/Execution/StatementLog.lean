import SqlComposer.Proofs.Call.CallFrames
import SqlComposer.Proofs.Nested.AttachedRows
import SqlComposer.Proofs.Script.AnsweredSteps

/-!
# Logging

A query that is logged logs every statement it sends right behind the answer, and nothing else: its
own statement, those of related rows and of a row in its place, and those that open, close or undo
its scope. A query that is not logged logs nothing. Every method leaves the way of logging as it is,
except the one that sets it, and a query on a table of a database starts with that of the database.
-/

namespace SqlComposer

/-- The event for a statement with its answer: the text as it is shown, the number of parameters,
and a warning in case of a failure. -/
def LogSettings.entry (settings : LogSettings) (sql : String) (values : List Literal)
    (reply : Except Error RowSet) : LogEvent where
  level := match reply with
    | .ok _ => settings.level
    | .error _ => .warn
  sql := settings.shown sql
  parameterCount := values.length
  outcome := match reply with
    | .ok result => .rows result.rowCount
    | .error error => .failure error

namespace Script

def Step.logged? : Step → Option LogEvent
  | logged event => some event
  | sent _ _ _ | controlled _ _ | called _ _ => none

/-- The event that is due for a step that sends a statement. -/
def Step.entry? (settings : LogSettings) : Step → Option LogEvent
  | sent sql values reply => some (settings.entry sql values reply)
  | controlled _ _ | called _ _ | logged _ => none

/-- Every statement is logged right behind its answer if there are settings for that, nothing else
is logged, and no statement bypasses the log. -/
inductive Logged (log : Option LogSettings) : List Step → Prop
  | nil : Logged log []
  | called {hook : HookCall} {verdict : Except Error Unit} {rest : List Step}
      (others : Logged log rest) : Logged log (.called hook verdict :: rest)
  | silent {sql : String} {values : List Literal} {reply : Except Error RowSet} {rest : List Step}
      (unlogged : log = none) (others : Logged log rest) :
      Logged log (.sent sql values reply :: rest)
  | noted {settings : LogSettings} {sql : String} {values : List Literal}
      {reply : Except Error RowSet} {rest : List Step} (set : log = some settings)
      (others : Logged log rest) :
      Logged log (.sent sql values reply :: .logged (settings.entry sql values reply) :: rest)

variable {log : Option LogSettings}

theorem Logged.append {earlier later : List Step} (first : Logged log earlier)
    (rest : Logged log later) : Logged log (earlier ++ later) := by
  induction first with
  | nil => exact rest
  | called _ ih => exact .called ih
  | silent unlogged _ ih => exact .silent unlogged ih
  | noted set _ ih => exact .noted set ih

/-- The events that are logged are those that are due for the statements, in order. -/
theorem Logged.entries {steps : List Step} (h : Logged log steps) :
    steps.filterMap Step.logged? =
      log.elim [] fun settings ↦ steps.filterMap (Step.entry? settings) := by
  induction h with
  | nil => cases log <;> rfl
  | called _ ih => cases log <;> exact ih
  | silent unlogged _ ih =>
    cases unlogged
    exact ih
  | noted set _ ih =>
    cases set
    exact congrArg (LogSettings.entry _ _ _ _ :: ·) ih

theorem composes_logged : Composes fun _ script ↦ script.Obeys (Logged log) :=
  composes_obeys .nil .append

end Script

namespace Query

variable {query next : Query}

theorem Becomes.log (becomes : query.Becomes next) : next.log = query.log := by
  cases becomes <;> rfl

theorem log_pushUpdate {assignments : List Assignment}
    (h : query.pushUpdate assignments = .ok next) : next.log = query.log := by
  obtain ⟨_, _, rfl⟩ := pushUpdate_eq_ok h
  rfl

theorem log_update {data : Payload} (h : query.update data = .ok next) : next.log = query.log := by
  obtain ⟨_, _, _, _, h⟩ := update_eq_ok h
  exact log_pushUpdate h

theorem log_orCreate {row : Payload} (h : query.orCreate row = .ok next) :
    next.log = query.log := by
  obtain ⟨_, _, _, _, _, rfl⟩ := orCreate_eq_ok h
  rfl

end Query

/-- Every call but the one that sets it leaves the way of logging as it is. -/
theorem Call.log_apply {query next : Query} {call : Call} (done : call.apply query = .ok next) :
    next.log = call.logging query.log := by
  cases call with
  | sibling =>
    obtain ⟨_, _, rfl⟩ := Query.sibling_eq_ok.1 done
    rfl
  | json =>
    cases done
    rfl
  | insert | insertMany | insertRaw | insertFrom | ignoreConflict | mergeConflict | setConflict
  | delete | truncate | describe | copy => exact (becomes_apply done rfl).log
  | update => exact Query.log_update done
  | updateRaw | increment | decrement => exact Query.log_pushUpdate done
  | orCreate => exact Query.log_orCreate done
  | upsert =>
    rcases Query.upsert_eq_ok.1 done with ⟨-, done⟩ | ⟨-, updated, hupdated, done⟩
    · exact Query.log_orCreate done
    · exact (Query.log_orCreate done).trans (Query.log_update hupdated)
  | _ => exact (frames_apply done rfl).log

namespace Query

open Script

/-- The last call that sets the way of logging decides. -/
theorem log_foldlM {start query : Query} {calls : List Call}
    (built : calls.foldlM Call.apply start = .ok query) :
    query.log = calls.foldl Call.logging start.log := by
  induction calls generalizing start with
  | nil =>
    cases built
    rfl
  | cons call rest ih =>
    obtain ⟨next, hnext, hrest⟩ := bind_eq_ok.1 built
    rw [ih hrest, Call.log_apply hnext, List.foldl_cons]

theorem log_table {database : Database} {name : String} {start : Query}
    (h : database.table name = .ok start) : start.log = database.log := by
  unfold Database.table at h
  split at h <;> cases h
  rfl

variable {query : Query} {log : Option LogSettings}

/-! ## Running -/

theorem obeys_send (sql : String) (values : List Literal) :
    (query.send sql values).Obeys (Logged query.log) := by
  intro σ surroundings memory
  unfold send
  cases query.log with
  | none => exact .silent rfl .nil
  | some settings =>
    simp only [steps]
    cases (surroundings.send memory sql values).1 with
    | ok result => exact .noted rfl .nil
    | error error => exact .noted rfl .nil

/-- Whatever is run for a query is logged as the query is. -/
theorem inherits_logged :
    Inherits (fun _ script ↦ script.Obeys (Logged log)) fun query ↦ query.log = log where
  composes := composes_logged
  passes :=
    { fillCell := fun h _ _ _ ↦ h
      before := fun h built ↦ by
        obtain ⟨_, _, _, _, _, _, rfl⟩ := insertionBefore_eq_ok.1 built
        exact h
      after := fun h built ↦ by
        obtain ⟨_, _, _, _, _, _, rfl⟩ := insertionAfter_eq_ok.1 built
        exact h
      replaced := fun h _ ↦ h }
  own query h := by
    subst h
    rw [sendStatement_eq]
    have composes := @composes_logged query.log
    exact composes.bind (composes.ofExcept _) fun sql ↦ composes.bind (obeys_send _ _) fun reply ↦
      composes.bind (composes.ofExcept _) fun _ ↦ composes.ofExcept _
  hooks _ _ _ _ := obeys_callAll .nil fun _ _ _ _ ↦ .called

theorem obeys_exec (query : Query) (session : Session) :
    (query.exec session).Obeys (Logged query.log) := by
  have composes := @composes_logged query.log
  have hhooks (hooks : List HookCall) : (callAll hooks).Obeys (Logged query.log) :=
    obeys_callAll .nil fun _ _ _ _ ↦ .called
  have hbetween : (query.runBetween session).Obeys (Logged query.log) :=
    obeys_runBetween .nil .append (fun _ ↦ obeys_send _ _) (inherits_logged.runStatements query rfl)
      session
  rw [exec_eq]
  exact composes.bind (hhooks _) fun _ ↦ composes.bind hbetween fun _ ↦
    composes.bind (hhooks _) fun _ ↦ composes.done _

/-- A query that calls lead to is logged as the last of them says that sets the way of logging, or
else as the database is that its first table was taken from. With such settings, the events that its
run logs are those that are due for the statements it sends, one for each, in order and right behind
its answer; without them nothing is logged. No statement bypasses the log. -/
theorem exec_logged {σ : Type} {start : Query} {calls : List Call}
    (built : calls.foldlM Call.apply start = .ok query) (surroundings : Surroundings σ)
    (session : Session) (memory : σ) :
    query.log = calls.foldl Call.logging start.log ∧
    (∀ (database : Database) name, database.table name = .ok start → start.log = database.log) ∧
    ((query.exec session).run surroundings memory).events =
      ((query.exec session).steps surroundings memory).map Step.event ∧
    Logged query.log ((query.exec session).steps surroundings memory) ∧
    ((query.exec session).steps surroundings memory).filterMap Step.logged? =
      query.log.elim [] fun settings ↦
        ((query.exec session).steps surroundings memory).filterMap (Step.entry? settings) := by
  have hlogged := obeys_exec query session σ surroundings memory
  exact ⟨log_foldlM built, fun database name h ↦ log_table h, events_run surroundings _ memory,
    hlogged, hlogged.entries⟩

/-- Users, one of them with a post, are inserted through a database that logs warnings only, by a
query that is logged in the usual way. -/
theorem exec_logged_writers : ∃ start query,
    (Database.mk Blog.catalog (some ⟨.warn, none⟩)).table "user" = .ok start ∧
      [Call.insertMany Blog.writers, .logged .usual].foldlM Call.apply start = .ok query ∧
      start.log = some ⟨.warn, none⟩ ∧ query.log = some .usual ∧
      ((query.exec ⟨false, true⟩).steps Blog.server
          (Blog.answers Blog.everyone)).filterMap Step.logged? =
        ((query.exec ⟨false, true⟩).steps Blog.server
          (Blog.answers Blog.everyone)).filterMap (Step.entry? .usual) := by
  obtain ⟨query, hquery⟩ : ∃ query, [Call.insertMany Blog.writers, .logged .usual].foldlM Call.apply
      ⟨.ofTable Blog.user, some Blog.catalog, some ⟨.warn, none⟩⟩ = .ok query := ⟨_, rfl⟩
  obtain ⟨hlog, hstart, -, -, hentries⟩ :=
    exec_logged hquery Blog.server ⟨false, true⟩ (Blog.answers Blog.everyone)
  have hopened : (Database.mk Blog.catalog (some ⟨.warn, none⟩)).table "user" =
      .ok ⟨.ofTable Blog.user, some Blog.catalog, some ⟨.warn, none⟩⟩ := rfl
  have hset : query.log = some .usual := hlog
  rw [hset] at hentries
  exact ⟨_, query, hopened, hquery, hstart _ _ hopened, hset, hentries⟩

end Query

end SqlComposer
