import SqlComposer.Query.Related
import SqlComposer.Script

/-!
# Running queries

Running a query means, in this order: calling the hooks before it; opening a transaction, or a
savepoint inside one, if several statements belong together; inserting the rows that its rows refer
to; sending its own statement and checking the number of rows; inserting the rows that refer to its
rows, or a row in its place if it matched none; closing the transaction, undone if anything failed;
and calling the hooks after it.
-/

namespace SqlComposer

/-- The name of the savepoint that a run opens; no run opens more than one. -/
class SavepointName where
  text : String
  deriving DecidableEq, Repr

instance : SavepointName := ⟨"pgqb_sp_N"⟩

/-- What a session guarantees about the statements sent through it. -/
structure Session where
  /-- Whether a transaction is open already. -/
  inTransaction : Bool
  /-- Whether no other statements can come between. -/
  exclusive : Bool
  [savepoint : SavepointName]
  deriving DecidableEq, Repr

/-! ## Scopes -/

/-- What keeps several statements together. -/
inductive Scope where
  | transaction
  /-- Part of a transaction that is open already, under a name. -/
  | savepoint (name : String)
  deriving DecidableEq, Repr

namespace Scope

def opening : Scope → String
  | transaction => "BEGIN"
  | savepoint name => "SAVEPOINT " ++ name

def closing : Scope → String
  | transaction => "COMMIT"
  | savepoint name => "RELEASE SAVEPOINT " ++ name

def undoing : Scope → String
  | transaction => "ROLLBACK"
  | savepoint name => "ROLLBACK TO SAVEPOINT " ++ name

/-- The scope that a session needs; a session that others may interrupt cannot open one. -/
def ofSession (session : Session) : Except Error Scope :=
  if session.inTransaction then .ok (savepoint session.savepoint.text)
  else if session.exclusive then .ok transaction
  else .error .transactionNeeded

end Scope

namespace Query

/-! ## Single steps -/

/-- Sends a statement and logs it if the query is logged. -/
def send (query : Query) (sql : String) (values : List Literal) :
    Script (Except Error RowSet) :=
  .send sql values fun reply =>
    match query.log with
    | none => .done reply
    | some settings =>
      let outcome : LogOutcome := match reply with
        | .ok result => .rows result.rowCount
        | .error error => .failure error
      .log (settings.event sql values.length outcome) (.done reply)

def hooksBefore (query : Query) : List HookCall :=
  let hooks := query.clauses.hooks
  match query.clauses.verb with
  | .insert _ => hooks.beforeInsert.map fun name => ⟨.beforeInsert, name, query, none⟩
  | .update _ => hooks.beforeUpdate.map fun name => ⟨.beforeUpdate, name, query, none⟩
  | _ => []

def hooksAfter (query : Query) (output : Output) : List HookCall :=
  let hooks := query.clauses.hooks
  match query.clauses.verb with
  | .insert _ => hooks.afterInsert.map fun name => ⟨.afterInsert, name, query, some output⟩
  | .update _ => hooks.afterUpdate.map fun name => ⟨.afterUpdate, name, query, some output⟩
  | _ => []

/-- Puts the key of a related row into the cell that waits for it. -/
def fillCell (query : Query) (row column : Nat) (key : Literal) : Query :=
  query.modify fun clauses =>
    match clauses.verb with
    | .insert insertion => { clauses with verb := .insert (insertion.fill row column key) }
    | _ => clauses

/-- The key that the insertion of a related row handed back. -/
def returnedKey (relation : Relation) (output : Output) : Except Error Literal := do
  let row ← output.record
  match row.bind fun row => row.get? relation.primaryKey with
  | some key => return key
  | none => throw (.relatedKeyMissing relation.table relation.primaryKey)

/-- The key of a row of the query that related rows refer to. -/
def parentKey (result : RowSet) (row : Nat) (relation : Relation) : Except Error Literal :=
  match result.rows[row]?.bind fun row => row.get? relation.primaryKey with
  | some key => .ok key
  | none => .error (.parentMissing relation.table)

/-- Sends the statement of a query. Values that arrive as text are read as the types of the table.
-/
def sendStatement (query : Query) : Script RowSet := do
  let sql ← Script.ofExcept query.compile
  let result ← Script.ofExcept (← query.send sql.text sql.values)
  match query.clauses.table with
  | none => return result
  | some table =>
    let rows ← Script.ofExcept (result.rows.mapM (Row.decodeText table))
    return { result with rows }

def matchedRows (query : Query) (result : RowSet) : Nat :=
  if query.clauses.verb.isMutation then result.rowCount else result.rows.length

/-- Refuses a number of rows that the shape of the query does not allow: none where one has to
exist, several where a change was to touch one. -/
def checkRowCount (query : Query) (matched : Nat) : Except Error Unit :=
  let shape := query.clauses.shape
  if shape.requiresRow && matched == 0 then
    .error (.rowMissing (query.clauses.table.map Table.name))
  else if shape.expectsOne && query.clauses.verb.isMutation && matched > 1 then
    .error (.moreThanOneRow matched)
  else .ok ()

/-- What the caller of a query gets for a result. -/
def outputOf (query : Query) (result : RowSet) : Output :=
  .ofRowSet query.clauses.shape query.clauses.returnsRecords result

/-! ## Running -/

/-- What running a query came to. -/
structure Outcome where
  output : Output
  /-- The insertion that ran in place of the query, if it matched no row. -/
  created : Option Query

mutual

/-- Runs a query with its related rows, without the hooks before and after it and outside any
scope. -/
def runStatements (query : Query) : Script Outcome :=
  (runBefore query query query.clauses.related).bind fun filled =>
  filled.sendStatement.bind fun result =>
  let matched := filled.matchedRows result
  let finish : Script Outcome :=
    (Script.ofExcept (filled.checkRowCount matched)).bind fun () =>
    (runAfter query result query.clauses.related).bind fun () =>
    .done ⟨filled.outputOf result, none⟩
  match h : query.clauses.fallback with
  | none => finish
  | some fallback =>
    if matched > 1 then .fail (.moreThanOneRow matched)
    else if matched = 0 then
      have := pendingWrites_fallback_lt h
      let created := query.withClauses fallback.clauses
      (Script.callAll created.hooksBefore).bind fun () =>
      (runStatements created).bind fun outcome =>
      .done ⟨outcome.output, some created⟩
    else finish
termination_by 2 * query.pendingWrites + 1
decreasing_by
  · have := totalWrites_related_le query
    omega
  · have := totalWrites_related_le query
    omega
  · omega

/-- Inserts the rows that rows of a query refer to and fills their keys into its cells. -/
def runBefore (query filled : Query) (related : List RelatedInsert) : Script Query :=
  match related with
  | [] => .done filled
  | .before row column relation data :: rest =>
    match h : query.insertionBefore relation data with
    | .error error => .fail error
    | .ok insertion =>
      have := pendingWrites_insertionBefore_le h
      (runStatements insertion).bind fun outcome =>
      (Script.ofExcept (returnedKey relation outcome.output)).bind fun key =>
      runBefore query (filled.fillCell row column key) rest
  | .after _ _ _ :: rest => runBefore query filled rest
termination_by 2 * RelatedInsert.totalWrites related
decreasing_by
  all_goals
    simp only [RelatedInsert.totalWrites, RelatedInsert.writes]
    omega

def runAfter (query : Query) (result : RowSet) (related : List RelatedInsert) : Script Unit :=
  match related with
  | [] => .done ()
  | .after row relation rows :: rest =>
    (Script.ofExcept (parentKey result row relation)).bind fun key =>
    match h : query.insertionAfter relation rows key with
    | .error error => .fail error
    | .ok insertion =>
      have := pendingWrites_insertionAfter_le h
      (runStatements insertion).bind fun _ => runAfter query result rest
  | .before _ _ _ _ :: rest => runAfter query result rest
termination_by 2 * RelatedInsert.totalWrites related
decreasing_by
  all_goals
    simp only [RelatedInsert.totalWrites, RelatedInsert.writes]
    omega

end

/-- Runs the statements of a query in a scope of their own, which is undone if anything fails. -/
def runScoped (query : Query) (session : Session) : Script Outcome := do
  let scope ← Script.ofExcept (Scope.ofSession session)
  discard <| Script.ofExcept (← query.send scope.opening [])
  match ← query.runStatements.attempt with
  | .ok outcome =>
    discard <| Script.ofExcept (← query.send scope.closing [])
    return outcome
  | .error error =>
    match ← query.send scope.undoing [] with
    | .ok _ => Script.fail error
    | .error failure => Script.fail (.rollbackFailed error failure)

/-- Runs a query in a session. -/
def exec (query : Query) (session : Session) : Script Output := do
  Script.callAll query.hooksBefore
  let outcome ←
    if query.clauses.inTransaction then query.runScoped session else query.runStatements
  Script.callAll ((outcome.created.getD query).hooksAfter outcome.output)
  return outcome.output

/-- Opens a transaction, runs a query in it and commits it. The transaction is rolled back when
anything fails but the commit itself. -/
def execInTransaction (query : Query) [SavepointName] : Script Output := do
  match ← Script.control "START TRANSACTION" .done with
  | .error error => undone error
  | .ok () =>
    match ← (query.exec ⟨true, true⟩).attempt with
    | .error error => undone error
    | .ok output =>
      Script.control "COMMIT" Script.ofExcept
      return output
where
  undone (error : Error) : Script Output := .control "ROLLBACK" fun _ => .fail error

/-! ## Results in other forms -/

def execute (query : Query) (session : Session) : Script Nat := do
  let query := if query.clauses.verb.isMutation then query.count else query
  Script.ofExcept (← query.exec session).executed

/-- A model that rows can be read as. -/
abbrev Model (α : Type) := Json → Option α

def modelOf {α : Type} (model : Model α) (row : Row) : Except Error α :=
  match model row.toJson with
  | some value => .ok value
  | none => .error (.serialization "the row does not fit the model")

def fetchAll {α : Type} (query : Query) (model : Model α) (session : Session) :
    Script (List α) := do
  let rows ← Script.ofExcept (← query.exec session).records
  Script.ofExcept (rows.mapM (modelOf model))

/-- The first row as a model, if there is one. -/
def fetchOptional {α : Type} (query : Query) (model : Model α) (session : Session) :
    Script (Option α) := do
  let row ← Script.ofExcept (← query.exec session).record
  Script.ofExcept (row.mapM (modelOf model))

/-- The first row as a model, which has to exist. -/
def fetchOne {α : Type} (query : Query) (model : Model α) (session : Session) : Script α := do
  match ← query.fetchOptional model session with
  | some value => return value
  | none => Script.fail .noRowFetched

end Query
end SqlComposer
