import SqlComposer.Log
import SqlComposer.Schema.Catalog
import SqlComposer.Statement

/-!
# Queries

A query is a statement under construction together with the catalog it was created from and the way
it is logged. Queries are values: every method gives a new query and leaves the old one as it was,
so a query can be the start of many others. The methods are found in the modules below this one, by
the clause they change.
-/

namespace SqlComposer

structure Query where
  clauses : Clauses Statement
  /-- The tables that relations and joins are looked up in. -/
  catalog : Option Catalog
  log : Option LogSettings

/-- A catalog with the way in which queries created from it are logged. -/
structure Database where
  catalog : Catalog
  log : Option LogSettings

namespace Query

/-- A query on a table outside any catalog. -/
def ofTable (table : Table) : Query := ⟨.ofTable table, none, none⟩

/-- A selection of a fragment, from no table. -/
def ofRaw (fragment : Fragment) : Query :=
  ⟨{ Clauses.empty with selection := [⟨.raw fragment, none⟩] }, none, none⟩

def statement (query : Query) : Statement := ⟨query.clauses⟩

def compile (query : Query) : Except Error CompiledSql := query.statement.compile

def modify (query : Query) (change : Clauses Statement → Clauses Statement) : Query :=
  { query with clauses := change query.clauses }

def withClauses (query : Query) (clauses : Clauses Statement) : Query := { query with clauses }

/-- Logs the query when it runs. -/
def logged (query : Query) (settings : LogSettings) : Query := { query with log := some settings }

/-- A query on another table of the same catalog. -/
def sibling (query : Query) (table : String) : Except Error Query :=
  match query.catalog with
  | none => .error (.catalogMissing table)
  | some catalog =>
    match catalog.table? table with
    | none => .error (.unknownTable table)
    | some table => .ok ⟨.ofTable table, query.catalog, query.log⟩

end Query

def Database.table (database : Database) (name : String) : Except Error Query :=
  match database.catalog.table? name with
  | none => .error (.unknownTable name)
  | some table => .ok ⟨.ofTable table, some database.catalog, database.log⟩

end SqlComposer
