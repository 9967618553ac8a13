import SqlComposer.Schema.Table

/-!
# Catalogs

A catalog is a checked set of tables: names are distinct, relations lead to tables of the set, and
every table has a primary key unless the settings say otherwise. Tables without a schema take the
schema of the settings.
-/

namespace SqlComposer

/-- What to do with a table that has no primary key. -/
inductive KeylessPolicy where
  | refuse
  | warn
  | accept
  deriving DecidableEq, Repr

/-- The settings a catalog is built with. -/
structure CatalogSettings where
  keyless : KeylessPolicy
  schema : Option String

/-- Tables by name, in the order in which they were registered. -/
structure Catalog where
  tables : List Table

namespace Catalog

def table? (catalog : Catalog) (name : String) : Option Table :=
  catalog.tables.find? fun table => table.name == name

def size (catalog : Catalog) : Nat := catalog.tables.length

/-- The table in the schema it takes from the settings. -/
def placed (settings : CatalogSettings) (table : Table) : Table :=
  { table with schema := table.schema.or settings.schema }

def keylessWarning (table : Table) : String := s!"Table {table.name} has no primary key"

/-- The warnings that registering the tables gives, up to the first failure. -/
def warnings (settings : CatalogSettings) (registered : List String) : List Table → List String
  | [] => []
  | table :: rest =>
    let keyless := table.primaryKeys.isEmpty
    if keyless && settings.keyless == .refuse then []
    else
      (if keyless && settings.keyless == .warn then [keylessWarning table] else []) ++
        if table.name ∈ registered then []
        else warnings settings (table.name :: registered) rest

/-- Registers tables one by one, in front of those registered already. -/
def register (settings : CatalogSettings) (registered : List Table) :
    List Table → Except Error (List Table)
  | [] => .ok registered
  | table :: rest =>
    if table.primaryKeys.isEmpty && settings.keyless == .refuse then
      .error (.tableWithoutPrimaryKey table.name)
    else if registered.any fun other => other.name == table.name then
      .error (.tableRegisteredTwice table.name)
    else register settings (registered ++ [placed settings table]) rest

/-- The first relation of the tables that leads out of them. -/
def strayRelation? (tables : List Table) : Option Error :=
  tables.findSome? fun table => table.relations.findSome? fun relation =>
    if tables.any fun target => target.name == relation.table then none
    else some (.relationToUnknownTable table.name relation.name relation.table)

def build (settings : CatalogSettings) (tables : List Table) : Except Error Catalog := do
  let registered ← register settings [] tables
  match strayRelation? registered with
  | some error => .error error
  | none => .ok ⟨registered⟩

end Catalog
end SqlComposer
