import SqlComposer.Description.Reading
import SqlComposer.Schema.Catalog

/-!
# Descriptions of tables

A table is an object with its name, its columns as lists of a name, a type and marks, and its
relations as lists of five texts. A catalog is described by its tables and its settings.
-/

namespace SqlComposer.Description

def plainTypes : List (String × ColumnType) :=
  [("boolean", .boolean), ("smallint", .smallInt), ("integer", .integer), ("bigint", .bigInt),
    ("real", .real), ("double", .double), ("numeric", .numeric none), ("text", .text),
    ("varchar", .varchar none), ("json", .json), ("jsonb", .jsonb), ("uuid", .uuid),
    ("timestamp", .timestamp), ("timestamptz", .timestampTz), ("date", .date), ("bytea", .bytea)]

def readType (json : Json) : Reading ColumnType := do
  match json with
  | .text word => need "type" (plainTypes.lookup word)
  | .list [.text "numeric", precision, scale] =>
    return .numeric (some (← nat precision, ← nat scale))
  | .list [.text "varchar", length] => return .varchar (some (← nat length))
  | _ => malformed "type"

def markColumn (column : Column) (mark : String) : Reading Column :=
  match mark with
  | "pk" => .ok { column with primaryKey := true }
  | "hidden" => .ok { column with hidden := true }
  | "nullable" => .ok { column with nullable := true }
  | "default" => .ok { column with hasDefault := true }
  | _ => malformed "mark of a column"

def readTableColumn (json : Json) : Reading Column := do
  match ← items json with
  | name :: type :: marks =>
    (← marks.mapM text).foldlM markColumn (Column.plain (← text name) (← readType type))
  | _ => malformed "column"

def relationKinds : List (String × RelationKind) :=
  [("belongs_to", .belongsTo), ("has_one", .hasOne), ("has_many", .hasMany)]

def readRelation (json : Json) : Reading Relation := do
  let [kind, name, table, foreignKey, primaryKey] ← texts json | malformed "relation"
  return ⟨name, ← need "kind of a relation" (relationKinds.lookup kind), table, foreignKey,
    primaryKey⟩

/-- Columns and relations are added in order. -/
def readTable (json : Json) : Reading Table := do
  let columns ← listField json "columns" readTableColumn
  let relations ← listField json "relations" readRelation
  let start : Table := { Table.named (← field json "name" text) with
    schema := ← optional json "schema" text, updatedAt := ← optional json "updated_at" text }
  return relations.foldl Table.addRelation (columns.foldl Table.addColumn start)

def writeTable (table : Table) : Json :=
  .object [("quoted", .text (quoteTable table.schema table.name)),
    ("pks", .list (table.primaryKeys.map .text)),
    ("default_select",
      (table.defaultSelection.map fun names => .list (names.map .text)).getD .null),
    ("columns", .list (table.columns.map fun column =>
      .list [.text column.name, .text column.type.toSql, .bool column.nullable,
        .bool column.hasDefault, .bool column.primaryKey, .bool column.hidden])),
    ("relations", .list (table.relations.map fun relation =>
      .list ([relation.kind.name, relation.name, relation.table, relation.foreignKey,
        relation.primaryKey].map .text))),
    ("updated_at", textOrNull table.updatedAt)]

def keylessPolicies : List (String × KeylessPolicy) :=
  [("error", .refuse), ("warn", .warn), ("ignore", .accept)]

/-- Tables without a primary key are refused unless the description says otherwise. -/
def readCatalogSettings (json : Json) : Reading CatalogSettings := do
  let keyless ← optional json "no_pk" text
  return ⟨← need "policy" (keylessPolicies.lookup (keyless.getD "error")),
    ← optional json "schema" text⟩

end SqlComposer.Description
