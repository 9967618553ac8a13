import SqlComposer.Clause.Change

/-!
# Planning inserted rows

The payloads of an insertion become a matrix. Its columns are those that some row sets, in the order
in which they are first met; a row without a value for a column writes the default of the database.
Keys that name relations become rows of other tables: the row that a foreign key of the inserted row
refers to is inserted before, with a pending cell in its place, and rows that refer to the inserted
row are inserted after.
-/

namespace SqlComposer

/-- What one key of a payload comes to. -/
inductive RowPart where
  /-- The table has no such column. -/
  | skipped
  | cell (column : String) (value : Term)
  | before (relation : Relation) (data : Payload)
  | after (relation : Relation) (rows : List Payload)

namespace RowPart

def cell? : RowPart → Option (String × Cell)
  | skipped => none
  | cell column value => some (column, .value value)
  | before relation _ => some (relation.foreignKey, .pending)
  | after _ _ => none

/-- The related rows that a key asks for, as part of a row of a matrix with given columns. -/
def related? (columns : List String) (row : Nat) : RowPart → Option RelatedInsert
  | before relation data => some (.before row (columns.idxOf relation.foreignKey) relation data)
  | after relation rows => some (.after row relation rows)
  | _ => none

/-- The column of the inserted row that related rows refer to. -/
def referredKey? : RowPart → Option String
  | after relation _ => some relation.primaryKey
  | _ => none

/-- The relation of a key, which has to be looked up in a catalog. -/
def relationOf (table : Table) (catalogued : Bool) (key : String) : Except Error Relation :=
  if catalogued then
    match table.relation? key with
    | some relation => .ok relation
    | none => .error (.unknownRelation table.name key)
  else .error (.nestedWriteWithoutCatalog key)

def ofRow (relation : Relation) (data : Payload) : RowPart :=
  match relation.kind with
  | .belongsTo => before relation data
  | .hasOne | .hasMany => after relation [data]

/-- Several related rows, which not every relation takes. -/
def ofRows (relation : Relation) (rows : List Payload) : Except Error RowPart :=
  match relation.kind with
  | .hasMany => .ok (after relation rows)
  | kind => .error (.singleCreateOnly relation.name kind.name)

/-- What a key with its entry comes to. -/
def ofEntry (table : Table) (catalogued : Bool) : String × Entry → Except Error RowPart
  | (key, .value term) =>
    .ok (if table.takesKey key then cell key (table.encodeTerm key term) else skipped)
  | (key, .create data) => (relationOf table catalogued key).map fun relation => ofRow relation data
  | (key, .createMany rows) =>
    (relationOf table catalogued key).bind fun relation => ofRows relation rows

end RowPart

/-- The parts of the rows of an insertion. -/
structure RowPlan where
  rows : List (List RowPart)

namespace RowPlan

/-- Plans rows, which stop at the first key that cannot be written. -/
def ofPayloads (table : Table) (catalogued : Bool) (payloads : List Payload) :
    Except Error RowPlan := do
  return ⟨← payloads.mapM fun payload => payload.entries.mapM (RowPart.ofEntry table catalogued)⟩

/-- The columns that some row sets, each once. -/
def columns (plan : RowPlan) : List String :=
  ((plan.rows.flatten.filterMap RowPart.cell?).map (·.1)).eraseDups

/-- The last cell among some that belongs to a column; the default if none does. -/
def cellAt (column : String) (cells : List (String × Cell)) : Cell :=
  match cells.reverse.find? fun cell => cell.1 == column with
  | some (_, cell) => cell
  | none => .default

/-- The cells of a row under given columns. -/
def rowCells (columns : List String) (parts : List RowPart) : List Cell :=
  columns.map fun column => cellAt column (parts.filterMap RowPart.cell?)

def cells (plan : RowPlan) : List (List Cell) := plan.rows.map (rowCells plan.columns)

/-- The related rows of the rows from the given number on. -/
def relatedFrom (columns : List String) (row : Nat) : List (List RowPart) → List RelatedInsert
  | [] => []
  | parts :: rest =>
    parts.filterMap (RowPart.related? columns row) ++ relatedFrom columns (row + 1) rest

def related (plan : RowPlan) : List RelatedInsert := relatedFrom plan.columns 0 plan.rows

/-- The columns that related rows refer to, each once. -/
def readBack (plan : RowPlan) : List String :=
  (plan.rows.flatten.filterMap RowPart.referredKey?).eraseDups

end RowPlan
end SqlComposer
