import SqlComposer.Statement

/-!
# What a statement mentions

A statement asks for names, string constants, functions, fragments and bound values. This module
lists them clause by clause, in the order in which they are meant to stand in the text, without any
keyword and without deciding how each of them is spelled. A column without a table mentions the
owner of the place where it stands. An aggregate compared with an empty list has a constant result:
nothing of it is written, but the values bound in it are still sent, and so they count as lost.
-/

namespace SqlComposer

/-- Something that a statement asks to be written. -/
inductive Mention where
  | name (text : String)
  /-- A string constant of the library's own. -/
  | constant (content : String)
  /-- A path into a JSON value, to be written as a string constant. -/
  | path (path : List JsonKey)
  /-- A text among the options of a copy, to be written as a string constant. -/
  | option (content : String)
  | function (name : String)
  | format (word : String)
  | value (value : Literal)
  /-- A bound value without a place in the text. -/
  | lost (value : Literal)
  | fragment (fragment : Fragment)

namespace Mention

def values : Mention → List Literal
  | .value literal | .lost literal => [literal]
  | .fragment raw => raw.values
  | _ => []

/-- What remains of mentions whose text is left out: their values. -/
def losses (mentions : List Mention) : List Mention := (mentions.flatMap values).map lost

end Mention

/-! ## Columns and terms -/

/-- The column behind its table, or behind the owner of the place where it stands. -/
def ColumnRef.mentions (owner : Option String) (column : ColumnRef) : List Mention :=
  (column.table.or owner).toList.map .name ++ if column.isStar then [] else [.name column.name]

def Term.mentions (owner : Option String) : Term → List Mention
  | .literal value => [.value value]
  | .raw fragment => [.fragment fragment]
  | .column reference => reference.mentions owner

def OrderItem.mentions (owner : Option String) : OrderItem → List Mention
  | .column reference _ => reference.mentions owner
  | .raw fragment => [.fragment fragment]

def GroupItem.mentions (owner : Option String) : GroupItem → List Mention
  | .column reference => reference.mentions owner
  | .raw fragment => [.fragment fragment]

def Window.mentions (owner : Option String) (window : Window) : List Mention :=
  window.partition.flatMap (ColumnRef.mentions owner) ++
    window.order.flatMap (OrderItem.mentions owner)

def WindowCall.mentions (owner : Option String) (call : WindowCall) : List Mention :=
  .function call.function :: call.argument.toList.flatMap (ColumnRef.mentions owner) ++
    match call.window with
    | .named window => [.name window]
    | .window window => window.mentions owner

def JsonExpr.mentions (owner : Option String) : JsonExpr → List Mention
  | .column reference => reference.mentions owner
  | .set target path value _ | .insert target path value _ =>
    target.mentions owner ++ [.path path, .value (.json value)]
  | .remove target path => target.mentions owner ++ [.path path]
  | .query target path options =>
    target.mentions owner ++ .value (.text path) ::
      options.toList.map fun (bindings, _) ↦ .value (.json bindings)

/-! ## Conditions -/

/-- The mentions of a comparison, given those of its left-hand side. -/
def Comparison.mentions (left : List Mention) (comparison : Comparison)
    (operand : Comparand (List Mention)) (owner : Option String) : List Mention :=
  match operand with
  | .term term =>
    if (comparison = .equals ∨ comparison = .not) ∧ term.isNull then left
    else left ++
      (if comparison.isPattern ∧ comparison.anyBefore then [.constant "%"] else []) ++
      term.mentions owner ++
      if comparison.isPattern ∧ comparison.anyAfter then [.constant "%"] else []
  | .list [] => Mention.losses left
  | .list terms => left ++ terms.flatMap (Term.mentions owner)
  | .range lower upper => left ++ lower.mentions owner ++ upper.mentions owner
  | .query query => left ++ query

mutual

def Condition.mentions (owner : Option String) : Condition (List Mention) → List Mention
  | .compare column comparison operand =>
    comparison.mentions (column.mentions owner) operand owner
  | .every conditions | .any conditions => Condition.mentionsOf owner conditions
  | .not condition => condition.mentions owner
  | .hasRow query => query
  | .raw fragment => [.fragment fragment]
  | .aggregate call comparison operand => comparison.mentions (call.mentions owner) operand owner

def Condition.mentionsOf (owner : Option String) : List (Condition (List Mention)) → List Mention
  | [] => []
  | condition :: rest => condition.mentions owner ++ Condition.mentionsOf owner rest

def Condition.mentionsIn (owner : Option String) :
    List (List (Condition (List Mention))) → List Mention
  | [] => []
  | group :: rest => Condition.mentionsOf owner group ++ Condition.mentionsIn owner rest

def AggregateCall.mentions (owner : Option String) : AggregateCall (List Mention) → List Mention
  | ⟨function, argument, _, order, _, ⟨groups⟩⟩ =>
    .function function :: argument.toList.flatMap (ColumnRef.mentions owner) ++
      order.flatMap (OrderItem.mentions owner) ++ Condition.mentionsIn owner groups

end

def Filter.mentions (owner : Option String) (filter : Filter (List Mention)) : List Mention :=
  Condition.mentionsIn owner filter.groups

/-! ## Sources -/

/-- The other name of an item, unless it is the name that the item has anyway. -/
def Mention.renamed (name : String) (label : Option String) : List Mention :=
  match label with
  | some label => if label = name then [] else [.name label]
  | none => []

def Table.mentions (table : Table) : List Mention :=
  table.schema.toList.map .name ++ [.name table.name]

def Body.mentions : Body (List Mention) → List Mention
  | .query sub => sub
  | .raw fragment => [.fragment fragment]

def JoinTarget.mentions : JoinTarget (List Mention) → List Mention
  | .table name schema label =>
    schema.toList.map .name ++ .name name :: Mention.renamed name label
  | .query sub label => sub ++ [.name label]

/-- The mentions of a join. The condition of a cross join is not written. -/
def Join.mentions (join : Join (List Mention)) : List Mention :=
  join.target.mentions ++
    if join.kind = .cross then [] else join.condition.mentions (some join.target.aliasName)

def CommonTable.mentions (declared : CommonTable (List Mention)) : List Mention :=
  .name declared.name :: declared.columns.map .name ++ declared.body.mentions

/-! ## Selections -/

def SelectExpr.mentions (owner : Option String) : SelectExpr (List Mention) → List Mention
  | .column reference => reference.mentions owner
  | .raw fragment => [.fragment fragment]
  | .query sub => sub
  | .json expression => expression.mentions owner
  | .term value => value.mentions owner
  | .count argument => argument.toList.flatMap (ColumnRef.mentions owner)
  | .window call => call.mentions owner

def SelectItem.mentions (owner : Option String) (item : SelectItem (List Mention)) :
    List Mention :=
  item.expression.mentions owner ++ item.writtenName?.toList.map .name

/-- Whether an item hands back a column of the statement's own under the name of the column. -/
def SelectItem.handsBack {Sub : Type} (owner : Option String) (column : String)
    (item : SelectItem Sub) : Bool :=
  match item.label, item.expression with
  | none, .column reference | none, .term (.column reference) =>
    reference.table.or owner == owner && reference.name == column
  | _, _ => false

/-! ## Changes -/

def Assignment.mentions : Assignment → List Mention
  | .set column value => .name column :: value.mentions none
  | .raw fragment => [.fragment fragment]
  | .increment column amount | .decrement column amount =>
    .name column :: .name column :: amount.mentions none

def Cell.mentions : Cell → List Mention
  | .value term => term.mentions none
  | .default | .pending => []

def ConflictTarget.mentions : ConflictTarget → List Mention
  | .columns names => names.map .name
  | .raw fragment => [.fragment fragment]
  | .inferred => []

def MergeSpec.mentions (inserted : List String) : MergeSpec → List Mention
  | .inserted => inserted.flatMap fun column ↦ [.name column, .name column]
  | .columns names => names.flatMap fun column ↦ [.name column, .name column]
  | .values assigned => assigned.flatMap fun (column, term) ↦ .name column :: term.mentions none
  | .raw fragment => [.fragment fragment]

def Conflict.mentions (conflict : Conflict) (inserted : List String)
    (filter : Filter (List Mention)) (owner : Option String) : List Mention :=
  conflict.target.mentions ++
    match conflict.action with
    | .ignore => []
    | .merge spec => spec.mentions inserted ++ filter.mentions owner

/-- The columns of an insertion and their values; without columns there are only defaults. -/
def Insertion.sourceMentions (insertion : Insertion (List Mention)) : List Mention :=
  match insertion.source with
  | .rows rows =>
    if insertion.columns.isEmpty then []
    else insertion.columns.map .name ++ rows.flatMap fun row ↦ row.flatMap Cell.mentions
  | .raw fragment => insertion.columns.map .name ++ [.fragment fragment]
  | .query sub => insertion.columns.map .name ++ sub

def Insertion.mentions (insertion : Insertion (List Mention)) (filter : Filter (List Mention))
    (owner : Option String) : List Mention :=
  insertion.sourceMentions ++
    match insertion.conflict with
    | some conflict => conflict.mentions insertion.columns filter owner
    | none => []

/-! ## Bulk statements -/

def CopyOptions.mentions (options : CopyOptions) : List Mention :=
  let target : List Mention := match options.target with
    | .path text | .program text => [.option text]
    | .client => []
  options.columns.map .name ++ target ++ options.format.toList.map .format ++
    options.delimiter.toList.map .option ++ options.null.toList.map .option ++
    options.quote.toList.map .option ++ options.escape.toList.map .option ++
    options.forceQuote.map .name ++ options.forceNotNull.map .name ++
    options.forceNull.map .name ++ options.encoding.toList.map .option

/-- The description of a table takes all names as values. -/
def Table.describedMentions (table : Table) (column : Option String) : List Mention :=
  .value (.text table.name) :: table.schema.toList.map (fun schema ↦ .value (.text schema)) ++
    column.toList.map fun column ↦ .value (.text column)

/-! ## Locks -/

def RowLock.mentions (lock : RowLock) : List Mention :=
  match lock.tables with
  | some (.names tables) => tables.map .name
  | some (.raw fragment) => [.fragment fragment]
  | none => []

namespace Clauses

variable (clauses : Clauses (List Mention))

/-- The target of a change with its alias. -/
def targetMentions (table : Table) : List Mention :=
  table.mentions ++ Mention.renamed table.name clauses.label

def filterMentions : List Mention := clauses.filter.mentions clauses.aliasName

/-- The columns selected when no item is. -/
def defaultMentions : List Mention :=
  let visible : Option (List String) := match clauses.table, clauses.source with
    | some table, .table => if clauses.selectsAll then none else table.defaultSelection
    | _, _ => none
  match visible with
  | some columns =>
    columns.flatMap fun column ↦ (ColumnRef.unqualified column).mentions clauses.aliasName
  | none => clauses.aliasName.toList.map .name

def projectionMentions : List Mention :=
  if clauses.selection.isEmpty then clauses.defaultMentions
  else clauses.selection.flatMap (SelectItem.mentions clauses.aliasName)

def sourceMentions : List Mention :=
  match clauses.source with
  | .table => clauses.table.toList.flatMap clauses.targetMentions
  | .body (.query sub) => sub ++ clauses.aliasName.toList.map .name
  | .body (.raw fragment) => .fragment fragment :: clauses.label.toList.map .name

def windowMentions : List Mention :=
  clauses.windows.flatMap fun (name, window) ↦ .name name :: window.mentions clauses.aliasName

/-- The number of rows asked for, one for shapes of a single row. -/
def rowLimit : Option Int := if clauses.shape.limitsToOne then some 1 else clauses.limit

def numberMentions (number : Option Int) : List Mention :=
  number.toList.map fun number ↦ .value (.int number)

def selectMentions : List Mention :=
  (clauses.distinct.getD []).flatMap (ColumnRef.mentions clauses.aliasName) ++
    clauses.projectionMentions ++ clauses.sourceMentions ++
    clauses.joins.flatMap Join.mentions ++ clauses.filterMentions ++
    clauses.groups.flatMap (GroupItem.mentions clauses.aliasName) ++
    clauses.having.mentions clauses.aliasName ++ clauses.windowMentions ++
    (clauses.combinations.flatMap fun combination ↦ combination.operand.mentions) ++
    clauses.order.flatMap (OrderItem.mentions clauses.aliasName) ++
    numberMentions clauses.rowLimit ++ numberMentions clauses.offset ++
    clauses.lock.toList.flatMap RowLock.mentions

/-- The columns that are handed back only because related rows refer to them, each once. -/
def extraColumns : List String :=
  (clauses.readBack.filter fun column ↦
    !clauses.selection.any (SelectItem.handsBack clauses.aliasName column)).eraseDups

/-- Whether a change hands back all columns without naming any. -/
def returnsStar : Bool :=
  clauses.selection.isEmpty && (clauses.selectsAll ||
    match clauses.verb with
    | .insert _ => clauses.shape.returnsRows
    | _ => false)

def returningMentions : List Mention :=
  if clauses.returnsStar then []
  else clauses.selection.flatMap (SelectItem.mentions clauses.aliasName) ++
    clauses.extraColumns.flatMap fun column ↦
      (ColumnRef.unqualified column).mentions clauses.aliasName

def updateMentions (table : Table) (assignments : List Assignment) : List Mention :=
  clauses.targetMentions table ++ assignments.flatMap Assignment.mentions ++
    table.updatedAt.toList.map .name ++ clauses.filterMentions

/-- The joined tables of a deletion stand in front of its filter, their conditions behind it. -/
def deleteMentions (table : Table) : List Mention :=
  clauses.targetMentions table ++ (clauses.joins.flatMap fun join ↦ join.target.mentions) ++
    clauses.filterMentions ++
    clauses.joins.flatMap fun join ↦ join.condition.mentions (some join.target.aliasName)

def verbMentions : List Mention :=
  match clauses.verb, clauses.table with
  | .select, _ => clauses.selectMentions
  | .truncate _, some table => table.mentions
  | .describe column, some table => table.describedMentions column
  | .copy options, some table => table.mentions ++ options.mentions
  | .insert insertion, some table =>
    clauses.targetMentions table ++ insertion.mentions clauses.filter clauses.aliasName ++
      clauses.returningMentions
  | .update assignments, some table =>
    clauses.updateMentions table assignments ++ clauses.returningMentions
  | .delete, some table => clauses.deleteMentions table ++ clauses.returningMentions
  | _, none => []

def mentions : List Mention :=
  clauses.commonTables.flatMap CommonTable.mentions ++ clauses.verbMentions

end Clauses

/-- Everything that a statement mentions, in the order in which it is to be written. -/
def Statement.mentions (statement : Statement) : List Mention := statement.fold Clauses.mentions

end SqlComposer
