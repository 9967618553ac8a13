/-!
# Errors as causes

Every failure of the library is one constructor of `Error`, named for its cause. The wording a
caller reads is produced in one place, `Error.message`, and the broad class a caller branches on
is `Error.kind`. Construction errors are found while a query is being put together or written;
the other kinds come from running it.
-/

namespace SqlComposer

/-- The broad class of a failure. -/
inductive ErrorKind where
  | construction
  | moreThanOneRow
  | createFromMultipleRows
  | notFound
  | query
  | decode
  | serialization
  | configuration
  deriving DecidableEq, Repr

/-- What is wrong with a condition given as a JSON object. -/
inductive ShorthandFault where
  /-- `role` names the part that has to be an object. -/
  | notAnObject (role : String)
  /-- `AND`, `OR` or `NOT` was given a scalar. -/
  | notAnObjectOrList
  | noComparisons (column : String)
  | notAList (comparison : String)
  | notAPair
  | notAScalar (comparison : String)
  | notAColumnMap (function : String)
  | notABoolean (option : String)
  | directionNotText
  | filterOrNotAList
  | nothingCompared (function column : String)
  deriving DecidableEq, Repr

/-- The reason given after the words that introduce a malformed shorthand. -/
def ShorthandFault.message : ShorthandFault → String
  | .notAnObject role => s!"{role} must be a JSON object"
  | .notAnObjectOrList => "AND/OR/NOT take an object or an array of objects"
  | .noComparisons column => s!"empty operator map for '{column}'"
  | .notAList comparison => s!"{comparison} takes an array"
  | .notAPair => "between takes a two-element array"
  | .notAScalar comparison => s!"{comparison} takes a scalar value"
  | .notAColumnMap function => s!"aggregate '{function}' takes an object of column conditions"
  | .notABoolean option => s!"{option} takes a boolean"
  | .directionNotText => "order direction must be a string"
  | .filterOrNotAList => "filterOr takes an array of objects"
  | .nothingCompared function column => s!"aggregate '{function}' on '{column}' has no comparison"

/-- Everything that can go wrong, by cause. -/
inductive Error where
  -- Names.
  | emptyIdentifier
  | nulInIdentifier
  | trailingDot
  | expectedDot (found : Char)
  | starNotLast
  | unclosedQuote
  | emptyQuotedName
  | invalidCharacter (text : String) (found : Char)
  | emptySegment
  | notAColumn (text : String)
  -- Fragments and conditions.
  | markCount (sql : String) (marks values : Nat)
  | unknownComparison (key : String)
  | operandMismatch (comparison : String)
  | operandMismatchFor (comparison column : String)
  | invalidFunctionName (name : String)
  | unknownDirection (text : String)
  | malformedShorthand (fault : ShorthandFault)
  -- Building queries.
  | unknownTable (name : String)
  | catalogMissing (table : String)
  | tableMissing (purpose : String)
  | noPrimaryKey (table : String)
  | compositePrimaryKey (table : String)
  | distinctOnNothing
  | lockMissing
  | jsonPathUnnamed
  | invalidCopyFormat (format : String)
  /-- The action is not possible once the statement is of the given kind. -/
  | wrongVerb (action statement : String)
  | nothingInserted
  | rowsWithoutColumns
  | dataNotAnObject
  | nestedWriteUnsupported (key purpose : String)
  | nestedWriteWithoutCatalog (key : String)
  | unknownRelation (table key : String)
  | singleCreateOnly (relation kind : String)
  | nestedDefaults
  | sourceNotASelect
  | sourceWithoutSelection
  | sourceColumnUnnamed
  | conflictWithoutInsert
  | conflictTargetMissing
  | unguarded (action : String)
  | fallbackWithoutCondition
  -- Writing statements.
  | sourceUnnamed
  | conditionOnInsert
  | conditionAfterDoNothing
  | nothingMerged
  | joinsInUpdate
  | nothingUpdated
  -- Running queries.
  | transactionNeeded
  /-- The rollback after `cause` failed as well. -/
  | rollbackFailed (cause failure : Error)
  /-- The output does not hold what was asked of it. -/
  | wrongShape (wanted found : String)
  /-- A hook or a connection refused with a construction error of its own. -/
  | refused (reason : String)
  | moreThanOneRow (count : Nat)
  | createFromMultipleRows
  | rowMissing (table : Option String)
  | relatedKeyMissing (table key : String)
  | parentMissing (table : String)
  | noRowFetched
  /-- A connection reported that something was not found. -/
  | missing (reason : String)
  | query (reason : String)
  | decode (column reason : String)
  | serialization (reason : String)
  -- Building the catalog.
  | tableWithoutPrimaryKey (table : String)
  | tableRegisteredTwice (table : String)
  | relationToUnknownTable (table relation target : String)
  /-- A connection reported a configuration problem. -/
  | configuration (reason : String)
  deriving DecidableEq, Repr

namespace Error

/-- The class of a failure; everything not listed is found while constructing a statement. -/
def kind : Error → ErrorKind
  | moreThanOneRow _ => .moreThanOneRow
  | createFromMultipleRows => .createFromMultipleRows
  | rowMissing _ | relatedKeyMissing _ _ | parentMissing _ | noRowFetched | missing _ => .notFound
  | query _ => .query
  | decode _ _ => .decode
  | serialization _ => .serialization
  | tableWithoutPrimaryKey _ | tableRegisteredTwice _ | relationToUnknownTable _ _ _
  | configuration _ => .configuration
  | _ => .construction

/-- The full wording of a failure: the words that introduce its class, then its reason. -/
def message : Error → String
  | emptyIdentifier => construction "Identifier cannot be empty"
  | nulInIdentifier => construction "Identifier cannot contain NUL character"
  | trailingDot => construction "Trailing '.' in identifier"
  | expectedDot found => construction s!"Expected '.' between identifier parts, got '{found}'"
  | starNotLast => construction "'*' must be the last identifier part"
  | unclosedQuote => construction "Unclosed quoted identifier"
  | emptyQuotedName => construction "Empty quoted identifier"
  | invalidCharacter text found =>
      construction s!"Invalid character in identifier '{text}': '{found}'"
  | emptySegment => construction "Empty identifier segment"
  | notAColumn text =>
      construction s!"Column reference must be `column` or `table.column`, got '{text}'"
  | markCount sql marks values =>
      construction s!"Raw SQL `{sql}` has {marks} placeholder(s) for {values} value(s)"
  | unknownComparison key => construction s!"Unknown operator '{key}'"
  | operandMismatch comparison => construction s!"Operator {comparison} cannot take this operand"
  | operandMismatchFor comparison column =>
      construction s!"Operator {comparison} cannot take this operand for column '{column}'"
  | invalidFunctionName name => construction s!"Invalid function name '{name}'"
  | unknownDirection text => construction s!"Unknown sort direction '{text}'"
  | malformedShorthand fault => construction s!"Malformed condition shorthand: {fault.message}"
  | unknownTable name => construction s!"Unknown table {name}"
  | catalogMissing table => construction
      s!"Table {table} cannot be resolved without a registry; create the query through Db"
  | tableMissing purpose => construction s!"Table is missing for {purpose}"
  | noPrimaryKey table => construction s!"Table {table} has no primary key to find by"
  | compositePrimaryKey table =>
      construction s!"Table {table} has a composite primary key; use find_by"
  | distinctOnNothing => construction "DISTINCT ON needs at least one column"
  | lockMissing =>
      construction "Lock options need a locking clause; call for_update() first"
  | jsonPathUnnamed => construction "jsonb_path_query needs an alias"
  | invalidCopyFormat format => construction s!"Invalid COPY format '{format}'"
  | wrongVerb action statement => construction s!"Cannot {action} a {statement} query"
  | nothingInserted => construction "insert_many needs at least one row"
  | rowsWithoutColumns => construction "Cannot insert several rows without any column values"
  | dataNotAnObject => construction "Insert and update data must be a JSON object"
  | nestedWriteUnsupported key purpose =>
      construction s!"Nested write '{key}' is not supported in {purpose}"
  | nestedWriteWithoutCatalog key =>
      construction s!"Nested write '{key}' needs a registry; create the query through Db"
  | unknownRelation table key => construction s!"Unknown relation {table}.{key}"
  | singleCreateOnly relation kind =>
      construction s!"Relation {relation} is {kind} and takes a single create"
  | nestedDefaults => construction "Defaults cannot contain nested writes"
  | sourceNotASelect => construction "insert_from needs a select source"
  | sourceWithoutSelection =>
      construction "insert_from needs a source query with an explicit select"
  | sourceColumnUnnamed =>
      construction "insert_from source columns must be named; use select_as"
  | conflictWithoutInsert => construction "on_conflict() must follow an insert"
  | conflictTargetMissing =>
      construction "ON CONFLICT DO UPDATE needs conflict target columns or a raw target"
  | unguarded action => construction
      s!"Dangerous {action} without conditions; add where_() or call all() to {action} every row"
  | fallbackWithoutCondition =>
      construction "or_create needs a where_() condition to find the existing row"
  | sourceUnnamed => construction "A FROM sub-query needs an alias"
  | conditionOnInsert => construction "WHERE on an insert needs on_conflict(..).merge(..)"
  | conditionAfterDoNothing => construction "WHERE cannot follow ON CONFLICT DO NOTHING"
  | nothingMerged => construction "ON CONFLICT DO UPDATE has no columns to set"
  | joinsInUpdate => construction "Joins are not supported in an update"
  | nothingUpdated => construction "Update has no columns to set"
  | transactionNeeded => construction <|
      "This write spans several statements and needs a transaction; " ++
      "run it on a `Transaction` (see `Query::exec_in_transaction`)"
  | rollbackFailed cause failure =>
      construction s!"{cause.message} (rollback failed: {failure.message})"
  | wrongShape wanted found => construction s!"Expected {wanted} from the query, got {found}"
  | refused reason => construction reason
  | moreThanOneRow count =>
      s!"More than one row: Only one row was expected to find, found {count} rows."
  | createFromMultipleRows => "Cannot create based on a query which returns multiple records"
  | rowMissing (some table) => notFound s!"Record not found in {table}"
  | rowMissing none => notFound "Record not found"
  | relatedKeyMissing table key => notFound s!"Related {table} row returned no {key}"
  | parentMissing table =>
      notFound s!"Cannot insert {table} rows: the parent row was not returned"
  | noRowFetched => notFound "Expected 1 row, got 0"
  | missing reason => notFound reason
  | query reason => s!"Query error: {reason}"
  | decode column reason => s!"Decode error on column '{column}': {reason}"
  | serialization reason => s!"Serialization error: {reason}"
  | tableWithoutPrimaryKey table => s!"Configuration error: Table {table} has no primary key"
  | tableRegisteredTwice table => s!"Configuration error: Table {table} is registered twice"
  | relationToUnknownTable table relation target =>
      s!"Configuration error: Relation {table}.{relation} points at unknown table {target}"
  | configuration reason => s!"Configuration error: {reason}"
where
  construction (reason : String) : String := "Construction error: " ++ reason
  notFound (reason : String) : String := "Not found: " ++ reason

def isConstruction (error : Error) : Bool := error.kind == .construction

def isNotFound (error : Error) : Bool := error.kind == .notFound

/-- Whether a failure says that several rows were met where one was expected. -/
def isMoreThanOneRow (error : Error) : Bool := error.kind == .moreThanOneRow

end Error
end SqlComposer
