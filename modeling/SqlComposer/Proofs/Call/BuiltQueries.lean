import SqlComposer.Proofs.Script.ExceptResults
import SqlComposer.Proofs.Statement.CheckedStatements
import SqlComposer.Query.Changing
import SqlComposer.Query.Combining
import SqlComposer.Query.Filtering
import SqlComposer.Query.Selecting

/-!
# Building queries

A query is built by calls of methods, starting from a table or a fragment. The queries handed to a
method are built in the same way, and so are the statements inside the conditions and the joined
tables that it is given. Aggregate calls in conditions have names of functions, since they cannot be
started with any other name. Where fragments come from is left open: they are supplied by the
caller, and a property of fragments says which ones are.
-/

namespace SqlComposer

/-- A call of a method that builds queries, with its arguments. -/
inductive Call where
  | sibling (table : String)
  | logged (settings : LogSettings)
  | as (label : String)
  | fromQuery (inner : Query) (label : String)
  | fromRaw (fragment : Fragment)
  | order (column : String) (direction : Direction)
  | orderBy (columns : List String)
  | orderRaw (fragment : Fragment)
  | limit (count : Int)
  | offset (count : Int)
  | take
  | takeOptional
  | rows
  | all
  | pluck (column : String)
  | get (column : String)
  | getOptional (column : String)
  | lock (strength : LockStrength)
  | lockOf (tables : List String)
  | lockOfRaw (fragment : Fragment)
  | noWait
  | skipLocked
  | select (columns : List String)
  | selectAs (column label : String)
  | selectRaw (fragment : Fragment) (label : Option String)
  | selectQuery (inner : Query) (label : String)
  | selectAll
  | distinct
  | distinctOn (columns : List String)
  | count
  | countColumn (column : String)
  | window (name : String) (window : Window)
  | selectOver (function : String) (column : Option String) (window : Over) (label : String)
  | selectJson (expression : JsonExpr) (label : Option String)
  | selectJsonPath (target : JsonExpr) (path label : String)
  | json
  | filter (condition : Condition Statement)
  | orFilter (condition : Condition Statement)
  | filterNot (condition : Condition Statement)
  | filterJson (shorthand : Json)
  | orFilterJson (shorthand : Json)
  | filterHasRow (inner : Query)
  | filterHasNoRow (inner : Query)
  | find (key : Term)
  | findOptional (key : Term)
  | findBy (condition : Condition Statement)
  | findByOptional (condition : Condition Statement)
  | group (columns : List String)
  | groupRaw (fragment : Fragment)
  | having (condition : Condition Statement)
  | havingAny (conditions : List (Condition Statement))
  | havingJson (shorthand : Json)
  | havingRaw (fragments : List Fragment)
  | join (kind : JoinKind) (target : JoinTarget Statement) (left right : String)
  | joinOn (kind : JoinKind) (target : JoinTarget Statement) (condition : Condition Statement)
  | crossJoin (target : JoinTarget Statement)
  | withQuery (name : String) (inner : Query) (options : Query.CommonTableOptions)
  | withRaw (name : String) (fragment : Fragment) (options : Query.CommonTableOptions)
  | combine (operation : SetOperation) (others : List Query) (wrapped : Bool)
  | combineRaw (operation : SetOperation) (fragment : Fragment) (wrapped : Bool)
  | insert (row : Payload)
  | insertMany (rows : List Payload)
  | insertRaw (columns : List String) (fragment : Fragment)
  | insertFrom (source : Query) (data : Payload)
  | defaults (data : Payload)
  | ignoreConflict (target : ConflictTarget)
  | mergeConflict (target : ConflictTarget) (spec : MergeSpec)
  | setConflict (target : ConflictTarget) (data : Payload)
  | update (data : Payload)
  | updateRaw (fragment : Fragment)
  | increment (column : String) (amount : Term)
  | decrement (column : String) (amount : Term)
  | orCreate (row : Payload)
  | upsert (data row : Payload)
  | delete
  | truncate (options : TruncateOptions)
  | describe (column : Option String)
  | copy (options : CopyOptions)
  | beforeInsert (hook : String)
  | afterInsert (hook : String)
  | beforeUpdate (hook : String)
  | afterUpdate (hook : String)

namespace Call

/-- What a call makes of a query. -/
def apply (query : Query) : Call → Except Error Query
  | sibling table => query.sibling table
  | logged settings => .ok (query.logged settings)
  | as label => .ok (query.as label)
  | fromQuery inner label => .ok (query.fromQuery inner label)
  | fromRaw fragment => .ok (query.fromRaw fragment)
  | order column direction => query.order column direction
  | orderBy columns => query.orderBy columns
  | orderRaw fragment => .ok (query.orderRaw fragment)
  | limit number => .ok (query.limit number)
  | offset number => .ok (query.offset number)
  | take => .ok query.take
  | takeOptional => .ok query.takeOptional
  | rows => .ok query.rows
  | all => .ok query.all
  | pluck column => query.pluck column
  | get column => query.get column
  | getOptional column => query.getOptional column
  | lock strength => .ok (query.lock strength)
  | lockOf tables => query.lockOf tables
  | lockOfRaw fragment => query.lockOfRaw fragment
  | noWait => query.noWait
  | skipLocked => query.skipLocked
  | select columns => query.select columns
  | selectAs column label => query.selectAs column label
  | selectRaw fragment label => .ok (query.selectRaw fragment label)
  | selectQuery inner label => .ok (query.selectQuery inner label)
  | selectAll => .ok query.selectAll
  | distinct => .ok query.distinct
  | distinctOn columns => query.distinctOn columns
  | count => .ok query.count
  | countColumn column => query.countColumn column
  | window name declared => .ok (query.window name declared)
  | selectOver function column place label => query.selectOver function column place label
  | selectJson expression label => .ok (query.selectJson expression label)
  | selectJsonPath target path label => query.selectJsonPath target path label
  | json => .ok query.json
  | filter condition => .ok (query.filter condition)
  | orFilter condition => .ok (query.orFilter condition)
  | filterNot condition => .ok (query.filterNot condition)
  | filterJson shorthand => query.filterJson shorthand
  | orFilterJson shorthand => query.orFilterJson shorthand
  | filterHasRow inner => .ok (query.filterHasRow inner)
  | filterHasNoRow inner => .ok (query.filterHasNoRow inner)
  | find key => query.find key
  | findOptional key => query.findOptional key
  | findBy condition => .ok (query.findBy condition)
  | findByOptional condition => .ok (query.findByOptional condition)
  | group columns => query.group columns
  | groupRaw fragment => .ok (query.groupRaw fragment)
  | having condition => .ok (query.having condition)
  | havingAny conditions => .ok (query.havingAny conditions)
  | havingJson shorthand => query.havingJson shorthand
  | havingRaw fragments => .ok (query.havingRaw fragments)
  | join kind target left right => query.join kind target left right
  | joinOn kind target condition => .ok (query.joinOn kind target condition)
  | crossJoin target => .ok (query.crossJoin target)
  | withQuery name inner options => .ok (query.withQuery name inner options)
  | withRaw name fragment options => .ok (query.withRaw name fragment options)
  | combine operation others wrapped => .ok (query.combine operation others wrapped)
  | combineRaw operation fragment wrapped => .ok (query.combineRaw operation fragment wrapped)
  | insert row => query.insert row
  | insertMany lists => query.insertMany lists
  | insertRaw columns fragment => query.insertRaw columns fragment
  | insertFrom source data => query.insertFrom source data
  | defaults data => query.defaults data
  | ignoreConflict target => (query.onConflict target).map PendingConflict.ignore
  | mergeConflict target spec => do (← query.onConflict target).merge spec
  | setConflict target data => do (← query.onConflict target).set data
  | update data => query.update data
  | updateRaw fragment => query.updateRaw fragment
  | increment column amount => query.increment column amount
  | decrement column amount => query.decrement column amount
  | orCreate row => query.orCreate row
  | upsert data row => query.upsert data row
  | delete => query.delete
  | truncate options => query.truncate options
  | describe column => query.describe column
  | copy options => query.copy options
  | beforeInsert hook => .ok (query.beforeInsert hook)
  | afterInsert hook => .ok (query.afterInsert hook)
  | beforeUpdate hook => .ok (query.beforeUpdate hook)
  | afterUpdate hook => .ok (query.afterUpdate hook)

/-- Whether a statement is that of a query. -/
def IsStatement (inner : Query → Prop) (statement : Statement) : Prop :=
  ∃ query, inner query ∧ query.statement = statement

variable (supplied : Fragment → Prop) (inner : Query → Prop) (sub : Statement → Prop)

/-- The fragments among the arguments of a call are supplied, and the queries and statements among
them have their properties. -/
def Given : Call → Prop
  | fromQuery query _ | selectQuery query _ | filterHasRow query | filterHasNoRow query
  | withQuery _ query _ => inner query
  | combine _ others _ => ∀ query ∈ others, inner query
  | fromRaw fragment | orderRaw fragment | lockOfRaw fragment | selectRaw fragment _
  | groupRaw fragment | withRaw _ fragment _ | combineRaw _ fragment _ | insertRaw _ fragment
  | updateRaw fragment => supplied fragment
  | havingRaw fragments => ∀ fragment ∈ fragments, supplied fragment
  | window _ declared => declared.Checked supplied
  | selectOver _ _ place _ => place.Checked supplied
  | filter condition | orFilter condition | filterNot condition | findBy condition
  | findByOptional condition | having condition => condition.Checked supplied sub
  | havingAny conditions => ∀ condition ∈ conditions, condition.Checked supplied sub
  | find key | findOptional key => key.Checked supplied
  | join _ target _ _ | crossJoin target => target.Checked sub
  | joinOn _ target condition => target.Checked sub ∧ condition.Checked supplied sub
  | insert row | orCreate row => row.Checked supplied
  | insertMany lists => ∀ row ∈ lists, row.Checked supplied
  | insertFrom source data => inner source ∧ data.Checked supplied
  | defaults data | update data => data.Checked supplied
  | upsert data row => data.Checked supplied ∧ row.Checked supplied
  | ignoreConflict target => target.Checked supplied
  | mergeConflict target spec => target.Checked supplied ∧ spec.Checked supplied
  | setConflict target data => target.Checked supplied ∧ data.Checked supplied
  | increment _ amount | decrement _ amount => amount.Checked supplied
  | _ => True

end Call

/-- The queries that calls of methods lead to. -/
inductive Query.Reachable (supplied : Fragment → Prop) : Query → Prop
  | ofTable (table : Table) (catalog : Option Catalog) (log : Option LogSettings) :
      Reachable supplied ⟨.ofTable table, catalog, log⟩
  | ofRaw {fragment : Fragment} (given : supplied fragment) :
      Reachable supplied (.ofRaw fragment)
  | call {query next : Query} {call : Call} (inner : Query → Prop)
      (reached : Reachable supplied query)
      (given : call.Given supplied inner (Call.IsStatement inner))
      (subs : ∀ sub, inner sub → Reachable supplied sub)
      (done : call.apply query = .ok next) : Reachable supplied next

/-- A call without queries among its arguments leads on. -/
theorem Query.Reachable.call_alone {supplied : Fragment → Prop} {query next : Query}
    (reached : query.Reachable supplied) (call : Call)
    (given : call.Given supplied (fun _ ↦ False) (Call.IsStatement fun _ ↦ False))
    (done : call.apply query = .ok next) : next.Reachable supplied :=
  .call _ reached given (fun _ ↦ False.elim) done

end SqlComposer
