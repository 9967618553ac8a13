import SqlComposer.Statement

/-!
# Checked statements

Function names and the formats of copies are written without quotes, so they have to be words of the
right form, and fragments are written verbatim, so it matters where they come from. A statement is
checked if the words in it have their form and all its fragments are of a given kind, those of
sub-queries and those of clauses that are not written at present included.

A property of statements is carried to the clauses that hold statements: it has to hold of every
sub-query in them. A property that passes from the sub-queries of a checked statement to the
statement itself holds of every checked statement.
-/

namespace SqlComposer

variable {Sub : Type} (raw : Fragment → Prop) (inner : Sub → Prop)

/-! ## Terms, orders and windows -/

def Term.Checked : Term → Prop
  | .raw fragment => raw fragment
  | .literal _ | .column _ => True

def OrderItem.Checked : OrderItem → Prop
  | .column _ _ => True
  | .raw fragment => raw fragment

def GroupItem.Checked : GroupItem → Prop
  | .column _ => True
  | .raw fragment => raw fragment

def Window.Checked (window : Window) : Prop := ∀ item ∈ window.order, item.Checked raw

def Over.Checked : Over → Prop
  | .named _ => True
  | .window given => given.Checked raw

def WindowCall.Checked (call : WindowCall) : Prop :=
  isFunctionName call.function ∧ call.window.Checked raw

/-! ## Conditions -/

def Comparand.Checked : Comparand Sub → Prop
  | .term value => value.Checked raw
  | .list terms => ∀ term ∈ terms, term.Checked raw
  | .range lower upper => lower.Checked raw ∧ upper.Checked raw
  | .query sub => inner sub

mutual

def Condition.Checked : Condition Sub → Prop
  | .compare _ _ operand => operand.Checked raw inner
  | .every conditions | .any conditions => Condition.CheckedAll conditions
  | .not condition => condition.Checked
  | .hasRow sub => inner sub
  | .raw fragment => raw fragment
  | .aggregate call _ operand => AggregateCall.Checked call ∧ operand.Checked raw inner

def Condition.CheckedAll : List (Condition Sub) → Prop
  | [] => True
  | condition :: rest => condition.Checked ∧ Condition.CheckedAll rest

def Condition.CheckedIn : List (List (Condition Sub)) → Prop
  | [] => True
  | group :: rest => Condition.CheckedAll group ∧ Condition.CheckedIn rest

def AggregateCall.Checked : AggregateCall Sub → Prop
  | ⟨function, _, _, order, _, ⟨groups⟩⟩ =>
    isFunctionName function ∧ (∀ item ∈ order, item.Checked raw) ∧ Condition.CheckedIn groups

end

def Filter.Checked (filter : Filter Sub) : Prop := Condition.CheckedIn raw inner filter.groups

/-! ## Clauses -/

def Body.Checked : Body Sub → Prop
  | .query sub => inner sub
  | .raw fragment => raw fragment

def Source.Checked : Source Sub → Prop
  | .table => True
  | .body content => content.Checked raw inner

def JoinTarget.Checked : JoinTarget Sub → Prop
  | .table _ _ _ => True
  | .query sub _ => inner sub

def Join.Checked (join : Join Sub) : Prop :=
  join.target.Checked inner ∧ join.condition.Checked raw inner

def SelectExpr.Checked : SelectExpr Sub → Prop
  | .raw fragment => raw fragment
  | .query sub => inner sub
  | .term value => value.Checked raw
  | .window call => call.Checked raw
  | .column _ | .json _ | .count _ => True

def Assignment.Checked : Assignment → Prop
  | .set _ value => value.Checked raw
  | .raw fragment => raw fragment
  | .increment _ amount | .decrement _ amount => amount.Checked raw

def Cell.Checked : Cell → Prop
  | .value term => term.Checked raw
  | .default | .pending => True

def InsertSource.Checked : InsertSource Sub → Prop
  | .rows lists => ∀ row ∈ lists, ∀ cell ∈ row, cell.Checked raw
  | .raw fragment => raw fragment
  | .query sub => inner sub

def ConflictTarget.Checked : ConflictTarget → Prop
  | .raw fragment => raw fragment
  | .columns _ | .inferred => True

def MergeSpec.Checked : MergeSpec → Prop
  | .values assigned => ∀ value ∈ assigned, value.2.Checked raw
  | .raw fragment => raw fragment
  | .inserted | .columns _ => True

def ConflictAction.Checked : ConflictAction → Prop
  | .ignore => True
  | .merge spec => spec.Checked raw

def Conflict.Checked (conflict : Conflict) : Prop :=
  conflict.target.Checked raw ∧ conflict.action.Checked raw

def Insertion.Checked (insertion : Insertion Sub) : Prop :=
  insertion.source.Checked raw inner ∧ ∀ conflict ∈ insertion.conflict, conflict.Checked raw

def CopyOptions.Checked (options : CopyOptions) : Prop :=
  ∀ format ∈ options.format, CopyOptions.isFormat format

def RowLock.Checked (lock : RowLock) : Prop :=
  match lock.tables with
  | some (.raw fragment) => raw fragment
  | _ => True

def Verb.Checked : Verb Sub → Prop
  | .insert insertion => insertion.Checked raw inner
  | .update assignments => ∀ assignment ∈ assignments, assignment.Checked raw
  | .copy options => options.Checked
  | .select | .delete | .truncate _ | .describe _ => True

/-- The values of a payload, apart from those of rows to be created. -/
def Payload.Checked (payload : Payload) : Prop :=
  ∀ key term, (key, Entry.value term) ∈ payload.entries → term.Checked raw

/-- The words of all clauses have their form, the fragments are of the kind, and the sub-queries
have the property. -/
structure Clauses.Checked (clauses : Clauses Sub) : Prop where
  source : clauses.source.Checked raw inner
  verb : clauses.verb.Checked raw inner
  selection : ∀ item ∈ clauses.selection, item.expression.Checked raw inner
  joins : ∀ join ∈ clauses.joins, join.Checked raw inner
  filter : clauses.filter.Checked raw inner
  groups : ∀ item ∈ clauses.groups, item.Checked raw
  having : clauses.having.Checked raw inner
  windows : ∀ declared ∈ clauses.windows, declared.2.Checked raw
  commonTables : ∀ declared ∈ clauses.commonTables, declared.body.Checked raw inner
  combinations : ∀ combination ∈ clauses.combinations, combination.operand.Checked raw inner
  order : ∀ item ∈ clauses.order, item.Checked raw
  lock : ∀ lock ∈ clauses.lock, lock.Checked raw
  defaults : clauses.defaults.Checked raw

/-! ## Statements -/

/-- The clauses of a statement and of all its sub-queries are checked. -/
inductive Statement.Checked (raw : Fragment → Prop) : Statement → Prop
  | intro {clauses : Clauses Statement} (inner : Statement → Prop)
      (checked : clauses.Checked raw inner)
      (subs : ∀ statement, inner statement → Statement.Checked raw statement) :
      Statement.Checked raw ⟨clauses⟩

section Monotone

variable {raw kind : Fragment → Prop} {inner other : Sub → Prop}

theorem Term.Checked.mono (hraw : ∀ fragment, raw fragment → kind fragment) {term : Term}
    (checked : term.Checked raw) : term.Checked kind := by
  cases term with
  | raw fragment => exact hraw fragment checked
  | _ => trivial

theorem OrderItem.Checked.mono (hraw : ∀ fragment, raw fragment → kind fragment)
    {item : OrderItem} (checked : item.Checked raw) : item.Checked kind := by
  cases item with
  | raw fragment => exact hraw fragment checked
  | column reference direction => trivial

theorem Window.Checked.mono (hraw : ∀ fragment, raw fragment → kind fragment) {window : Window}
    (checked : window.Checked raw) : window.Checked kind :=
  fun item hitem ↦ (checked item hitem).mono hraw

theorem Over.Checked.mono (hraw : ∀ fragment, raw fragment → kind fragment) {window : Over}
    (checked : window.Checked raw) : window.Checked kind := by
  cases window with
  | named name => trivial
  | window given => exact Window.Checked.mono hraw checked

theorem Comparand.Checked.mono (hraw : ∀ fragment, raw fragment → kind fragment)
    (h : ∀ sub, inner sub → other sub) {operand : Comparand Sub}
    (checked : operand.Checked raw inner) : operand.Checked kind other := by
  cases operand with
  | term value => exact Term.Checked.mono hraw checked
  | list terms => exact fun term hterm ↦ (checked term hterm).mono hraw
  | range lower upper => exact ⟨checked.1.mono hraw, checked.2.mono hraw⟩
  | query sub => exact h sub checked

mutual

/-- A condition checked for one kind of fragments and statements is checked for any wider kind. -/
private theorem Condition.mono (hraw : ∀ fragment, raw fragment → kind fragment)
    (h : ∀ sub, inner sub → other sub) (condition : Condition Sub)
    (checked : condition.Checked raw inner) : condition.Checked kind other :=
  match condition, checked with
  | .compare _ _ _, checked => Comparand.Checked.mono hraw h checked
  | .every conditions, checked | .any conditions, checked =>
    Condition.monoAll hraw h conditions checked
  | .not condition, checked => Condition.mono hraw h condition checked
  | .hasRow sub, checked => h sub checked
  | .raw fragment, checked => hraw fragment checked
  | .aggregate call _ _, checked =>
    ⟨AggregateCall.mono hraw h call checked.1, Comparand.Checked.mono hraw h checked.2⟩

private theorem Condition.monoAll (hraw : ∀ fragment, raw fragment → kind fragment)
    (h : ∀ sub, inner sub → other sub) (conditions : List (Condition Sub))
    (checked : Condition.CheckedAll raw inner conditions) :
    Condition.CheckedAll kind other conditions :=
  match conditions, checked with
  | [], _ => trivial
  | condition :: rest, checked =>
    ⟨Condition.mono hraw h condition checked.1, Condition.monoAll hraw h rest checked.2⟩

private theorem Condition.monoIn (hraw : ∀ fragment, raw fragment → kind fragment)
    (h : ∀ sub, inner sub → other sub) (groups : List (List (Condition Sub)))
    (checked : Condition.CheckedIn raw inner groups) : Condition.CheckedIn kind other groups :=
  match groups, checked with
  | [], _ => trivial
  | group :: rest, checked =>
    ⟨Condition.monoAll hraw h group checked.1, Condition.monoIn hraw h rest checked.2⟩

private theorem AggregateCall.mono (hraw : ∀ fragment, raw fragment → kind fragment)
    (h : ∀ sub, inner sub → other sub) (call : AggregateCall Sub)
    (checked : call.Checked raw inner) : call.Checked kind other :=
  match call, checked with
  | ⟨_, _, _, _, _, ⟨groups⟩⟩, checked =>
    ⟨checked.1, fun item hitem ↦ (checked.2.1 item hitem).mono hraw,
      Condition.monoIn hraw h groups checked.2.2⟩

end

theorem Condition.Checked.mono (hraw : ∀ fragment, raw fragment → kind fragment)
    (h : ∀ sub, inner sub → other sub) {condition : Condition Sub}
    (checked : condition.Checked raw inner) : condition.Checked kind other :=
  Condition.mono hraw h condition checked

theorem JoinTarget.Checked.mono (h : ∀ sub, inner sub → other sub) {target : JoinTarget Sub}
    (checked : target.Checked inner) : target.Checked other := by
  cases target with
  | table name schema label => trivial
  | query sub label => exact h sub checked

theorem ConflictTarget.Checked.mono (hraw : ∀ fragment, raw fragment → kind fragment)
    {target : ConflictTarget} (checked : target.Checked raw) : target.Checked kind := by
  cases target with
  | raw fragment => exact hraw fragment checked
  | _ => trivial

theorem MergeSpec.Checked.mono (hraw : ∀ fragment, raw fragment → kind fragment)
    {spec : MergeSpec} (checked : spec.Checked raw) : spec.Checked kind := by
  cases spec with
  | raw fragment => exact hraw fragment checked
  | values assigned => exact fun value hvalue ↦ (checked value hvalue).mono hraw
  | _ => trivial

theorem Payload.Checked.mono (hraw : ∀ fragment, raw fragment → kind fragment)
    {payload : Payload} (checked : payload.Checked raw) : payload.Checked kind :=
  fun key term hterm ↦ (checked key term hterm).mono hraw

end Monotone

/-! ## Sub-queries -/

section SubQueries

variable {raw : Fragment → Prop} {inner other : Sub → Prop}

theorem Body.Checked.mono (h : ∀ sub, inner sub → other sub) {body : Body Sub}
    (checked : body.Checked raw inner) : body.Checked raw other := by
  cases body with
  | query sub => exact h sub checked
  | raw fragment => exact checked

theorem Source.Checked.mono (h : ∀ sub, inner sub → other sub) {source : Source Sub}
    (checked : source.Checked raw inner) : source.Checked raw other := by
  cases source with
  | table => trivial
  | body content => exact Body.Checked.mono h checked

theorem SelectExpr.Checked.mono (h : ∀ sub, inner sub → other sub)
    {expression : SelectExpr Sub} (checked : expression.Checked raw inner) :
    expression.Checked raw other := by
  cases expression with
  | query sub => exact h sub checked
  | _ => exact checked

theorem Verb.Checked.mono (h : ∀ sub, inner sub → other sub) {verb : Verb Sub}
    (checked : verb.Checked raw inner) : verb.Checked raw other := by
  match verb with
  | .insert ⟨_, .query sub, _⟩ => exact ⟨h sub checked.1, checked.2⟩
  | .insert ⟨_, .rows _, _⟩ | .insert ⟨_, .raw _, _⟩ => exact checked
  | .select | .update _ | .delete | .truncate _ | .copy _ | .describe _ => exact checked

theorem Filter.Checked.mono (h : ∀ sub, inner sub → other sub) {filter : Filter Sub}
    (checked : filter.Checked raw inner) : filter.Checked raw other :=
  Condition.monoIn (fun _ hraw ↦ hraw) h filter.groups checked

/-- Clauses checked for one kind of statements are checked for any wider kind. -/
theorem Clauses.Checked.mono (h : ∀ sub, inner sub → other sub) {clauses : Clauses Sub}
    (checked : clauses.Checked raw inner) : clauses.Checked raw other where
  source := checked.source.mono h
  verb := checked.verb.mono h
  selection := fun item hitem ↦ (checked.selection item hitem).mono h
  joins := fun join hjoin ↦
    ⟨(checked.joins join hjoin).1.mono h, (checked.joins join hjoin).2.mono (fun _ hraw ↦ hraw) h⟩
  filter := checked.filter.mono h
  groups := checked.groups
  having := checked.having.mono h
  windows := checked.windows
  commonTables := fun declared hdeclared ↦ (checked.commonTables declared hdeclared).mono h
  combinations := fun combination hcombination ↦
    (checked.combinations combination hcombination).mono h
  order := checked.order
  lock := checked.lock
  defaults := checked.defaults

end SubQueries

namespace Statement

variable {raw : Fragment → Prop}

/-- A statement is checked exactly when its clauses are and their sub-queries are checked
statements. -/
theorem checked_iff {clauses : Clauses Statement} :
    Statement.Checked raw ⟨clauses⟩ ↔ clauses.Checked raw (Statement.Checked raw) := by
  constructor
  · rintro ⟨inner, checked, subs⟩
    exact checked.mono subs
  · intro checked
    exact .intro (Statement.Checked raw) checked fun _ h ↦ h

/-- A property that passes from the sub-queries of a statement to the statement holds of every
checked statement. -/
theorem Checked.induction {P : Statement → Prop}
    (step : ∀ clauses : Clauses Statement, clauses.Checked raw P → P ⟨clauses⟩)
    {statement : Statement} (checked : statement.Checked raw) : P statement := by
  induction checked with
  | intro inner checked _ ih => exact step _ (checked.mono ih)

end Statement
end SqlComposer
