import SqlComposer.Proofs.Execution.CompletedRuns
import SqlComposer.Proofs.Nested.ConstructionErrors

/-!
# Properties of runs

The statements of a query are run by a script that is put together from single steps: its own
statement is sent, hooks are called in front of a row in its place, and the same is done for every
row that is inserted along with it. A property of scripts that passes on when one script is put
behind another therefore belongs to the whole run if it belongs to these steps, for the query and
for the queries whose statements it runs in turn. Between these steps a run can only fail, and never
because of a value that cannot be read.
-/

namespace SqlComposer

namespace Script

variable {α β : Type}

/-! ## Values that a script can end with -/

/-- Some answers lead a script to a value. -/
def EndsWith : Script α → α → Prop
  | done value, other => value = other
  | fail _, _ => False
  | send _ _ answer, value => ∃ reply, (answer reply).EndsWith value
  | control _ answer, value => ∃ reply, (answer reply).EndsWith value
  | call _ answer, value => ∃ reply, (answer reply).EndsWith value
  | log _ rest, value => rest.EndsWith value

theorem endsWith_bind {script : Script α} {next : α → Script β} {value : β}
    (h : (script.bind next).EndsWith value) :
    ∃ first, script.EndsWith first ∧ (next first).EndsWith value := by
  induction script with
  | done first => exact ⟨first, rfl, h⟩
  | fail error => exact h.elim
  | send sql values answer ih | control sql answer ih | call hook answer ih =>
    obtain ⟨reply, h⟩ := h
    obtain ⟨first, hfirst, hnext⟩ := ih reply h
    exact ⟨first, ⟨reply, hfirst⟩, hnext⟩
  | log event rest ih => exact ih h

/-- What is put behind a script matters for the values only that the script can end with. -/
theorem bind_congr {script : Script α} {next other : α → Script β}
    (h : ∀ value, script.EndsWith value → next value = other value) :
    script.bind next = script.bind other := by
  induction script with
  | done value => exact h value rfl
  | fail error => rfl
  | send sql values answer ih =>
    exact congrArg (send sql values) (funext fun reply ↦ ih reply fun value hends ↦
      h value ⟨reply, hends⟩)
  | control sql answer ih =>
    exact congrArg (control sql) (funext fun reply ↦ ih reply fun value hends ↦
      h value ⟨reply, hends⟩)
  | call hook answer ih =>
    exact congrArg (call hook) (funext fun reply ↦ ih reply fun value hends ↦
      h value ⟨reply, hends⟩)
  | log event rest ih => exact congrArg (log event) (ih h)

/-! ## Properties of scripts -/

/-- A property of scripts passes on when one script is put behind another. -/
structure Composes (P : (α : Type) → Script α → Prop) : Prop where
  done {α : Type} (value : α) : P α (done value)
  fail {α : Type} (error : Error) : P α (fail error)
  bind {α β : Type} {script : Script α} {next : α → Script β} (first : P α script)
    (rest : ∀ value, P β (next value)) : P β (script.bind next)

/-- A property of scripts passes on when one script is put behind another, and scripts that fail in
some way have it. -/
structure ComposesFor (failing : Error → Prop) (P : (α : Type) → Script α → Prop) : Prop where
  done {α : Type} (value : α) : P α (done value)
  fail {α : Type} {error : Error} (h : failing error) : P α (fail error)
  bind {α β : Type} {script : Script α} {next : α → Script β} (first : P α script)
    (rest : ∀ value, P β (next value)) : P β (script.bind next)

variable {P : (α : Type) → Script α → Prop} {failing : Error → Prop}

theorem Composes.composesFor (composes : Composes P) : ComposesFor (fun _ ↦ True) P where
  done := composes.done
  fail _ := composes.fail _
  bind := composes.bind

theorem Composes.ofExcept (composes : Composes P) (result : Except Error α) :
    P α (Script.ofExcept result) := by
  cases result with
  | ok value => exact composes.done value
  | error error => exact composes.fail error

namespace ComposesFor

theorem ofExcept (composes : ComposesFor failing P) {result : Except Error α}
    (fails : ∀ error, result = .error error → failing error) : P α (Script.ofExcept result) := by
  cases result with
  | ok value => exact composes.done value
  | error error => exact composes.fail (fails error rfl)

/-- Only for the values that a script can end with, what is put behind it has to have a property. -/
theorem bind_ending (composes : ComposesFor failing P) (fails : failing .noRowFetched)
    {script : Script α} {next : α → Script β} (first : P α script)
    (rest : ∀ value, script.EndsWith value → P β (next value)) : P β (script.bind next) := by
  classical
  -- For all other values a failure can stand in, which has the property.
  have hsame : script.bind next = script.bind fun value ↦
      if script.EndsWith value then next value else .fail .noRowFetched :=
    bind_congr fun value hends ↦ (if_pos hends).symm
  rw [hsame]
  refine composes.bind first fun value ↦ ?_
  split
  · rename_i hends
    exact rest value hends
  · exact composes.fail fails

end ComposesFor

end Script

namespace Query

open Script

/-! ## Failures between the steps -/

theorem kind_of_returnedKey {relation : Relation} {output : Output} {error : Error}
    (h : returnedKey relation output = .error error) : error.kind ≠ .decode := by
  unfold returnedKey at h
  cases hrecord : output.record with
  | error fault =>
    have hfault : fault.kind ≠ .decode := by
      cases output <;> cases hrecord <;> exact nofun
    rw [hrecord] at h
    cases h
    exact hfault
  | ok row =>
    rw [hrecord] at h
    dsimp only [Bind.bind, Except.bind] at h
    split at h <;> cases h
    exact nofun

theorem kind_of_parentKey {result : RowSet} {row : Nat} {relation : Relation} {error : Error}
    (h : parentKey result row relation = .error error) : error.kind ≠ .decode := by
  unfold parentKey at h
  split at h <;> cases h
  exact nofun

theorem kind_of_checkRowCount {query : Query} {matched : Nat} {error : Error}
    (h : query.checkRowCount matched = .error error) : error.kind ≠ .decode := by
  unfold checkRowCount at h
  dsimp only at h
  split at h
  · cases h
    exact nofun
  · split at h <;> cases h
    exact nofun

theorem kind_of_isConstruction {error : Error} (h : error.isConstruction) :
    error.kind ≠ .decode := by
  rw [eq_of_beq h]
  exact nofun

/-! ## Queries that run in turn -/

/-- A property of queries passes on to the queries whose statements a query runs. -/
structure Passes (Q : Query → Prop) : Prop where
  fillCell {query : Query} (h : Q query) (row column : Nat) (key : Literal) :
    Q (query.fillCell row column key)
  before {query insertion : Query} {relation : Relation} {data : Payload} (h : Q query)
    (built : query.insertionBefore relation data = .ok insertion) : Q insertion
  after {query insertion : Query} {relation : Relation} {rows : List Payload} {key : Literal}
    (h : Q query) (built : query.insertionAfter relation rows key = .ok insertion) : Q insertion
  replaced {query : Query} {fallback : Statement} (h : Q query)
    (held : query.clauses.fallback = some fallback) : Q (query.withClauses fallback.clauses)

/-- A property of queries passes on to the queries whose statements a query runs, as far as it asks
for them. -/
structure PassesAlong (Q : Query → Prop) : Prop where
  fillCell {query : Query} (h : Q query) (row column : Nat) (key : Literal) :
    Q (query.fillCell row column key)
  before {query insertion : Query} {row column : Nat} {relation : Relation} {data : Payload}
    (h : Q query) (asked : .before row column relation data ∈ query.clauses.related)
    (built : query.insertionBefore relation data = .ok insertion) : Q insertion
  after {query insertion : Query} {row : Nat} {relation : Relation} {rows : List Payload}
    {key : Literal} (h : Q query) (asked : .after row relation rows ∈ query.clauses.related)
    (built : query.insertionAfter relation rows key = .ok insertion) : Q insertion
  replaced {query : Query} {fallback : Statement} (h : Q query)
    (held : query.clauses.fallback = some fallback) : Q (query.withClauses fallback.clauses)

section

variable {P : (α : Type) → Script α → Prop} {Q : Query → Prop} {failing : Error → Prop}

theorem Passes.passesAlong (passes : Passes Q) : PassesAlong Q where
  fillCell := passes.fillCell
  before h _ := passes.before h
  after h _ := passes.after h
  replaced := passes.replaced

/-- The keys of related rows are filled into a query without touching a property that passes on. -/
theorem PassesAlong.filled (passes : PassesAlong Q) {query filled final : Query}
    {related : List RelatedInsert} (h : Q filled)
    (ends : (runBefore query filled related).EndsWith final) : Q final := by
  induction related generalizing filled with
  | nil =>
    rw [runBefore] at ends
    exact ends ▸ h
  | cons insert rest ih =>
    cases insert with
    | after row relation rows =>
      rw [runBefore] at ends
      exact ih h ends
    | before row column relation data =>
      rw [runBefore] at ends
      split at ends
      · exact ends.elim
      · obtain ⟨outcome, -, ends⟩ := endsWith_bind ends
        obtain ⟨key, -, ends⟩ := endsWith_bind ends
        exact ih (passes.fillCell h row column key) ends

/-- A property of scripts that composes belongs to the steps in which statements are sent and hooks
are called for queries of a kind. -/
structure Inherits (P : (α : Type) → Script α → Prop) (Q : Query → Prop) : Prop where
  composes : Composes P
  passes : Passes Q
  own (query : Query) (h : Q query) : P RowSet query.sendStatement
  hooks (query : Query) (fallback : Statement) (h : Q query)
    (held : query.clauses.fallback = some fallback) :
    P Unit (callAll (query.withClauses fallback.clauses).hooksBefore)

/-- A property of scripts that composes, where failing is allowed unless it is because of a value
that cannot be read, belongs to the steps in which statements are sent and hooks are called for
queries of a kind. -/
structure InheritsFor (failing : Error → Prop) (P : (α : Type) → Script α → Prop)
    (Q : Query → Prop) : Prop where
  composes : ComposesFor failing P
  fails (error : Error) (h : error.kind ≠ .decode) : failing error
  passes : PassesAlong Q
  own (query : Query) (h : Q query) : P RowSet query.sendStatement
  hooks (query : Query) (fallback : Statement) (h : Q query)
    (held : query.clauses.fallback = some fallback) :
    P Unit (callAll (query.withClauses fallback.clauses).hooksBefore)

theorem Inherits.inheritsFor (inherits : Inherits P Q) : InheritsFor (fun _ ↦ True) P Q where
  composes := inherits.composes.composesFor
  fails _ _ := trivial
  passes := inherits.passes.passesAlong
  own := inherits.own
  hooks := inherits.hooks

mutual

/-- Running the statements of a query has the property of its steps. -/
theorem InheritsFor.runStatements (inherits : InheritsFor failing P Q) (query : Query)
    (h : Q query) : P Outcome query.runStatements := by
  have composes := inherits.composes
  have hbefore : P Query (Query.runBefore query query query.clauses.related) :=
    inherits.runBefore query query query.clauses.related fun _ _ _ _ _ hasked hbuilt ↦
      inherits.passes.before h hasked hbuilt
  have hafter (result : RowSet) : P Unit (Query.runAfter query result query.clauses.related) :=
    inherits.runAfter query result query.clauses.related fun _ _ _ _ _ hasked hbuilt ↦
      inherits.passes.after h hasked hbuilt
  have hcreation {fallback : Statement} (held : query.clauses.fallback = some fallback) :
      P Outcome (query.withClauses fallback.clauses).runStatements :=
    have := pendingWrites_fallback_lt held
    inherits.runStatements (query.withClauses fallback.clauses) (inherits.passes.replaced h held)
  rw [runStatements_eq]
  refine composes.bind_ending (inherits.fails _ nofun) hbefore fun filled hends ↦ ?_
  refine composes.bind (inherits.own filled (inherits.passes.filled h hends)) fun result ↦ ?_
  have hfinish : P Outcome (query.finish filled result) :=
    composes.bind (composes.ofExcept fun error herror ↦
      inherits.fails error (kind_of_checkRowCount herror)) fun _ ↦
      composes.bind (hafter result) fun _ ↦ composes.done _
  unfold proceed
  split
  · exact hfinish
  · rename_i fallback hfallback
    split
    · exact composes.fail (inherits.fails _ nofun)
    · split
      · exact composes.bind (inherits.hooks query fallback h hfallback) fun _ ↦
          composes.bind (hcreation hfallback) fun _ ↦ composes.done _
      · exact hfinish
termination_by 2 * query.pendingWrites + 1
decreasing_by
  · have := totalWrites_related_le query
    omega
  · have := totalWrites_related_le query
    omega
  · omega

/-- A property of all insertions in front is one of inserting the related rows in front. -/
theorem InheritsFor.runBefore (inherits : InheritsFor failing P Q) (query filled : Query)
    (related : List RelatedInsert) (asked : ∀ row column relation data insertion,
      .before row column relation data ∈ related →
        query.insertionBefore relation data = .ok insertion → Q insertion) :
    P Query (Query.runBefore query filled related) := by
  have composes := inherits.composes
  match related with
  | [] =>
    rw [Query.runBefore]
    exact composes.done _
  | .after row relation rows :: rest =>
    rw [Query.runBefore]
    exact inherits.runBefore query filled rest fun row column relation data insertion hmem ↦
      asked row column relation data insertion (List.mem_cons_of_mem _ hmem)
  | .before row column relation data :: rest =>
    rw [Query.runBefore]
    split
    · rename_i error hfault
      exact composes.fail (inherits.fails error
        (kind_of_isConstruction (constructs_insertionBefore query relation data error hfault)))
    · rename_i insertion hbuilt
      have := pendingWrites_insertionBefore_le hbuilt
      have hinsertion : Q insertion := asked _ _ _ _ _ List.mem_cons_self hbuilt
      exact composes.bind (inherits.runStatements insertion hinsertion) fun _ ↦
        composes.bind (composes.ofExcept fun error herror ↦
          inherits.fails error (kind_of_returnedKey herror)) fun key ↦
          inherits.runBefore query (filled.fillCell row column key) rest
            fun row column relation data insertion hmem ↦
              asked row column relation data insertion (List.mem_cons_of_mem _ hmem)
termination_by 2 * RelatedInsert.totalWrites related
decreasing_by
  all_goals
    simp only [RelatedInsert.totalWrites, RelatedInsert.writes]
    omega

/-- A property of all insertions behind is one of inserting the related rows behind. -/
theorem InheritsFor.runAfter (inherits : InheritsFor failing P Q) (query : Query)
    (result : RowSet) (related : List RelatedInsert) (asked : ∀ row relation rows key insertion,
      .after row relation rows ∈ related →
        query.insertionAfter relation rows key = .ok insertion → Q insertion) :
    P Unit (Query.runAfter query result related) := by
  have composes := inherits.composes
  match related with
  | [] =>
    rw [Query.runAfter]
    exact composes.done _
  | .before row column relation data :: rest =>
    rw [Query.runAfter]
    exact inherits.runAfter query result rest fun row relation rows key insertion hmem ↦
      asked row relation rows key insertion (List.mem_cons_of_mem _ hmem)
  | .after row relation rows :: rest =>
    rw [Query.runAfter]
    refine composes.bind (composes.ofExcept fun error herror ↦
      inherits.fails error (kind_of_parentKey herror)) fun key ↦ ?_
    split
    · rename_i error hfault
      exact composes.fail (inherits.fails error
        (kind_of_isConstruction (constructs_insertionAfter query relation rows key error hfault)))
    · rename_i insertion hbuilt
      have := pendingWrites_insertionAfter_le hbuilt
      have hinsertion : Q insertion := asked _ _ _ _ _ List.mem_cons_self hbuilt
      exact composes.bind (inherits.runStatements insertion hinsertion) fun _ ↦
        inherits.runAfter query result rest fun row relation rows key insertion hmem ↦
          asked row relation rows key insertion (List.mem_cons_of_mem _ hmem)
termination_by 2 * RelatedInsert.totalWrites related
decreasing_by
  all_goals
    simp only [RelatedInsert.totalWrites, RelatedInsert.writes]
    omega

end

namespace Inherits

theorem runStatements (inherits : Inherits P Q) (query : Query) (h : Q query) :
    P Outcome query.runStatements :=
  inherits.inheritsFor.runStatements query h

/-- The related rows in front inherit what their insertions have. -/
theorem runBefore (inherits : Inherits P Q) (query filled : Query) (related : List RelatedInsert)
    (asked : ∀ relation data insertion,
      query.insertionBefore relation data = .ok insertion → Q insertion) :
    P Query (Query.runBefore query filled related) :=
  inherits.inheritsFor.runBefore query filled related fun _ _ relation data insertion _ ↦
    asked relation data insertion

/-- The related rows behind inherit what their insertions have. -/
theorem runAfter (inherits : Inherits P Q) (query : Query) (result : RowSet)
    (related : List RelatedInsert) (asked : ∀ relation rows key insertion,
      query.insertionAfter relation rows key = .ok insertion → Q insertion) :
    P Unit (Query.runAfter query result related) :=
  inherits.inheritsFor.runAfter query result related fun _ relation rows key insertion _ ↦
    asked relation rows key insertion

end Inherits

end

end Query

end SqlComposer
