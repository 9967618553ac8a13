import SqlComposer.Proofs.Statement.DeletionSources

/-!
# Clauses that are left out

A statement writes some of the clauses that a query can have. An update refuses to be written with
joins, and an insertion without a reaction to conflicts with a filter. Other clauses are passed over
in silence: an update and a deletion leave out how rows are read, grouped, ordered, counted off and
locked, and a selection leaves out the condition of a cross join. Setting them makes no difference
to the text, and does not make writing it fail.
-/

namespace SqlComposer

variable {Sub : Type}

/-- A join without the condition that it leaves out, that of a cross join. -/
def Join.bare (join : Join Sub) : Join Sub :=
  if join.kind = .cross then { join with condition := .every [] } else join

/-- Clauses without those that their statement leaves out. -/
def Clauses.bare (clauses : Clauses Sub) : Clauses Sub :=
  match clauses.verb with
  | .update _ | .delete => { clauses with
      source := .table
      distinct := none
      groups := []
      having := .unset
      windows := []
      combinations := []
      order := []
      limit := none
      offset := none
      lock := none }
  | .select => { clauses with joins := clauses.joins.map Join.bare }
  | .insert _ | .truncate _ | .copy _ | .describe _ => clauses

/-- Code is that of a join with its condition. -/
def Join.WrittenOn (join : Join Written) (code : Code) : Prop :=
  ∃ target condition, join.target.code = .ok target ∧
    join.condition.code? join.qualifier = .ok condition ∧
    code = .word join.kind.toSql :: .word " " :: target ++
      .word " ON " :: condition.getD [.word "true"]

/-! ## Joins -/

namespace Join

theorem code_bare (join : Join Written) : join.bare.code = join.code := by
  unfold bare
  split
  · rename_i hcross
    simp only [code, hcross, if_true]
  · rfl

/-- Any join but a cross join is written with its condition. -/
theorem writtenOn {join : Join Written} {code : Code} (h : join.code = .ok code)
    (conditional : join.kind ≠ .cross) : join.WrittenOn code := by
  simp only [Join.code, if_neg conditional, bind_eq_ok, pure_eq_ok] at h
  obtain ⟨target, htarget, condition, hcondition, _, rfl, rfl⟩ := h
  exact ⟨target, condition, htarget, hcondition, rfl⟩

end Join

theorem Statement.foldJoin_bare {Result : Type} (step : Clauses Result → Result)
    (join : Join Statement) : foldJoin step join.bare = (foldJoin step join).bare := by
  obtain ⟨kind, target, condition⟩ := join
  by_cases hcross : kind = .cross <;>
    simp [Join.bare, foldJoin, foldCondition, foldConditions, hcross]

/-! ## Clauses -/

namespace Clauses

theorem code_bare (clauses : Clauses Written) : clauses.bare.code = clauses.code := by
  have hjoins : (clauses.joins.map Join.bare).mapM Join.code = clauses.joins.mapM Join.code := by
    rw [List.mapM_map]
    exact congrArg (clauses.joins.mapM ·) (funext Join.code_bare)
  cases hverb : clauses.verb with
  | update | delete =>
    simp only [bare, hverb, code, verbCode, returningCode, returnsAll]
    rfl
  | select =>
    simp only [bare, hverb, code, verbCode, selectCode, hjoins]
    rfl
  | insert | truncate | copy | describe => simp only [bare, hverb]

theorem foldClauses_bare {Result : Type} (step : Clauses Result → Result)
    (clauses : Clauses Statement) :
    Statement.foldClauses step clauses.bare = (Statement.foldClauses step clauses).bare := by
  cases hverb : clauses.verb <;>
    simp [bare, hverb, Statement.foldClauses_eq, Statement.foldVerb, Statement.foldSource,
      Statement.foldFilter, Statement.foldGroups, Statement.foldCombinations, Filter.unset,
      Statement.foldJoin_bare, Function.comp_def]

/-- An update that is written joins nothing. -/
theorem joins_eq_nil {clauses : Clauses Written} {assignments : List Assignment} {code : Code}
    (verb : clauses.verb = .update assignments) (h : clauses.code = .ok code) :
    clauses.joins = [] := by
  obtain ⟨-, change, -, hchange, rfl⟩ := code_eq_ok h
  obtain ⟨table, _, _, -, hupdate, -, rfl⟩ := update_eq_ok verb hchange
  simp only [updateCode, bind_eq_ok, refusing_eq_ok] at hupdate
  obtain ⟨_, -, hjoins, -⟩ := hupdate
  simpa using hjoins

/-- The joins of a selection are written one after the other. -/
theorem exists_spaced {clauses : Clauses Written} {code : Code} (verb : clauses.verb = .select)
    (h : clauses.code = .ok code) : ∃ front joins rest, code = front ++ spaced joins ++ rest ∧
      List.Forall₂ (fun join own ↦ join.code = .ok own) clauses.joins joins := by
  obtain ⟨declarations, change, -, hchange, rfl⟩ := code_eq_ok h
  simp only [verbCode, verb, selectCode, bind_eq_ok, pure_eq_ok] at hchange
  obtain ⟨projection, -, source, -, joins, hjoins, filter, -, groups, -, having, -, windows, -,
    combinations, -, order, -, lock, -, rfl⟩ := hchange
  refine ⟨declarations ++ (.word "SELECT " :: clauses.distinctCode ++ projection ++ source), joins,
    filter ++ groups ++ having ++ windows ++ spaced combinations ++ order ++
      numberCode " LIMIT " clauses.writtenLimit ++ numberCode " OFFSET " clauses.offset ++ lock,
    ?_, forall₂_of_mapM hjoins⟩
  simp only [List.append_assoc, List.cons_append]

end Clauses

/-! ## Queries -/

namespace Query

/-- A query compiles, or fails to, as it does without the clauses that its statement leaves out. An
update that compiles joins nothing, and in the code of a selection stands every join with its
condition, apart from cross joins. -/
theorem compile_bare (query : Query) :
    (query.modify Clauses.bare).compile = query.compile ∧
    (∀ assignments sql, query.clauses.verb = .update assignments → query.compile = .ok sql →
      query.clauses.joins = []) ∧
    ∀ code, query.clauses.verb = .select → query.statement.code = .ok code →
      ∃ front joins rest, code = front ++ Clauses.spaced joins ++ rest ∧
        List.Forall₂ (fun join own ↦ join.kind ≠ .cross →
          (Statement.foldJoin Clauses.code join).WrittenOn own) query.clauses.joins joins := by
  have hcode (clauses : Clauses Statement) :
      Statement.code ⟨clauses⟩ = (Statement.foldClauses Clauses.code clauses).code := by
    rw [Statement.code, Statement.fold]
  refine ⟨?_, fun assignments sql hverb hcompiled ↦ ?_, fun code hverb hwritten ↦ ?_⟩
  · simp only [compile, Statement.compile, statement, modify, hcode, Clauses.foldClauses_bare,
      Clauses.code_bare]
  · obtain ⟨code, hwritten, -⟩ := map_eq_ok.1 hcompiled
    rw [statement, hcode] at hwritten
    have hjoins := Clauses.joins_eq_nil
      (by rw [Statement.verb_fold, hverb, Statement.foldVerb]) hwritten
    rw [Statement.joins_fold] at hjoins
    exact List.map_eq_nil_iff.1 hjoins
  · rw [statement, hcode] at hwritten
    obtain ⟨front, joins, rest, rfl, hjoins⟩ := Clauses.exists_spaced
      (by rw [Statement.verb_fold, hverb, Statement.foldVerb]) hwritten
    rw [Statement.joins_fold, List.forall₂_map_left_iff] at hjoins
    refine ⟨front, joins, rest, rfl, hjoins.imp fun join own hown conditional ↦ ?_⟩
    exact Join.writtenOn hown (by rwa [Statement.kind_foldJoin])

/-- The posts of users called Ada are joined where they are theirs. -/
theorem compile_bare_adas : ∃ code front joins rest,
    ((adas .left).modify Clauses.bare).compile = (adas .left).compile ∧
    (adas .left).statement.code = .ok code ∧ code = front ++ Clauses.spaced joins ++ rest ∧
    List.Forall₂ (fun join own ↦ (Statement.foldJoin Clauses.code join).WrittenOn own)
      (adas .left).clauses.joins joins := by
  obtain ⟨code, hcode⟩ : ∃ code, (adas .left).statement.code = .ok code := ⟨_, rfl⟩
  obtain ⟨hsame, -, hwritten⟩ := compile_bare (adas .left)
  obtain ⟨front, joins, rest, hplace, hjoins⟩ := hwritten code rfl hcode
  refine ⟨code, front, joins, rest, hsame, hcode, hplace, ?_⟩
  cases hjoins with
  | cons hfirst hothers =>
    cases hothers
    exact .cons (hfirst nofun) .nil

def isAda : Condition Statement :=
  .compare ⟨none, "name"⟩ .equals (.term (.literal (.text "Ada")))

def isAuthor : Condition Statement :=
  .compare ⟨none, "authorId"⟩ .equals (.term (.column ⟨some "user", "id"⟩))

def oneAda : Query := ((Query.ofTable (.named "user")).filter isAda).limit 1

def withoutOneAda : Query := (oneAda.delete).toOption.getD oneAda

theorem delete_oneAda : oneAda.delete = .ok withoutOneAda := rfl

theorem reachable_users : (Query.ofTable (.named "user")).Reachable fun _ ↦ True :=
  .ofTable _ none none

theorem reachable_adas (kind : JoinKind) : (adas kind).Reachable fun _ ↦ True :=
  (reachable_users.call_alone (.joinOn kind (.table "post" none none) isAuthor)
    ⟨trivial, trivial⟩ rfl).call_alone (.filter isAda) trivial rfl

theorem reachable_oneAda : oneAda.Reachable fun _ ↦ True :=
  (reachable_users.call_alone (.filter isAda) trivial rfl).call_alone (.limit 1) trivial rfl

/-- Deleting one user called Ada deletes all of them, and the users called Ada are joined to every
post, whatever condition the cross join was given. -/
theorem compile_oneAda :
    (∃ sql, withoutOneAda.Reachable (fun _ ↦ True) ∧ withoutOneAda.clauses.verb = .delete ∧
      withoutOneAda.clauses.limit = some 1 ∧ withoutOneAda.compile = .ok sql ∧
      sql.text = "DELETE FROM \"user\" WHERE \"user\".\"name\" = $1") ∧
    ∃ sql, (adas .cross).Reachable (fun _ ↦ True) ∧ (adas .cross).clauses.verb = .select ∧
      (adas .cross).clauses.joins = [⟨.cross, .table "post" none none, isAuthor⟩] ∧
      (adas .cross).compile = .ok sql ∧
      sql.text = "SELECT \"user\".* FROM \"user\" CROSS JOIN \"post\" " ++
        "WHERE \"user\".\"name\" = $1" := by
  obtain ⟨deleting, hdeleting⟩ : ∃ sql, withoutOneAda.compile = .ok sql := ⟨_, rfl⟩
  obtain ⟨selecting, hselecting⟩ : ∃ sql, (adas .cross).compile = .ok sql := ⟨_, rfl⟩
  refine ⟨⟨deleting, reachable_oneAda.call_alone .delete trivial delete_oneAda, rfl, rfl,
    hdeleting, ?_⟩, selecting, reachable_adas .cross, rfl, rfl, hselecting, ?_⟩
  · cases hdeleting
    decide +kernel
  · cases hselecting
    decide +kernel

end Query
end SqlComposer
