import SqlComposer.Proofs.Insertion.RelatedRowNumbers
import SqlComposer.Proofs.Layout.StatementLayout

/-!
# Lists without elements

Most clauses that hold a list are left out or refused when the list is empty. Four are not: the
columns on which an insertion may be in conflict, the values that a merge sets, the columns of an
insertion from a fragment, and the tables that a lock is for. A query that is given none of these
empty, in itself and in the statements in it, has no empty list in its code; one that is given any
has.
-/

namespace SqlComposer

/-! ## Lists in code -/

namespace Piece

/-- Whether a list has to start behind a piece: it is a word that opens one, or an opening bracket
that holds neither arguments nor a window. -/
def opens (called : Bool) : Piece → Bool
  | word content => Code.listWords.contains content || content == "(" && !called
  | _ => false

/-- Whether brackets behind a piece hold arguments or a window. -/
def calls : Piece → Bool
  | word content => Code.isCallWord content
  | _ => false

end Piece

mutual

/-- Whether the lists in the items that a change hands back have elements. -/
def Piece.isListed : Piece → Bool
  | .itemsThenMissing items columns => Code.areListed items && Code.areListed columns
  | _ => true

/-- Whether all lists in code have elements, `called` being whether brackets at its start hold
arguments or a window. -/
def Code.isListed (called : Bool) : Code → Bool
  | [] => true
  | piece :: rest =>
    piece.isListed && (!piece.opens called || Code.begins rest) && Code.isListed piece.calls rest

def Code.areListed : List Code → Bool
  | [] => true
  | item :: rest => Code.isListed false item && Code.areListed rest

end

namespace Code

variable {full : Prop} {top called : Bool} {code other : Code}

/-- Every list in code has an element where it starts. -/
def Listed (code : Code) : Prop := isListed false code

instance (code : Code) : Decidable (Listed code) := inferInstanceAs (Decidable (_ = true))

theorem isListed_cons {piece : Piece} : isListed called (piece :: code) ↔
    piece.isListed ∧ (piece.opens called → begins code) ∧ isListed piece.calls code := by
  rw [isListed]
  cases piece.opens called <;> simp [and_assoc]

theorem areListed_iff {items : List Code} : areListed items ↔ ∀ item ∈ items, Listed item := by
  induction items with
  | nil => simp [areListed]
  | cons item rest ih => simp [areListed, Listed, ih]

/-- Behind what may call, no more is asked for. -/
theorem Listed.behind (h : Listed code) (called : Bool) : isListed called code := by
  cases called with
  | false => exact h
  | true =>
    cases code with
    | nil => rfl
    | cons piece rest =>
      obtain ⟨hpiece, hopens, hrest⟩ := isListed_cons.1 h
      refine isListed_cons.2 ⟨hpiece, fun hcalled ↦ hopens ?_, hrest⟩
      cases piece with
      | word content => simpa [Piece.opens] using Or.inl (by simpa [Piece.opens] using hcalled)
      | _ => cases hcalled

theorem isListed_append (h : isListed called code) (hother : Listed other) :
    isListed called (code ++ other) := by
  induction code generalizing called with
  | nil => exact hother.behind called
  | cons piece rest ih =>
    obtain ⟨hpiece, hopens, hrest⟩ := isListed_cons.1 h
    exact isListed_cons.2 ⟨hpiece, fun hcalled ↦ begins_append (hopens hcalled) other, ih hrest⟩

/-- Words that open a list hold a blank, which names and formats do not. -/
theorem opens_eq_false {content : String} (blank : ' ' ∉ content.toList)
    (bracket : '(' ∉ content.toList) : Piece.opens called (.word content) = false := by
  have hlists : listWords.all (fun word ↦ word.toList.contains ' ') = true := by decide
  simp only [Piece.opens, Bool.or_eq_false_iff, Bool.and_eq_false_imp, beq_iff_eq]
  refine ⟨Bool.eq_false_iff.2 fun hmem ↦ blank ?_, fun hbracket ↦ absurd ?_ bracket⟩
  · simpa using List.all_eq_true.1 hlists content (by simpa using hmem)
  · rw [hbracket]
    decide

theorem opens_call {word : String} (h : isCallWord word) :
    Piece.opens called (.word word) = false := by
  simp only [isCallWord, Bool.or_eq_true, beq_iff_eq] at h
  rcases h with (form | rfl) | rfl
  · exact opens_eq_false (not_mem_function form (by decide)) (not_mem_function form (by decide))
  · cases called <;> decide
  · cases called <;> decide

theorem opens_format {word : String} (form : CopyOptions.isFormat word) :
    Piece.opens called (.word word) = false := by
  unfold CopyOptions.isFormat at form
  rw [Bool.and_eq_true, List.all_eq_true] at form
  exact opens_eq_false (fun hc ↦ absurd (form.2 _ hc) (by decide))
    fun hc ↦ absurd (form.2 _ hc) (by decide)

theorem opens_plain {piece : Piece} (h : piece.isPlain) : piece.opens called = false := by
  cases piece with
  | word content =>
    simp only [Piece.isPlain, isPlainWord, List.contains_eq_mem, List.mem_append, List.mem_cons,
      Bool.not_eq_true', decide_eq_false_iff_not, not_or] at h
    simp [Piece.opens, h.1.1.1, h.1.2]
  | _ => rfl

private theorem listed_single {piece : Piece} (listed : piece.isListed)
    (opens : piece.opens called = false) : isListed called [piece] := by
  refine isListed_cons.2 ⟨listed, fun h ↦ ?_, rfl⟩
  rw [opens] at h
  cases h

private theorem listed_bracketed (h : Listed code) (some : begins code) :
    Listed (parenthesized code) :=
  isListed_cons.2 ⟨rfl, fun _ ↦ begins_append some _, isListed_append (h.behind _) (by decide)⟩

/-- Where all lists of code that is laid out are asked to have elements, they do. -/
theorem Laid.listed (h : Laid full top code) (hfull : full) : Listed code := by
  induction h with
  | nil => rfl
  | @plain _ piece h => exact listed_single (by cases piece <;> trivial) (opens_plain h)
  | append _ _ ih ihother => exact isListed_append ih ihother
  | list _ _ some ih => exact isListed_cons.2 ⟨rfl, fun _ ↦ some hfull, ih.behind _⟩
  | bracketed _ some ih => exact listed_bracketed ih (some hfull)
  | @call _ word code calls _ ih =>
    refine isListed_cons.2 ⟨rfl, fun hopens ↦ ?_, isListed_cons.2 ⟨rfl, fun hopens ↦ ?_,
      isListed_append (ih.behind _) (by decide)⟩⟩
    · rw [opens_call calls] at hopens
      cases hopens
    · rw [Piece.calls, calls] at hopens
      cases hopens
  | @operation word h =>
    have hall : ∀ word ∈ operationWords, isListed false [.word word] := by decide
    exact hall word h
  | format h => exact listed_single rfl (opens_format h)
  | returned _ _ ihitems ihcolumns =>
    refine listed_single ?_ rfl
    rw [Piece.isListed, Bool.and_eq_true, areListed_iff, areListed_iff]
    exact ⟨ihitems, ihcolumns⟩

/-! ## Empty lists -/

/-- A list that has no element is seen wherever it stands. -/
theorem not_listed {front rest : Code} {piece : Piece}
    (h : ∀ called, ¬isListed called (piece :: rest)) : ¬Listed (front ++ piece :: rest) := by
  suffices ∀ called, ¬isListed called (front ++ piece :: rest) from this false
  induction front with
  | nil => exact h
  | cons first others ih => exact fun called hlisted ↦ ih _ (isListed_cons.1 hlisted).2.2

theorem not_listed_word (front : Code) {rest : Code} {word : String} (opens : word ∈ listWords)
    (none : begins rest = false) : ¬Listed (front ++ .word word :: rest) := by
  refine not_listed fun called hlisted ↦ ?_
  have hopens : Piece.opens called (.word word) := by simp [Piece.opens, opens]
  exact Bool.false_ne_true (none.symm.trans ((isListed_cons.1 hlisted).2.1 hopens))

theorem not_listed_bracket (front : Code) {rest : Code} {piece : Piece}
    (calls : piece.calls = false) (none : begins rest = false) :
    ¬Listed (front ++ piece :: .word "(" :: rest) := by
  refine not_listed fun called hlisted ↦ ?_
  have hbracket := (isListed_cons.1 hlisted).2.2
  rw [calls] at hbracket
  exact Bool.false_ne_true (none.symm.trans ((isListed_cons.1 hbracket).2.1 rfl))

end Code

open Code (Listed)

/-! ## Lists that are given empty -/

section Hollow

variable {filter : Filter Written} {qualifier : Qualifier} {code rest : Code} (front : Code)

/-- A reaction that is given an empty list is written with it. -/
theorem Conflict.not_listed {conflict : Conflict} {inserted : List String}
    (hollow : conflict.isHollow) (h : conflict.code inserted filter qualifier = .ok code)
    (ends : Code.begins rest = false) : ¬Listed (front ++ code ++ rest) := by
  obtain ⟨target, action⟩ := conflict
  obtain ⟨written, hwritten, h⟩ := bind_eq_ok.1 h
  rw [isHollow, Bool.or_eq_true] at hollow
  rcases hollow with hollow | hollow
  · -- The brackets of the target close where they open, whatever the action is.
    obtain ⟨behind, rfl⟩ : ∃ behind, code = Piece.word " ON CONFLICT" :: written ++ behind := by
      cases action with
      | ignore =>
        simp only [refusing_eq_ok, pure_eq_ok] at h
        exact ⟨_, h.2.symm⟩
      | merge spec =>
        simp only [bind_eq_ok, pure_eq_ok] at h
        obtain ⟨_, _, _, _, rfl⟩ := h
        exact ⟨_, by rw [List.append_assoc, List.cons_append]⟩
    cases target with
    | columns names =>
      cases hwritten
      rw [List.isEmpty_iff.1 hollow]
      have hcalls : Piece.calls (.word " ") = false := by decide
      have hnone : Code.begins (.word ")" :: (behind ++ rest)) = false := rfl
      have hall := Code.not_listed_bracket (front ++ [Piece.word " ON CONFLICT"]) hcalls hnone
      simpa [Code.parenthesized, Code.nameList, Code.separated] using hall
    | raw | inferred => cases hollow
  · cases action with
    | ignore => cases hollow
    | merge spec =>
      cases spec with
      | values assigned =>
        rw [List.isEmpty_iff.1 hollow] at h
        simp only [MergeSpec.code, List.mapM_nil, pure_bind, bind_eq_ok, pure_eq_ok] at h
        obtain ⟨condition, -, rfl⟩ := h
        have hset : " DO UPDATE SET " ∈ Code.listWords := by decide
        have hall (condition : Code) (none : Code.begins (condition ++ rest) = false) :=
          Code.not_listed_word (front ++ Piece.word " ON CONFLICT" :: written) hset none
        cases condition with
        | none => simpa [Code.separated] using hall [] ends
        | some condition => simpa [Code.separated] using hall (.word " WHERE " :: condition) rfl
      | _ => cases hollow

/-- The target of a change ends with a name. -/
theorem Clauses.exists_target (clauses : Clauses Written) (table : Table) :
    ∃ front text, clauses.targetCode table = front ++ [Piece.name text] := by
  unfold targetCode Code.renamed
  obtain ⟨front, hfront⟩ : ∃ front, table.code = front ++ [Piece.name table.name] := by
    unfold Table.code Code.table
    split
    · exact ⟨[.name _, .word "."], rfl⟩
    · exact ⟨[], rfl⟩
  rw [hfront]
  split
  · split
    · exact ⟨front, table.name, List.append_nil _⟩
    · rename_i label _ _
      exact ⟨front ++ [Piece.name table.name, .word " AS "], label, by simp [Code.aliased]⟩
  · exact ⟨front, table.name, List.append_nil _⟩

/-- So is an insertion. -/
theorem Insertion.not_listed {insertion : Insertion Written} {target : Code} {text : String}
    (hollow : insertion.isHollow)
    (h : insertion.code (target ++ [Piece.name text]) filter qualifier = .ok code)
    (ends : Code.begins rest = false) : ¬Listed (front ++ code ++ rest) := by
  obtain ⟨columns, source, conflict⟩ := insertion
  obtain ⟨written, hwritten, h⟩ := bind_eq_ok.1 h
  rw [isHollow, Bool.or_eq_true] at hollow
  rcases hollow with hollow | hollow
  · cases source with
    | raw fragment =>
      simp only [sourceCode, bind_eq_ok, pure_eq_ok] at hwritten
      obtain ⟨rows, -, rfl⟩ := hwritten
      obtain ⟨behind, rfl⟩ : ∃ behind, code =
          Piece.word "INSERT INTO " :: (target ++ [Piece.name text]) ++
            (Code.parenthesized (Code.nameList columns) ++ .word " VALUES " :: rows) ++
              behind := by
        split at h
        · obtain ⟨reaction, -, hcode⟩ := bind_eq_ok.1 h
          exact ⟨reaction, (pure_eq_ok.1 hcode).symm⟩
        · simp only [refusing_eq_ok, pure_bind, pure_eq_ok] at h
          exact ⟨[], h.2.symm⟩
      have hcolumns : columns = [] := List.isEmpty_iff.1 hollow
      rw [hcolumns]
      have hcalls : Piece.calls (.name text) = false := rfl
      have hnone : Code.begins (.word ")" :: .word " VALUES " :: rows ++ behind ++ rest) = false :=
        rfl
      have hall := Code.not_listed_bracket (front ++ .word "INSERT INTO " :: target) hcalls hnone
      simpa [Code.parenthesized, Code.nameList, Code.separated] using hall
    | rows | query => cases hollow
  · cases conflict with
    | none => cases hollow
    | some conflict =>
      obtain ⟨reaction, hreaction, hcode⟩ := bind_eq_ok.1 h
      rw [← pure_eq_ok.1 hcode]
      have hall := Conflict.not_listed
        (front ++ Piece.word "INSERT INTO " :: (target ++ [Piece.name text]) ++ written) hollow
        hreaction ends
      simpa using hall

/-- So is a lock. -/
theorem RowLock.not_listed {lock : RowLock} (hollow : lock.isHollow) (h : lock.code = .ok code) :
    ¬Listed (front ++ code) := by
  obtain ⟨strength, tables, wait⟩ := lock
  match tables with
  | some (.names tables) =>
    simp only [RowLock.code, pure_bind, pure_eq_ok] at h
    rw [List.isEmpty_iff.1 hollow] at h
    have hnone : Code.begins (waitCode wait) = false := by
      rcases wait with _ | _ | _ <;> rfl
    have hof : " OF " ∈ Code.listWords := by decide
    have hall := Code.not_listed_word (front ++ [Piece.word "FOR ", .word strength.toSql]) hof hnone
    rw [← h]
    have hcode : front ++ (Piece.word "FOR " :: .word strength.toSql ::
        (.word " OF " :: Code.nameList []) ++ waitCode wait) =
        front ++ [Piece.word "FOR ", .word strength.toSql] ++ .word " OF " :: waitCode wait := by
      simp [Code.nameList, Code.separated]
    exact hcode ▸ hall
  | some (.raw _) | none => cases hollow

end Hollow

/-- A statement that is given an empty list is written with it. -/
theorem Clauses.not_listed {clauses : Clauses Written} {code : Code} (hollow : clauses.isHollow)
    (h : clauses.code = .ok code) : ¬Listed code := by
  obtain ⟨declarations, change, -, hverbal, rfl⟩ := code_eq_ok h
  unfold isHollow at hollow
  cases hverb : clauses.verb with
  | select =>
    rw [hverb] at hollow
    simp only [verbCode, hverb, selectCode, bind_eq_ok, pure_eq_ok] at hverbal
    obtain ⟨_, -, _, -, _, -, _, -, _, -, _, -, _, -, _, -, _, -, written, hwritten, rfl⟩ := hverbal
    unfold lockCode at hwritten
    split at hwritten
    · rename_i lock hlock
      rw [hlock] at hollow
      obtain ⟨own, hown, hcode⟩ := bind_eq_ok.1 hwritten
      rw [← pure_eq_ok.1 hcode, List.append_cons, ← List.append_assoc]
      exact RowLock.not_listed _ hollow hown
    · rename_i hlock
      rw [hlock] at hollow
      cases hollow
  | insert insertion =>
    rw [hverb] at hollow
    obtain ⟨table, change, returning, -, hchange, hreturning, rfl⟩ := insert_eq_ok hverb hverbal
    obtain ⟨front, text, htarget⟩ := exists_target clauses table
    rw [htarget] at hchange
    rw [← List.append_assoc]
    refine Insertion.not_listed _ hollow hchange ?_
    unfold returningCode at hreturning
    split at hreturning
    · cases hreturning
      rfl
    · obtain ⟨items, -, h⟩ := bind_eq_ok.1 hreturning
      dsimp only at h
      split at h <;> cases h <;> rfl
  | _ =>
    rw [hverb] at hollow
    cases hollow

/-! ## Queries -/

namespace Query

/-- Clauses that methods lead to bring lists of their own that have elements. -/
theorem Reachable.regular {supplied : Fragment → Prop} {query : Query}
    (reached : query.Reachable supplied) : query.clauses.Regular := by
  rintro ⟨columns, source, conflict⟩ hverb
  constructor
  · rintro rows rfl
    exact reached.kept.width hverb
  · rintro sub rfl
    exact reached.kept.sourced hverb

/-- Fragments of the library have a text. -/
theorem sql_library {fragment : Fragment} (library : fragment.IsLibrary) :
    fragment.sql ≠ "" := by
  cases library with
  | number h =>
    rcases holdsDigit_json h with rfl | hdigit
    · exact (by decide : "null" ≠ "")
    · rintro rfl
      cases hdigit
  | rows shape => cases shape <;> decide

/-- Where no fragment is empty, the code of a query has no empty list if none was given to it or to
a statement in it, and it has one if it was given one itself. -/
theorem Reachable.listed_unless_hollow {query : Query}
    (reached : query.Reachable fun fragment ↦ fragment.sql ≠ "") {code : Code}
    (written : query.statement.code = .ok code) :
    (query.clauses.isHollow = false →
      (∀ inner, query.clauses.Contains inner → inner.clauses.isHollow = false) → code.Listed) ∧
    (query.clauses.isHollow = true → ¬code.Listed) := by
  constructor
  · intro own contained
    have hall : query.statement.Throughout (Fragment.Fills True) Clauses.Regular :=
      reached.throughout (fun _ h _ ↦ h) (fun _ h _ ↦ sql_library h) (fun h ↦ h.regular)
        fun clauses hverb insertion hinsertion ↦ by cases hverb.symm.trans hinsertion
    have hfilled : query.statement.Throughout (Fragment.Fills True) (Statement.Filled True) :=
      ⟨hall.checked, fun _ ↦ ⟨hall.own, own⟩,
        fun inner hinner _ ↦ ⟨hall.contained inner hinner, contained inner hinner⟩⟩
    exact (hfilled.whole code written).laid.listed trivial
  · intro hollow
    rw [statement, Statement.code, Statement.fold] at written
    exact Clauses.not_listed ((Clauses.isHollow_fold _ _).trans hollow) written

end Query

/-! ## Users -/

/-- The query that a call leads to, or the one it is made on if it is refused. -/
def Call.applied (call : Call) (query : Query) : Query := (call.apply query).toOption.getD query

namespace Blog

def enrolled : Query := (Call.insert (text "name" "Ada")).applied users

/-- The insertion of Ada, whose name replaces the one she is in conflict with. -/
def merged : Query := (Call.mergeConflict (.columns ["name"]) .inserted).applied enrolled

theorem reachable_users {supplied : Fragment → Prop} : users.Reachable supplied :=
  .ofTable user (some catalog) none

theorem checked_text {raw : Fragment → Prop} (key content : String) :
    (text key content).Checked raw := by
  intro entry term hentry
  cases List.mem_singleton.1 hentry
  trivial

theorem reachable_enrolled {supplied : Fragment → Prop} : enrolled.Reachable supplied :=
  reachable_users.call_alone (.insert (text "name" "Ada")) (checked_text _ _) rfl

theorem reachable_merged {supplied : Fragment → Prop} : merged.Reachable supplied :=
  reachable_enrolled.call_alone (.mergeConflict (.columns ["name"]) .inserted)
    ⟨trivial, trivial⟩ rfl

end Blog
namespace Query

/-- The lists of a merge have elements. -/
theorem listed_merged : ∃ code, Blog.merged.statement.code = .ok code ∧ code.Listed := by
  obtain ⟨code, hcode⟩ : ∃ code, Blog.merged.statement.code = .ok code := ⟨_, rfl⟩
  refine ⟨code, hcode,
    (Reachable.listed_unless_hollow Blog.reachable_merged hcode).1 rfl fun inner hinner ↦ ?_⟩
  have hnone : ¬Blog.merged.clauses.Contains inner :=
    Clauses.not_contains_rows rfl rfl rfl fun item hitem ↦ nomatch hitem
  exact absurd hinner hnone

/-- A query that methods lead to compiles, with a list that has no element. -/
def WritesEmpty (query : Query) (text : String) : Prop :=
  query.Reachable (fun fragment ↦ fragment.sql ≠ "") ∧
    (∃ code, query.statement.code = .ok code ∧ ¬code.Listed) ∧
    ∃ sql, query.compile = .ok sql ∧ sql.text = text

/-- Four lists are written without an element. -/
theorem writesEmpty_users :
    ((Call.ignoreConflict (.columns [])).applied Blog.enrolled).WritesEmpty
      "INSERT INTO \"user\"(\"name\") VALUES ($1) ON CONFLICT () DO NOTHING RETURNING *" ∧
    ((Call.setConflict (.columns ["name"]) (Blog.text "nick" "Ada")).applied
      Blog.enrolled).WritesEmpty
      ("INSERT INTO \"user\"(\"name\") VALUES ($1) ON CONFLICT (\"name\") DO UPDATE SET  " ++
        "RETURNING *") ∧
    ((Call.insertRaw [] (.verbatim "('Ada')")).applied Blog.users).WritesEmpty
      "INSERT INTO \"user\"() VALUES ('Ada') RETURNING *" ∧
    ((Call.lockOf []).applied ((Call.lock .update).applied Blog.users)).WritesEmpty
      "SELECT \"user\".* FROM \"user\" FOR UPDATE OF " := by
  have hwrites {query : Query} {text : String}
      (reached : query.Reachable fun fragment ↦ fragment.sql ≠ "") {code : Code}
      {sql : CompiledSql} (hcode : query.statement.code = .ok code) (hollow : ¬code.Listed)
      (hsql : query.compile = .ok sql) (htext : sql.text = text) : query.WritesEmpty text :=
    ⟨reached, ⟨code, hcode, hollow⟩, sql, hsql, htext⟩
  have hlocked : ((Call.lock .update).applied Blog.users).Reachable
      fun fragment ↦ fragment.sql ≠ "" :=
    Blog.reachable_users.call_alone (.lock .update) trivial rfl
  refine ⟨hwrites (Blog.reachable_enrolled.call_alone (.ignoreConflict (.columns [])) trivial rfl)
      rfl (by decide +kernel) rfl (by decide +kernel),
    hwrites (Blog.reachable_enrolled.call_alone
      (.setConflict (.columns ["name"]) (Blog.text "nick" "Ada"))
      ⟨trivial, Blog.checked_text _ _⟩ rfl) rfl (by decide +kernel) rfl (by decide +kernel),
    hwrites (Blog.reachable_users.call_alone (.insertRaw [] (.verbatim "('Ada')")) ?_ rfl)
      rfl (by decide +kernel) rfl (by decide +kernel),
    hwrites (hlocked.call_alone (.lockOf []) trivial rfl) rfl (by decide +kernel) rfl
      (by decide +kernel)⟩
  exact (by decide : "('Ada')" ≠ "")

end Query

end SqlComposer
