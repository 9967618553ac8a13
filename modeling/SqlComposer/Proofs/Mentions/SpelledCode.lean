import Mathlib.Data.List.Basic
import SqlComposer.Proofs.Code.PrintedText
import SqlComposer.Proofs.Mentions.StatementMentions
import SqlComposer.Proofs.Script.ExceptResults

/-!
# Code that spells what a statement mentions

Code spells a list of mentions if it writes them one after another, each as its own piece or pieces,
with only words of the library between them, and so that no two pieces can run into each other: a
name, a string constant, a placeholder or a fragment is followed by the end or by a word that starts
with neither a quote nor a digit. The relation is built piece by piece, so facts about texts are
proved once, by induction on it, and not once for every clause.
-/

namespace SqlComposer

namespace Code

/-! ## The words of the library -/

def punctuation : List String :=
  ["(", ")", ", ", ".", "*", ".*", " ", " = ", " + ", " - ", " || ", " AS "]

def selectionWords : List String :=
  ["SELECT ", "DISTINCT ", "DISTINCT ON ", " FROM ", " WHERE ", " GROUP BY ", " HAVING ",
    " WINDOW ", " ORDER BY ", " LIMIT ", " OFFSET ", " OVER ", "count"]

def orderWords : List String :=
  ["PARTITION BY ", "ORDER BY ", "ASC", "DESC", "ASC NULLS FIRST", "ASC NULLS LAST",
    "DESC NULLS FIRST", "DESC NULLS LAST"]

def conditionWords : List String :=
  [" AND ", " OR ", "NOT ", "EXISTS ", " IS NULL", " IS NOT NULL", " BETWEEN ", "1=0", "1=1", "=",
    "<>", "<", "<=", ">", ">=", "IN", "NOT IN", "LIKE", "ILIKE", "@>", "<@", "BETWEEN",
    " WITHIN GROUP ", " FILTER ", "WHERE ", "true"]

def sourceWords : List String :=
  ["JOIN", "LEFT JOIN", "RIGHT JOIN", "FULL JOIN", "CROSS JOIN", " ON ", " USING ", "WITH ",
    "RECURSIVE ", "MATERIALIZED ", "NOT MATERIALIZED ", "UNION", "UNION ALL", "INTERSECT",
    "INTERSECT ALL", "EXCEPT", "EXCEPT ALL"]

def lockWords : List String :=
  ["FOR ", "UPDATE", "NO KEY UPDATE", "SHARE", "KEY SHARE", " OF ", "NOWAIT", "SKIP LOCKED"]

def jsonWords : List String :=
  ["jsonb_set", "jsonb_insert", " #- ", "jsonb_path_query", "::text::jsonpath", ", true", ", false"]

def changeWords : List String :=
  ["INSERT INTO ", " VALUES ", " DEFAULT VALUES", "DEFAULT", " ON CONFLICT", " DO NOTHING",
    " DO UPDATE SET ", " = excluded.", "UPDATE ", " SET ", " = now()", "DELETE FROM ",
    " RETURNING ", " RETURNING *"]

def bulkWords : List String :=
  ["TRUNCATE ", " RESTART IDENTITY", " CASCADE", "COPY ", " TO ", "PROGRAM ", "STDIN", "STDOUT",
    " WITH ", "FORMAT", "FREEZE", "DELIMITER", "NULL", "HEADER", "QUOTE", "ESCAPE", "FORCE_QUOTE",
    "FORCE_NOT_NULL", "FORCE_NULL", "ENCODING", "false", "match"]

def descriptionWords : List String :=
  ["SELECT * FROM information_schema.columns WHERE table_name = ",
    " AND table_catalog = current_database()", " AND table_schema = ",
    " AND table_schema = current_schema()", " AND column_name = "]

/-- The words that the library writes of its own accord. -/
def vocabulary : List String :=
  punctuation ++ selectionWords ++ orderWords ++ conditionWords ++ sourceWords ++ lockWords ++
    jsonWords ++ changeWords ++ bulkWords ++ descriptionWords

/-- The words of the library hold neither dollar signs nor quotation marks. -/
theorem not_mem_of_mem_vocabulary {word : String} (known : word ∈ vocabulary) :
    ∀ c ∈ word.toList, c ∉ ['$', '"', '\''] := by
  have hall : vocabulary.all (fun word ↦ word.toList.all (· ∉ ['$', '"', '\''])) = true := by
    decide +kernel
  simpa using List.all_eq_true.1 hall word known

/-- The string constants that the library writes of its own accord. -/
def constants : List String := ["%"]

/-! ## Code that keeps apart -/

/-- Whether a character can stand behind any piece: it neither goes on with a number nor with what
is in quotes. -/
def separates (c : Char) : Bool := c != '"' && c != '\'' && !c.isDigit

/-- Whether code can stand behind any piece: there is none, or it starts with a word that keeps
apart from what stands in front of it. -/
def led : Code → Bool
  | [] => true
  | .word word :: _ => word.toList.head?.any separates
  | _ => false

@[simp]
theorem led_nil : led [] = true := rfl

@[simp]
theorem led_word {word : String} {code : Code} :
    led (.word word :: code) = word.toList.head?.any separates := rfl

theorem led_append {code other : Code} (h : code.led) (hother : other.led) :
    (code ++ other).led := by
  cases code with
  | nil => exact hother
  | cons piece rest => cases piece <;> simp_all [led]

/-- The code of a column of the statement's own. -/
def ofColumn (owner : Option String) (column : String) : Code :=
  (ColumnRef.unqualified column).code (owner.map .name)

end Code

/-- Whether a piece occurs in no reference to a column. -/
def Piece.isForeign : Piece → Bool
  | .word content => content.toList.any fun c ↦ c != '.' && c != '*'
  | .text _ | .splice _ | .bind _ => true
  | .name _ | .unused _ | .itemsThenMissing _ _ => false

open Code in
/-- The code writes what is mentioned, in order. Words that are not the library's own have their
form, and fragments are of the kind. -/
inductive Spells (raw : Fragment → Prop) : Code → List Mention → Prop
  | nil : Spells raw [] []
  | word {word : String} {code : Code} {mentions : List Mention} (known : word ∈ vocabulary)
      (rest : Spells raw code mentions) : Spells raw (.word word :: code) mentions
  | function {name : String} {code : Code} {mentions : List Mention} (form : isFunctionName name)
      (rest : Spells raw code mentions) :
      Spells raw (.word name :: code) (.function name :: mentions)
  | format {word : String} {code : Code} {mentions : List Mention}
      (form : CopyOptions.isFormat word) (rest : Spells raw code mentions) :
      Spells raw (.word word :: code) (.format word :: mentions)
  | name {text : String} {code : Code} {mentions : List Mention} (lead : code.led)
      (rest : Spells raw code mentions) : Spells raw (.name text :: code) (.name text :: mentions)
  | constant {text : String} {code : Code} {mentions : List Mention} (known : text ∈ constants)
      (lead : code.led) (rest : Spells raw code mentions) :
      Spells raw (.text text :: code) (.constant text :: mentions)
  | path {path : List JsonKey} {code : Code} {mentions : List Mention} (lead : code.led)
      (rest : Spells raw code mentions) :
      Spells raw (.text (JsonKey.array path) :: code) (.path path :: mentions)
  | option {text : String} {code : Code} {mentions : List Mention} (lead : code.led)
      (rest : Spells raw code mentions) :
      Spells raw (.text text :: code) (.option text :: mentions)
  | value {value : Literal} {code : Code} {mentions : List Mention} (lead : code.led)
      (rest : Spells raw code mentions) :
      Spells raw (.bind value :: code) (.value value :: mentions)
  | lost {value : Literal} {code : Code} {mentions : List Mention}
      (rest : Spells raw code mentions) :
      Spells raw (.unused value :: code) (.lost value :: mentions)
  | fragment {fragment : Fragment} {code : Code} {mentions : List Mention}
      (sound : fragment.fault? = none) (kind : raw fragment) (lead : code.led)
      (rest : Spells raw code mentions) :
      Spells raw (fragment.pieces ++ code) (.fragment fragment :: mentions)
  /-- The items of a change that hands back rows, and the columns not handed back by an item. -/
  | returned {items : List (Code × List Mention)} {owner : Option String} {columns : List String}
      {missing : String → Bool} {code : Code} {mentions : List Mention}
      (spelled : ∀ item ∈ items, Spells raw item.1 item.2)
      (apart : ∀ item ∈ items, (∃ column : ColumnRef, item.1 = column.code (owner.map .name)) ∨
        item.1.any Piece.isForeign)
      (decided : ∀ column ∈ columns,
        missing column = true ↔ ofColumn owner column ∉ items.map Prod.fst)
      (lead : code.led) (rest : Spells raw code mentions) :
      Spells raw (.itemsThenMissing (items.map Prod.fst) (columns.map (ofColumn owner)) :: code)
        (items.flatMap Prod.snd ++
          ((columns.filter missing).eraseDups.flatMap fun column ↦
            (ColumnRef.unqualified column).mentions owner) ++ mentions)

namespace Spells

variable {raw : Fragment → Prop} {code other : Code} {mentions others : List Mention}

/-- Code behind code spells what both mention. -/
theorem append (h : Spells raw code mentions) (hother : Spells raw other others)
    (lead : other.led) : Spells raw (code ++ other) (mentions ++ others) := by
  induction h with
  | nil => exact hother
  | word known _ ih => exact .word known ih
  | function form _ ih => exact .function form ih
  | format form _ ih => exact .format form ih
  | name first _ ih => exact .name (Code.led_append first lead) ih
  | constant known first _ ih => exact .constant known (Code.led_append first lead) ih
  | path first _ ih => exact .path (Code.led_append first lead) ih
  | option first _ ih => exact .option (Code.led_append first lead) ih
  | value first _ ih => exact .value (Code.led_append first lead) ih
  | lost _ ih => exact .lost ih
  | fragment sound kind first _ ih =>
    rw [List.append_assoc]
    exact .fragment sound kind (Code.led_append first lead) ih
  | returned spelled apart decided first _ _ ih =>
    rw [List.append_assoc]
    exact .returned spelled apart decided (Code.led_append first lead) ih

/-- Code behind a word that keeps it apart from other code. -/
theorem glued (word : String) (h : Spells raw code mentions) (hother : Spells raw other others)
    (known : word ∈ Code.vocabulary) (lead : Code.led [.word word]) :
    Spells raw (code ++ .word word :: other) (mentions ++ others) :=
  h.append (.word known hother) lead

theorem parenthesized (h : Spells raw code mentions) :
    Spells raw (Code.parenthesized code) mentions := by
  have hend : Spells raw [.word ")"] [] :=
    .word (by simp [Code.vocabulary, Code.punctuation]) .nil
  have hclosed := h.append hend rfl
  rw [List.append_nil] at hclosed
  exact .word (by simp [Code.vocabulary, Code.punctuation]) hclosed

/-! ## Values -/

private theorem values_expand (read text : List Char) (values : List Literal) :
    Code.values (Fragment.expand read text values) =
      values.take (Fragment.countMarks text) := by
  induction read, text, values using Fragment.expand.induct with
  | case1 read values =>
    rw [Fragment.expand, Fragment.values_spliced, Fragment.countMarks, List.take_zero]
  | case2 read rest values ih => rw [Fragment.expand, ih, Fragment.countMarks]
  | case3 read rest single ih =>
    rw [Fragment.expand, ih, List.take_nil, List.take_nil]
    exact single
  | case4 read rest value values single ih =>
    rw [Fragment.expand, Code.values_append, Fragment.values_spliced,
      Fragment.countMarks_single single, List.take_succ_cons, Code.values, ih]
    · rfl
    · exact single
  | case5 read c rest values notDoubled _ _ ih =>
    have other : c ≠ '?' := by
      intro h
      cases values <;> simp_all
    rw [Fragment.expand, ih, Fragment.countMarks_other other]
    all_goals simp_all

/-- A sound fragment binds its values. -/
theorem values_pieces {fragment : Fragment} (sound : fragment.fault? = none) :
    Code.values fragment.pieces = fragment.values := by
  unfold Fragment.pieces
  unfold Fragment.fault? at sound
  split
  · rename_i hempty
    rw [List.isEmpty_iff.1 hempty]
    rfl
  · rename_i hempty
    rw [values_expand]
    simp only [hempty, Bool.false_eq_true, false_or] at sound
    split at sound
    · rename_i hmarks
      rw [hmarks, List.take_length]
    · exact absurd sound (by simp)

private theorem values_mentioned_column (column : ColumnRef) (owner : Option String) :
    (column.mentions owner).flatMap Mention.values = [] := by
  simp only [ColumnRef.mentions, List.flatMap_append, List.flatMap_map]
  split <;> simp [Mention.values]

/-- The values bound in items and missing columns are those of the items. -/
theorem values_returned {items : List (Code × List Mention)} {owner : Option String}
    {columns : List String}
    (values : ∀ item ∈ items, Code.values item.1 = item.2.flatMap Mention.values) :
    (Piece.itemsThenMissing (items.map Prod.fst) (columns.map (Code.ofColumn owner))).values =
      (items.flatMap Prod.snd).flatMap Mention.values := by
  have hitems : Code.itemValues (items.map Prod.fst) =
      (items.flatMap Prod.snd).flatMap Mention.values := by
    rw [Code.itemValues_eq, List.flatMap_map, List.flatMap_assoc]
    exact List.flatMap_congr values
  have hcolumns : Code.itemValues (columns.map (Code.ofColumn owner)) = [] := by
    rw [Code.itemValues_eq, List.flatMap_map]
    exact List.flatMap_eq_nil_iff.2 fun column _ ↦ Code.values_column _ owner
  rw [Piece.values, hitems, hcolumns, List.append_nil]

/-- The values bound in code are those of what it spells, in order. -/
theorem values_eq (h : Spells raw code mentions) :
    Code.values code = mentions.flatMap Mention.values := by
  induction h with
  | nil => rfl
  | word _ _ ih => exact ih
  | function _ _ ih | format _ _ ih => exact ih
  | name _ _ ih | constant _ _ _ ih | path _ _ ih | option _ _ ih => exact ih
  | value _ _ ih | lost _ ih => exact congrArg _ ih
  | fragment sound _ _ _ ih =>
    rw [Code.values_append, values_pieces sound, ih]
    rfl
  | returned _ _ _ _ _ ihitems ih =>
    rw [Code.values, values_returned ihitems, ih]
    simp [List.flatMap_assoc, values_mentioned_column]

/-- Code whose text is left out spells that its values are lost. -/
theorem dropped (h : Spells raw code mentions) (hrest : Spells raw other others) :
    Spells raw (Code.dropped code ++ other) (Mention.losses mentions ++ others) := by
  unfold Code.dropped Mention.losses
  rw [h.values_eq]
  induction mentions.flatMap Mention.values with
  | nil => exact hrest
  | cons value rest ih => exact .lost ih

end Spells

/-- Code that spells what is mentioned and can stand behind any piece. -/
structure Follows (raw : Fragment → Prop) (code : Code) (mentions : List Mention) : Prop where
  spells : Spells raw code mentions
  lead : code.led

variable {raw : Fragment → Prop} {code other : Code} {mentions others : List Mention}

namespace Follows

theorem nil : Follows raw [] [] := ⟨.nil, rfl⟩

theorem word {word : String} (known : word ∈ Code.vocabulary) (lead : Code.led [.word word])
    (h : Spells raw code mentions) : Follows raw (.word word :: code) mentions :=
  ⟨.word known h, lead⟩

theorem append (h : Follows raw code mentions) (hother : Follows raw other others) :
    Follows raw (code ++ other) (mentions ++ others) :=
  ⟨h.spells.append hother.spells hother.lead, Code.led_append h.lead hother.lead⟩

end Follows

theorem Spells.followed (h : Spells raw code mentions) (hother : Follows raw other others) :
    Spells raw (code ++ other) (mentions ++ others) := h.append hother.spells hother.lead

/-! ## Lists -/

/-- The codes spell what is mentioned one after another. -/
def SpellsEach (raw : Fragment → Prop) (codes : List Code) (mentions : List Mention) : Prop :=
  ∃ parts : List (Code × List Mention), codes = parts.map Prod.fst ∧
    mentions = parts.flatMap Prod.snd ∧ ∀ part ∈ parts, Spells raw part.1 part.2

namespace SpellsEach

variable {codes rest : List Code}

theorem nil : SpellsEach raw [] [] := ⟨[], rfl, rfl, by simp⟩

theorem cons (h : Spells raw code mentions) (hrest : SpellsEach raw rest others) :
    SpellsEach raw (code :: rest) (mentions ++ others) := by
  obtain ⟨parts, rfl, rfl, hparts⟩ := hrest
  exact ⟨(code, mentions) :: parts, rfl, rfl, List.forall_mem_cons.2 ⟨h, hparts⟩⟩

theorem single (h : Spells raw code mentions) : SpellsEach raw [code] mentions :=
  ⟨[(code, mentions)], rfl, by simp, by simpa using h⟩

theorem append (h : SpellsEach raw codes mentions) (hrest : SpellsEach raw rest others) :
    SpellsEach raw (codes ++ rest) (mentions ++ others) := by
  obtain ⟨parts, rfl, rfl, hparts⟩ := h
  obtain ⟨parts', rfl, rfl, hparts'⟩ := hrest
  refine ⟨parts ++ parts', by simp, by simp, ?_⟩
  exact List.forall_mem_append.2 ⟨hparts, hparts'⟩

/-- What is written item by item spells item by item. -/
theorem mapM {α : Type} {write : α → Written} {mentioned : α → List Mention} {items : List α}
    (h : items.mapM write = .ok codes)
    (each : ∀ item ∈ items, ∀ code, write item = .ok code → Spells raw code (mentioned item)) :
    SpellsEach raw codes (items.flatMap mentioned) := by
  induction items generalizing codes with
  | nil =>
    rw [List.mapM_nil, pure_eq_ok] at h
    rw [← h]
    exact nil
  | cons item items ih =>
    obtain ⟨code, rest, hcode, hrest, rfl⟩ := mapM_eq_ok_cons.1 h
    rw [List.forall_mem_cons] at each
    exact cons (each.1 code hcode) (ih hrest each.2)

private theorem separated_cons (separator : String) (first second : Code) (rest : List Code) :
    Code.separated separator (first :: second :: rest) =
      first ++ .word separator :: Code.separated separator (second :: rest) := by
  simp [Code.separated, List.intercalate]

private theorem separated_pairs {separator : String} (known : separator ∈ Code.vocabulary)
    (lead : Code.led [.word separator]) :
    ∀ {parts : List (Code × List Mention)}, (∀ part ∈ parts, Spells raw part.1 part.2) →
      Spells raw (Code.separated separator (parts.map Prod.fst)) (parts.flatMap Prod.snd)
  | [], _ => .nil
  | [part], h => by
    simpa [Code.separated, List.intercalate] using h part (List.mem_singleton_self part)
  | first :: second :: rest, h => by
    rw [List.forall_mem_cons] at h
    have hrest := separated_pairs known lead h.2
    rw [List.map_cons, List.map_cons, separated_cons, List.flatMap_cons]
    exact h.1.glued separator hrest known lead

/-- Items behind a separator that keeps them apart spell what all of them mention. -/
theorem separated {separator : String} (h : SpellsEach raw codes mentions)
    (known : separator ∈ Code.vocabulary) (lead : Code.led [.word separator]) :
    Spells raw (Code.separated separator codes) mentions := by
  obtain ⟨parts, rfl, rfl, hparts⟩ := h
  exact separated_pairs known lead hparts

theorem commas (h : SpellsEach raw codes mentions) :
    Spells raw (Code.separated ", " codes) mentions :=
  h.separated (by simp [Code.vocabulary, Code.punctuation]) rfl

end SpellsEach

namespace Spells

/-- Items written one by one and separated by commas spell item by item. -/
theorem list {α : Type} {write : α → Written} {mentioned : α → List Mention} {items : List α}
    (h : (do return Code.separated ", " (← items.mapM write)) = (.ok code : Written))
    (each : ∀ item ∈ items, ∀ code, write item = .ok code → Spells raw code (mentioned item)) :
    Spells raw code (items.flatMap mentioned) := by
  obtain ⟨codes, hcodes, hcode⟩ := bind_eq_ok.1 h
  rw [pure_eq_ok] at hcode
  rw [← hcode]
  exact (SpellsEach.mapM hcodes each).commas

/-- The same for items that can always be written. -/
theorem listOf {α : Type} {write : α → Code} {mentioned : α → List Mention} (items : List α)
    (each : ∀ item, Spells raw (write item) (mentioned item)) :
    Spells raw (Code.separated ", " (items.map write)) (items.flatMap mentioned) := by
  apply SpellsEach.commas
  induction items with
  | nil => exact .nil
  | cons item rest ih => exact .cons (each item) ih

theorem nameList (names : List String) :
    Spells raw (Code.nameList names) (names.map .name) := by
  have hname (text : String) : Spells raw [.name text] [.name text] := .name rfl .nil
  have h := listOf names hname
  rwa [← List.map_eq_flatMap] at h

end Spells

end SqlComposer
