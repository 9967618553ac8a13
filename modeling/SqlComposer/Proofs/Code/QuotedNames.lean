import SqlComposer.Proofs.Call.CheckedQueries
import SqlComposer.Proofs.Code.QuotedTokens
import SqlComposer.Proofs.Mentions.StatementSpelling

/-!
# Names and strings stay in their quotes

The text of a query without fragments of the caller's is made of tokens: words of the library,
quoted names and strings, placeholders, names of functions, formats and numbers. Scanning the text
finds the names and strings that the statement mentions, in order, and nothing of them outside of
quotes.
-/

namespace SqlComposer

namespace Lexeme

def isQuoted : Lexeme → Bool
  | name _ | string _ => true
  | other _ => false

/-- Whether a lexeme occurs in no reference to a column. -/
def isForeign : Lexeme → Bool
  | name _ => false
  | string _ => true
  | other c => c != '.' && c != '*'

/-- The piece of a reference that a lexeme stands for. -/
def piece : Lexeme → Piece
  | name text => .name text
  | string content => .text content
  | other c => .word (String.singleton c)

end Lexeme

/-! ## What is mentioned in quotes -/

/-- What stands in quotes in a fragment of the library: the alias of the rows that become a JSON
value, and the empty list in place of no rows. -/
def Fragment.quoted (fragment : Fragment) : List Lexeme :=
  if fragment.sql = (Query.jsonOf .one).1 then [.name "t"]
  else if fragment.sql = (Query.jsonOf .all).1 then [.name "t", .string "[]"]
  else []

/-- The names and strings that a mention asks to be written in quotes. -/
def Mention.quoted : Mention → List Lexeme
  | .name text => [.name text]
  | .constant content | .option content => [.string content]
  | .path keys => [.string (JsonKey.array keys)]
  | .fragment raw => raw.quoted
  | .function _ | .format _ | .value _ | .lost _ => []

/-! ## Columns -/

namespace Code

/-- Text behind a piece does not go on with what is in quotes. -/
theorem endsQuotes_print (bound : Nat) {code : Code} (lead : code.led) :
    endsQuotes (Code.print bound code).toList := by
  cases code with
  | nil => rfl
  | cons piece code =>
    cases piece with
    | word word =>
      rw [Code.print, Piece.print, String.toList_append]
      rw [Code.led_word] at lead
      cases hword : word.toList with
      | nil => simp [hword] at lead
      | cons c text =>
        simp only [hword, List.head?_cons, Option.any_some, Code.separates,
          Bool.and_eq_true] at lead
        simpa [endsQuotes, isMark] using lead.1
    | _ => simp [Code.led] at lead

end Code

namespace ColumnRef

def tokens (owner : Option String) (column : ColumnRef) : List Token :=
  (match column.table.or owner with
    | some table => [.name table, .word "."]
    | none => []) ++
    [if column.isStar then .word "*" else .name column.name]

theorem prints (bound : Nat) (column : ColumnRef) (owner : Option String) :
    Token.Prints (Code.print bound (column.code (owner.map .name))) (column.tokens owner) := by
  have hstar : Token.Prints "*" [.word "*"] :=
    .single _ (.inl (by simp [Code.vocabulary, Code.punctuation])) rfl
  have hdot : Token.Prints "." [.word "."] :=
    .single _ (.inl (by simp [Code.vocabulary, Code.punctuation])) rfl
  have hname (name : String) : Token.Prints (quoteName name) [.name name] := .single _ trivial rfl
  have hlast : Token.Prints
      (Code.print bound [if column.isStar then .word "*" else .name column.name])
      [if column.isStar then .word "*" else .name column.name] := by
    split
    · simpa [Code.print, Piece.print] using hstar
    · simpa [Code.print, Piece.print] using hname column.name
  have howned (table : String) : Token.Prints
      (Code.print bound (.name table :: .word "." ::
        [if column.isStar then .word "*" else .name column.name]))
      (.name table :: .word "." :: [if column.isStar then .word "*" else .name column.name]) := by
    have hbehind := hdot.append hlast fun hany ↦ by simp [Token.isQuoted] at hany
    exact (hname table).append hbehind fun _ ↦ Code.endsQuotes_print _ rfl
  obtain ⟨table, name⟩ := column
  cases table with
  | some table => exact howned table
  | none =>
    cases owner with
    | some label => exact howned label
    | none => exact hlast

/-- A reference is its lexemes turned back into pieces. -/
theorem code_eq_pieces (column : ColumnRef) (owner : Option String) :
    column.code (owner.map .name) =
      ((column.tokens owner).flatMap Token.lexemes).map Lexeme.piece := by
  have hlast : [if column.isStar then Piece.word "*" else .name column.name] =
      (([if column.isStar then Token.word "*" else .name column.name] : List Token).flatMap
        Token.lexemes).map Lexeme.piece := by
    split <;> rfl
  obtain ⟨table, name⟩ := column
  rw [tokens, List.flatMap_append, List.map_append, ← hlast]
  cases table <;> cases owner <;> rfl

/-- References with the same text are written by the same pieces. -/
theorem code_eq_of_print_eq {column other : ColumnRef} {owner : Option String} {bound before : Nat}
    (h : Code.print bound (column.code (owner.map .name)) =
      Code.print before (other.code (owner.map .name))) :
    column.code (owner.map .name) = other.code (owner.map .name) := by
  have hlexed := (column.prints bound owner).lexed
  rw [h, (other.prints before owner).lexed, Option.some.injEq] at hlexed
  rw [code_eq_pieces, code_eq_pieces, hlexed]

end ColumnRef

/-! ## Spelled code -/

/-- Tokens that code is printed as: they hold in quotes what is mentioned, and they are no reference
to a column if the code is none. -/
structure Token.Quotes (bound : Nat) (code : Code) (mentions : List Mention)
    (tokens : List Token) : Prop where
  prints : Token.Prints (Code.print bound code) tokens
  quoted : (tokens.flatMap Token.lexemes).filter Lexeme.isQuoted = mentions.flatMap Mention.quoted
  foreign : code.any Piece.isForeign → (tokens.flatMap Token.lexemes).any Lexeme.isForeign

namespace Token.Quotes

variable {bound : Nat} {code other : Code} {mentions others : List Mention}
  {tokens rest : List Token}

/-- Code behind other code quotes the mentions of both, if the two texts do not run together. -/
theorem append (h : Quotes bound code mentions tokens)
    (hrest : Quotes (bound + (Code.values code).length) other others rest)
    (lead : tokens.any isQuoted → other.led) :
    Quotes bound (code ++ other) (mentions ++ others) (tokens ++ rest) where
  prints := by
    rw [Code.print_append]
    exact h.prints.append hrest.prints fun hquoted ↦ Code.endsQuotes_print _ (lead hquoted)
  quoted := by
    rw [List.flatMap_append, List.filter_append, h.quoted, hrest.quoted, List.flatMap_append]
  foreign := by
    intro hany
    rw [List.any_append, Bool.or_eq_true] at hany
    rw [List.flatMap_append, List.any_append, Bool.or_eq_true]
    exact hany.imp h.foreign hrest.foreign

/-- A piece that is printed as one token. -/
theorem single {piece : Piece} {token : Token} (proper : token.Proper)
    (text : (piece.print bound).toList = token.text)
    (quoted : token.lexemes.filter Lexeme.isQuoted = mentions.flatMap Mention.quoted)
    (foreign : piece.isForeign → token.lexemes.any Lexeme.isForeign) :
    Quotes bound [piece] mentions [token] where
  prints := .single token proper (by simp [Code.print, text])
  quoted := by simpa using quoted
  foreign := by simpa using foreign

private theorem filter_other (text : List Char) :
    (text.map Lexeme.other).filter Lexeme.isQuoted = [] := by
  rw [List.filter_eq_nil_iff]
  intro lexeme hlexeme
  obtain ⟨c, _, rfl⟩ := List.mem_map.1 hlexeme
  simp [Lexeme.isQuoted]

private theorem foreign_other {text : String} (h : (Piece.word text).isForeign) :
    (text.toList.map Lexeme.other).any Lexeme.isForeign := by
  rw [List.any_map]
  exact h

theorem word {text : String} (known : text ∈ Code.vocabulary) :
    Quotes bound [.word text] [] [.word text] :=
  single (.inl known) rfl (filter_other _) foreign_other

theorem function {name : String} (form : isFunctionName name) :
    Quotes bound [.word name] [.function name] [.function name] :=
  single form rfl (filter_other _) foreign_other

theorem format {word : String} (form : CopyOptions.isFormat word) :
    Quotes bound [.word word] [.format word] [.format word] :=
  single form rfl (filter_other _) foreign_other

theorem name (text : String) : Quotes bound [.name text] [.name text] [.name text] :=
  single trivial rfl rfl fun h ↦ by simp [Piece.isForeign] at h

theorem string {content : String} {mention : Mention} (h : mention.quoted = [.string content]) :
    Quotes bound [.text content] [mention] [.string content] :=
  single trivial rfl (by simp [lexemes, Lexeme.isQuoted, h]) fun _ ↦ rfl

theorem value (value : Literal) :
    Quotes bound [.bind value] [.value value] [.placeholder (bound + 1)] := by
  refine single trivial ?_ (filter_other _) fun _ ↦ rfl
  rw [Piece.print, String.toList_append]
  rfl

theorem lost (value : Literal) : Quotes bound [.unused value] [.lost value] [] where
  prints := .empty
  quoted := rfl
  foreign := by simp [Piece.isForeign]

/-! ### Fragments of the library -/

private theorem number {json : Json} {text : String}
    (h : Shorthand.numberText? json = some text) :
    Quotes bound [.splice text] [.fragment (.verbatim text)] [.number text] := by
  have hquoted : (Fragment.verbatim text).quoted = [] := by
    have hunmarked := unmarked_number h
    have hnot (wrapper : String) (hmark : wrapper.toList.any isMark) : text ≠ wrapper := by
      rintro rfl
      obtain ⟨c, hc, hcmark⟩ := List.any_eq_true.1 hmark
      rw [hunmarked c hc] at hcmark
      exact absurd hcmark Bool.false_ne_true
    have hone := hnot (Query.jsonOf .one).1 (by decide +kernel)
    have hall := hnot (Query.jsonOf .all).1 (by decide +kernel)
    simp [Fragment.quoted, Fragment.verbatim, hone, hall]
  refine single ⟨json, h⟩ rfl ?_ fun _ ↦ ?_
  · simp [Mention.quoted, hquoted, lexemes, Token.text, filter_other]
  · rcases holdsDigit_json h with rfl | hdigit
    · decide +kernel
    · obtain ⟨c, hc, hcdigit⟩ := List.any_eq_true.1 hdigit
      rw [List.any_eq_true]
      refine ⟨.other c, List.mem_map_of_mem hc, ?_⟩
      simp only [Lexeme.isForeign, Bool.and_eq_true, bne_iff_ne]
      constructor <;> rintro rfl <;> exact absurd hcdigit (by decide)

private theorem row : Quotes bound [.splice (Query.jsonOf .one).1]
    [.fragment (.verbatim (Query.jsonOf .one).1)]
    [.word "row_to_json(", .name "t", .word ".*)"] where
  prints := {
    text_eq := by simp only [Code.print, Piece.print]; decide +kernel
    proper := by simp [Proper, wrapping]
    apart := by simp only [Apart, isQuoted]; decide +kernel }
  quoted := by decide +kernel
  foreign _ := by decide +kernel

private theorem rows : Quotes bound [.splice (Query.jsonOf .all).1]
    [.fragment (.verbatim (Query.jsonOf .all).1)]
    [.word "COALESCE(json_agg(row_to_json(", .name "t", .word ".*)), ", .string "[]",
      .word ")"] where
  prints := {
    text_eq := by simp only [Code.print, Piece.print]; decide +kernel
    proper := by simp [Proper, wrapping]
    apart := by simp only [Apart, isQuoted]; decide +kernel }
  quoted := by decide +kernel
  foreign _ := by decide +kernel

theorem library {fragment : Fragment} (library : fragment.IsLibrary) :
    ∃ tokens, Quotes bound fragment.pieces [.fragment fragment] tokens := by
  cases library with
  | number h => exact ⟨_, number h⟩
  | rows shape =>
    cases shape with
    | one | oneOrThrow => exact ⟨_, row⟩
    | _ => exact ⟨_, rows⟩

/-! ### Items and missing columns -/

end Token.Quotes

namespace Code

end Code

namespace Spells

open Token (Quotes Prints)

end Spells

/-! ## Queries -/

end SqlComposer
