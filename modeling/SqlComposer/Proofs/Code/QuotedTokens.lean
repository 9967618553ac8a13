import Mathlib.Data.List.Basic
import SqlComposer.Proofs.Mentions.SpelledCode
import SqlComposer.Proofs.Values.NumeralTexts

/-!
# Quoted tokens

The database reads a text character by character. A double quote opens an identifier and a single
quote opens a string; both end at the next mark of their kind that is not doubled. This module scans
texts in that way, and shows that scanning a text made of tokens finds the tokens again, whatever
characters the names and strings in it consist of.
-/

namespace SqlComposer

/-! ## Scanning -/

/-- What scanning a text finds: quoted identifiers and strings with their marks undone, and single
characters outside of quotes. -/
inductive Lexeme where
  | name (text : String)
  | string (content : String)
  | other (c : Char)
  deriving DecidableEq

/-- Where scanning stands: outside of quotes, between two marks with the characters read since the
first one in reverse, or behind a mark that either ends what was read or is the first of two. -/
inductive Scan where
  | outside
  | inside (mark : Char) (read : List Char)
  | behind (mark : Char) (read : List Char)

def isMark (c : Char) : Bool := c == '"' || c == '\''

/-- What stood between two marks. -/
def Lexeme.between (mark : Char) (read : List Char) : Lexeme :=
  if mark = '"' then .name (String.ofList read.reverse) else .string (String.ofList read.reverse)

/-- Scans a text; there is no result if it ends inside of quotes. -/
def lexFrom : Scan → List Char → Option (List Lexeme)
  | .outside, [] => some []
  | .inside _ _, [] => none
  | .behind mark read, [] => some [.between mark read]
  | .outside, c :: rest =>
    if isMark c then lexFrom (.inside c []) rest else (lexFrom .outside rest).map (.other c :: ·)
  | .inside mark read, c :: rest =>
    if c = mark then lexFrom (.behind mark read) rest else lexFrom (.inside mark (c :: read)) rest
  | .behind mark read, c :: rest =>
    if c = mark then lexFrom (.inside mark (c :: read)) rest
    else Option.map (.between mark read :: ·) <|
      if isMark c then lexFrom (.inside c []) rest else (lexFrom .outside rest).map (.other c :: ·)

/-- What is found in a text, if it ends outside of quotes. -/
def lex (text : List Char) : Option (List Lexeme) := lexFrom .outside text

/-- Whether a text can stand behind a quoted token without going on with it. -/
def endsQuotes (text : List Char) : Bool := !text.head?.any isMark

theorem lex_append {text : List Char} (unmarked : ∀ c ∈ text, isMark c = false)
    (rest : List Char) : lex (text ++ rest) = (lex rest).map (text.map .other ++ ·) := by
  induction text with
  | nil => simp
  | cons c text ih =>
    rw [List.forall_mem_cons] at unmarked
    have hrest := ih unmarked.2
    unfold lex at hrest ⊢
    rw [List.cons_append, lexFrom, if_neg (by simp [unmarked.1]), hrest, Option.map_map]
    rfl

/-- Behind a doubled text the closing mark ends the token that holds the text. -/
private theorem lexFrom_doubled (mark : Char) (text read rest : List Char) :
    lexFrom (.inside mark read) (doubled mark text ++ mark :: rest) =
      lexFrom (.behind mark (text.reverse ++ read)) rest := by
  induction text generalizing read with
  | nil => rw [doubled, List.nil_append, lexFrom, if_pos rfl, List.reverse_nil, List.nil_append]
  | cons c text ih =>
    rw [List.reverse_cons, List.append_assoc, List.singleton_append]
    unfold doubled
    split
    · rename_i hmark
      rw [List.cons_append, List.cons_append, lexFrom, if_pos rfl, lexFrom, if_pos rfl, ih, hmark]
    · rename_i hother
      rw [List.cons_append, lexFrom, if_neg hother, ih]

/-- A closing mark that no other mark follows ends the token. -/
private theorem lexFrom_behind {mark : Char} (hmark : isMark mark) (read : List Char)
    {rest : List Char} (ends : endsQuotes rest) :
    lexFrom (.behind mark read) rest = (lex rest).map (.between mark read :: ·) := by
  cases rest with
  | nil => rfl
  | cons c rest =>
    have hc : isMark c = false := by simpa [endsQuotes] using ends
    have hother : c ≠ mark := by
      rintro rfl
      rw [hc] at hmark
      exact absurd hmark (by decide)
    rw [lexFrom, if_neg hother]
    rfl

/-- A text in quotes is found as it was before it was quoted. -/
theorem lex_enclosed {mark : Char} (hmark : isMark mark) (text : String) {rest : List Char}
    (ends : endsQuotes rest) :
    lex ((enclosed mark text).toList ++ rest) =
      (lex rest).map (.between mark text.toList.reverse :: ·) := by
  unfold enclosed
  rw [String.toList_ofList, List.cons_append, List.append_assoc, List.singleton_append, lex,
    lexFrom, if_pos hmark, lexFrom_doubled, List.append_nil]
  exact lexFrom_behind hmark text.toList.reverse ends

theorem lex_quoteName (name : String) {rest : List Char} (ends : endsQuotes rest) :
    lex ((quoteName name).toList ++ rest) = (lex rest).map (.name name :: ·) := by
  unfold quoteName
  rw [lex_enclosed (by decide) name ends, Lexeme.between, if_pos rfl, List.reverse_reverse,
    String.ofList_toList]

theorem lex_quoteText (content : String) {rest : List Char} (ends : endsQuotes rest) :
    lex ((quoteText content).toList ++ rest) = (lex rest).map (.string content :: ·) := by
  unfold quoteText
  rw [lex_enclosed (by decide) content ends, Lexeme.between, if_neg (by decide),
    List.reverse_reverse, String.ofList_toList]

/-! ## Tokens -/

/-- A token of SQL that is written without any text of the caller's. -/
inductive Token where
  | word (text : String)
  | name (text : String)
  | string (content : String)
  | placeholder (number : Nat)
  | function (name : String)
  | format (word : String)
  | number (text : String)
  deriving DecidableEq

namespace Token

def text : Token → List Char
  | word text | number text => text.toList
  | function called => called.toList
  | format kind => kind.toList
  | name text => (quoteName text).toList
  | string content => (quoteText content).toList
  | placeholder position => '$' :: (toString position).toList

/-- What scanning has to find of a token: one lexeme for what is in quotes, and all characters of
everything else. -/
def lexemes : Token → List Lexeme
  | name text => [.name text]
  | string content => [.string content]
  | token => token.text.map .other

def isQuoted : Token → Bool
  | name _ | string _ => true
  | _ => false

/-- Words around the rows of a query that is handed back as one JSON value. -/
def wrapping : List String :=
  ["row_to_json(", ".*)", "COALESCE(json_agg(row_to_json(", ".*)), ", ")"]

/-- Words belong to the library, and functions, formats and numbers have their form. -/
def Proper : Token → Prop
  | word text => text ∈ Code.vocabulary ∨ text ∈ wrapping
  | function called => isFunctionName called
  | format kind => CopyOptions.isFormat kind
  | number text => ∃ value, Shorthand.numberText? value = some text
  | name _ | string _ | placeholder _ => True

def texts (tokens : List Token) : List Char := tokens.flatMap text

/-- No quoted token runs into the token behind it. -/
def Apart : List Token → Prop
  | [] => True
  | token :: rest => (token.isQuoted → endsQuotes (texts rest)) ∧ Apart rest

/-- Characters with a property that quotes do not have. -/
private theorem unmarked_of_forall {P : Char → Prop} (double : ¬P '"') (single : ¬P '\'')
    {text : List Char} (h : ∀ c ∈ text, P c) : ∀ c ∈ text, isMark c = false := by
  intro c hc
  have hP := h c hc
  unfold isMark
  rw [Bool.or_eq_false_iff, beq_eq_false_iff_ne, beq_eq_false_iff_ne]
  exact ⟨fun hdouble ↦ double (hdouble ▸ hP), fun hsingle ↦ single (hsingle ▸ hP)⟩

private theorem unmarked_word {word : String} (known : word ∈ Code.vocabulary ++ wrapping) :
    ∀ c ∈ word.toList, isMark c = false := by
  intro c hc
  obtain hknown | hwrapping := List.mem_append.1 known
  · simpa [isMark] using List.not_mem_of_not_mem_cons (Code.not_mem_of_mem_vocabulary hknown c hc)
  · have hall : wrapping.all (fun word ↦ word.toList.all fun c ↦ !isMark c) = true := by
      decide +kernel
    simpa using List.all_eq_true.1 (List.all_eq_true.1 hall word hwrapping) c hc

private theorem unmarked_function {name : String} (form : isFunctionName name) :
    ∀ c ∈ name.toList, isMark c = false := by
  have hcharacters : ∀ c ∈ name.toList, (c == '_' || c.isAlpha || c.isDigit) = true := by
    unfold isFunctionName at form
    split at form
    · simp at form
    · rename_i c rest hname
      rw [Bool.and_eq_true, List.all_eq_true] at form
      rw [hname, List.forall_mem_cons]
      exact ⟨by rw [form.1]; rfl, form.2⟩
  exact unmarked_of_forall (by decide) (by decide) hcharacters

private theorem unmarked_format {word : String} (form : CopyOptions.isFormat word) :
    ∀ c ∈ word.toList, isMark c = false := by
  unfold CopyOptions.isFormat at form
  rw [Bool.and_eq_true, List.all_eq_true] at form
  exact unmarked_of_forall (by decide) (by decide) form.2

theorem unmarked_number {value : Json} {number : String}
    (h : Shorthand.numberText? value = some number) : ∀ c ∈ number.toList, isMark c = false := by
  rcases isNumeralText_json h with rfl | hnumeral
  · have hnull : "null".toList.all (fun c ↦ !isMark c) = true := by decide +kernel
    intro c hc
    simpa using List.all_eq_true.1 hnull c hc
  · exact unmarked_of_forall (by decide) (by decide) (List.all_eq_true.1 hnumeral)

theorem unmarked {token : Token} (proper : token.Proper) (plain : ¬token.isQuoted) :
    ∀ c ∈ token.text, isMark c = false := by
  cases token with
  | word text => exact unmarked_word (List.mem_append.2 proper)
  | function name => exact unmarked_function proper
  | format word => exact unmarked_format proper
  | number text =>
    obtain ⟨value, hvalue⟩ := proper
    exact unmarked_number hvalue
  | placeholder number =>
    rw [Token.text, List.forall_mem_cons]
    have hdigits : ∀ c ∈ (toString number).toList, c.isDigit = true :=
      fun c hc ↦ isDigit_of_mem_toString hc
    exact ⟨by decide, unmarked_of_forall (by decide) (by decide) hdigits⟩
  | name | string => simp [isQuoted] at plain

@[simp]
theorem texts_nil : texts [] = [] := rfl

@[simp]
theorem texts_cons (token : Token) (rest : List Token) :
    texts (token :: rest) = token.text ++ texts rest := List.flatMap_cons

@[simp]
theorem texts_append (tokens rest : List Token) :
    texts (tokens ++ rest) = texts tokens ++ texts rest := List.flatMap_append

/-- Scanning finds the tokens that a text was made of. -/
theorem lex_texts {tokens : List Token} (proper : ∀ token ∈ tokens, token.Proper)
    (apart : Apart tokens) : lex (texts tokens) = some (tokens.flatMap lexemes) := by
  induction tokens with
  | nil => rfl
  | cons token rest ih =>
    rw [List.forall_mem_cons] at proper
    have hrest := ih proper.2 apart.2
    rw [texts_cons, List.flatMap_cons]
    by_cases hquoted : token.isQuoted
    · have hends := apart.1 hquoted
      cases token with
      | name text =>
        rw [Token.text, lex_quoteName text hends, hrest]
        rfl
      | string content =>
        rw [Token.text, lex_quoteText content hends, hrest]
        rfl
      | _ => simp [isQuoted] at hquoted
    · rw [lex_append (unmarked proper.1 hquoted), hrest]
      cases token with
      | name | string => simp [isQuoted] at hquoted
      | _ => rfl

theorem apart_append {tokens rest : List Token} (apart : Apart tokens) (others : Apart rest)
    (lead : tokens.any isQuoted → endsQuotes (texts rest)) : Apart (tokens ++ rest) := by
  induction tokens with
  | nil => exact others
  | cons token tokens ih =>
    constructor
    · intro hquoted
      have hends := apart.1 hquoted
      change endsQuotes (texts (tokens ++ rest))
      rw [texts_append]
      cases htexts : texts tokens with
      | nil => exact lead (by simp [hquoted])
      | cons c text =>
        rw [htexts] at hends
        exact hends
    · exact ih apart.2 fun hany ↦ lead (by simp [hany])

end Token

/-! ## Texts made of tokens -/

/-- A text that is made of proper tokens that do not run into each other. -/
structure Token.Prints (text : String) (tokens : List Token) : Prop where
  text_eq : text.toList = Token.texts tokens
  proper : ∀ token ∈ tokens, token.Proper
  apart : Token.Apart tokens

namespace Token.Prints

variable {text other : String} {tokens rest : List Token}

theorem lexed (h : Prints text tokens) :
    lex text.toList = some (tokens.flatMap Token.lexemes) := by
  rw [h.text_eq]
  exact lex_texts h.proper h.apart

theorem empty : Prints "" [] := ⟨rfl, by simp, trivial⟩

theorem single (token : Token) (proper : token.Proper) (h : text.toList = token.text) :
    Prints text [token] where
  text_eq := by simp [h]
  proper := by simpa using proper
  apart := ⟨fun _ ↦ rfl, trivial⟩

/-- Texts of tokens are put behind one another, if no quotation runs on. -/
theorem append (h : Prints text tokens) (hrest : Prints other rest)
    (lead : tokens.any isQuoted → endsQuotes other.toList) :
    Prints (text ++ other) (tokens ++ rest) where
  text_eq := by rw [String.toList_append, h.text_eq, hrest.text_eq, texts_append]
  proper := List.forall_mem_append.2 ⟨h.proper, hrest.proper⟩
  apart := by
    rw [hrest.text_eq] at lead
    exact apart_append h.apart hrest.apart lead

/-- Texts separated by commas. -/
theorem commas {parts : List (String × List Token)} (h : ∀ part ∈ parts, Prints part.1 part.2) :
    Prints (", ".intercalate (parts.map Prod.fst))
      ([Token.word ", "].intercalate (parts.map Prod.snd)) := by
  induction parts with
  | nil => exact empty
  | cons part rest ih =>
    rw [List.forall_mem_cons] at h
    have hrest := ih h.2
    by_cases hlast : rest = []
    · rw [hlast, List.map_singleton, List.map_singleton, String.intercalate_singleton,
        List.intercalate_singleton]
      exact h.1
    · rw [List.map_cons, List.map_cons, String.intercalate_cons_of_ne_nil (by simpa using hlast),
        List.intercalate_cons_of_ne_nil (by simpa using hlast), String.append_assoc,
        List.append_assoc]
      have hcomma : Prints ", " [.word ", "] :=
        single _ (.inl (by simp [Code.vocabulary, Code.punctuation])) rfl
      have hothers := hcomma.append hrest fun hany ↦ by simp [isQuoted] at hany
      refine h.1.append hothers fun _ ↦ ?_
      rw [String.toList_append]
      rfl

end Token.Prints
end SqlComposer
