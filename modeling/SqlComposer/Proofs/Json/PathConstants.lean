import SqlComposer.Json.Edit
import SqlComposer.Proofs.Code.QuotedTokens

/-!
# Paths that are read again

A path is written as an array constant inside a string constant, so what the database reads of it
goes through two readers. The outer one takes two quotes for one; the inner one splits the elements
at commas, takes a backslash between double quotes for an escape, leaves out the white space around
an element and takes the bare word for null as no text at all. Together they find the steps of the
path again, whatever characters the keys consist of.
-/

namespace SqlComposer

/-! ## String constants -/

/-- The content of a text that is one string constant. -/
def readConstant (text : String) : Option String :=
  match lex text.toList with
  | some [.string content] => some content
  | _ => none

theorem readConstant_quoteText (content : String) :
    readConstant (quoteText content) = some content := by
  have hends : endsQuotes [] := rfl
  have hlex := lex_quoteText content hends
  rw [List.append_nil] at hlex
  rw [readConstant, hlex]
  rfl

/-! ## Array constants -/

namespace ArrayConstant

def isSpace (c : Char) : Bool := [' ', '\t', '\n', '\r', '\x0b', '\x0c'].contains c

/-- Where reading stands. Characters of an element are kept in reverse, those of an element without
quotes together with whether they were escaped. -/
inductive State where
  /-- In front of an element. -/
  | before
  | plain (read : List (Char × Bool))
  | plainEscape (read : List (Char × Bool))
  | quoted (read : List Char)
  | quotedEscape (read : List Char)
  /-- Behind the closing quote of an element. -/
  | behind (read : List Char)
  | closed

/-- An element without quotes. White space at its end and the word for null count only where they
are escaped. -/
def plainElement (read : List (Char × Bool)) : Option String :=
  let kept := (read.dropWhile fun (c, escaped) ↦ isSpace c && !escaped).reverse
  if kept.map (fun (c, escaped) ↦ (c.toLower, escaped)) =
      [('n', false), ('u', false), ('l', false), ('l', false)] then none
  else some (String.ofList (kept.map Prod.fst))

/-- What follows an element, if a character ends it. -/
def follower? (c : Char) : Option State :=
  if c = ',' then some .before else if c = '\x7d' then some .closed else none

/-- Reads the elements from a state on. -/
def readFrom : State → List Char → Option (List (Option String))
  | .closed, [] => some []
  | .closed, c :: rest => if isSpace c then readFrom .closed rest else none
  | _, [] => none
  | .before, c :: rest =>
    if isSpace c then readFrom .before rest
    else if c = '"' then readFrom (.quoted []) rest
    else if c = '\\' then readFrom (.plainEscape []) rest
    else if c = '\x7b' ∨ (follower? c).isSome then none
    else readFrom (.plain [(c, false)]) rest
  | .plain read, c :: rest =>
    match follower? c with
    | some next => (readFrom next rest).map (plainElement read :: ·)
    | none =>
      if c = '\\' then readFrom (.plainEscape read) rest
      else if c = '\x7b' ∨ c = '"' then none
      else readFrom (.plain ((c, false) :: read)) rest
  | .plainEscape read, c :: rest => readFrom (.plain ((c, true) :: read)) rest
  | .quoted read, c :: rest =>
    if c = '\\' then readFrom (.quotedEscape read) rest
    else if c = '"' then readFrom (.behind read) rest
    else readFrom (.quoted (c :: read)) rest
  | .quotedEscape read, c :: rest => readFrom (.quoted (c :: read)) rest
  | .behind read, c :: rest =>
    match follower? c with
    | some next => (readFrom next rest).map (some (String.ofList read.reverse) :: ·)
    | none => if isSpace c then readFrom (.behind read) rest else none

/-- The elements of an array constant; null is one without text. -/
def elements? (text : String) : Option (List (Option String)) :=
  match text.toList.dropWhile isSpace with
  | '\x7b' :: rest =>
    match rest.dropWhile isSpace with
    | '\x7d' :: behind => readFrom .closed behind
    | elements => readFrom .before elements
  | _ => none

/-! ### What is read of an element -/

theorem not_isSpace_of_plain {c : Char} (plain : JsonKey.isSpecial c = false) :
    isSpace c = false := by
  by_contra hspace
  simp only [isSpace, List.contains_eq_mem, List.mem_cons, List.not_mem_nil, or_false,
    decide_eq_true_eq, Bool.not_eq_false] at hspace
  rcases hspace with rfl | rfl | rfl | rfl | rfl | rfl <;> exact absurd plain (by decide)

theorem ne_of_plain {c d : Char} (plain : JsonKey.isSpecial c = false)
    (special : JsonKey.isSpecial d = true) : c ≠ d := by
  rintro rfl
  exact Bool.false_ne_true (plain.symm.trans special)

theorem follower?_of_plain {c : Char} (plain : JsonKey.isSpecial c = false) :
    follower? c = none := by
  rw [follower?, if_neg (ne_of_plain plain (by decide)), if_neg (ne_of_plain plain (by decide))]

/-- Plain characters are read one by one. -/
theorem readFrom_plain {text : List Char} (plain : ∀ c ∈ text, JsonKey.isSpecial c = false)
    (read : List (Char × Bool)) (rest : List Char) :
    readFrom (.plain read) (text ++ rest) =
      readFrom (.plain ((text.map (·, false)).reverse ++ read)) rest := by
  induction text generalizing read with
  | nil => rfl
  | cons c text ih =>
    rw [List.forall_mem_cons] at plain
    have hspecial : ¬(c = '\x7b' ∨ c = '"') :=
      not_or.2 ⟨ne_of_plain plain.1 (by decide), ne_of_plain plain.1 (by decide)⟩
    rw [List.cons_append, readFrom, follower?_of_plain plain.1]
    simp only
    rw [if_neg (ne_of_plain plain.1 (by decide)), if_neg hspecial, ih plain.2, List.map_cons,
      List.reverse_cons, List.append_assoc, List.singleton_append]

/-- An element of plain characters is its text, unless it is the word for null. -/
theorem plainElement_of_plain {text : List Char}
    (plain : ∀ c ∈ text, JsonKey.isSpecial c = false)
    (other : text.map Char.toLower ≠ ['n', 'u', 'l', 'l']) :
    plainElement (text.map (·, false)).reverse = some (String.ofList text) := by
  have hkept : ((text.map (·, false)).reverse.dropWhile fun (c, escaped) ↦
      isSpace c && !escaped) = (text.map (·, false)).reverse := by
    rw [← List.map_reverse]
    cases hlast : text.reverse with
    | nil => rfl
    | cons c others =>
      have hc : c ∈ text := List.mem_reverse.1 (hlast ▸ List.mem_cons_self)
      rw [List.map_cons, List.dropWhile_cons_of_neg]
      simp [not_isSpace_of_plain (plain c hc)]
  unfold plainElement
  simp only [hkept, List.reverse_reverse]
  rw [if_neg]
  · simp [Function.comp_def]
  · intro hnull
    apply other
    have hcharacters := congrArg (List.map Prod.fst) hnull
    simpa [Function.comp_def] using hcharacters

/-- Between quotes, escaping is undone. -/
theorem readFrom_quoted (text read rest : List Char) :
    readFrom (.quoted read) (text.flatMap JsonKey.escaped ++ '"' :: rest) =
      readFrom (.behind (text.reverse ++ read)) rest := by
  induction text generalizing read with
  | nil =>
    rw [List.flatMap_nil, List.nil_append, readFrom, if_neg (by decide), if_pos rfl]
    rfl
  | cons c text ih =>
    rw [List.flatMap_cons, List.append_assoc, List.reverse_cons, List.append_assoc,
      List.singleton_append, ← ih]
    unfold JsonKey.escaped
    split
    · rw [List.cons_append, List.singleton_append, readFrom, if_pos rfl, readFrom]
    · rename_i hplain
      rw [not_or] at hplain
      rw [List.singleton_append, readFrom, if_neg hplain.2, if_neg hplain.1]

end ArrayConstant

/-! ## Paths -/

namespace JsonKey

open ArrayConstant

/-- The text of a step: the key, or the decimal digits of the index. -/
def text : JsonKey → String
  | name key => key
  | index position => toString position

theorem isPlain_iff {text : String} : isPlain text ↔ text.toList ≠ [] ∧
    text.toList.map Char.toLower ≠ ['n', 'u', 'l', 'l'] ∧
    ∀ c ∈ text.toList, isSpecial c = false := by
  simp [isPlain, and_assoc]

theorem not_isSpecial_numeral {c : Char} (numeral : isNumeral c) : isSpecial c = false := by
  have hall : ∀ n < 128, isNumeral (Char.ofNat n) → isSpecial (Char.ofNat n) = false := by decide
  have hsmall : c.toNat < 128 := by
    simp only [isNumeral, Bool.or_eq_true, beq_iff_eq] at numeral
    rcases numeral with (((hdigit | rfl) | rfl) | rfl) | rfl
    · have := toNat_of_isDigit hdigit
      omega
    all_goals decide
  simpa [numeral] using hall c.toNat hsmall

/-- The digits of an index stand in an array as they are. -/
theorem isPlain_int (position : Int) : isPlain (toString position) := by
  have hnumeral : ∀ c ∈ (toString position).toList, isNumeral c :=
    List.all_eq_true.1 (isNumeralText_int position)
  obtain ⟨digit, hmem, hdigit⟩ := List.any_eq_true.1 (holdsDigit_int position)
  refine isPlain_iff.2 ⟨List.ne_nil_of_mem hmem, fun hnull ↦ ?_,
    fun c hc ↦ not_isSpecial_numeral (hnumeral c hc)⟩
  have hall : ∀ n < 58, (Char.ofNat n).toLower ∉ ['n', 'u', 'l', 'l'] := by decide
  have hsmall := (toNat_of_isDigit hdigit).2
  have hlower : digit.toLower ∈ ['n', 'u', 'l', 'l'] := hnull ▸ List.mem_map_of_mem hmem
  exact hall digit.toNat (by omega) (by rwa [Char.ofNat_toNat])

theorem element_eq (key : JsonKey) : key.element = if isPlain key.text then key.text
    else String.ofList ('"' :: (key.text.toList.flatMap escaped ++ ['"'])) := by
  cases key with
  | name key => rfl
  | index position => rw [text, if_pos (isPlain_int position), element]

/-- An element is read as its text up to the comma or the brace behind it. -/
theorem readFrom_element (key : JsonKey) {c : Char} {next : State} (ends : follower? c = some next)
    (rest : List Char) : readFrom .before (key.element.toList ++ c :: rest) =
      (readFrom next rest).map (some key.text :: ·) := by
  rw [element_eq]
  split
  · rename_i hplain
    obtain ⟨hsome, hother, hplain⟩ := isPlain_iff.1 hplain
    obtain ⟨first, others, hfirst⟩ := List.exists_cons_of_ne_nil hsome
    have hcharacter := hplain first (hfirst ▸ List.mem_cons_self)
    have hbefore : readFrom .before (key.text.toList ++ c :: rest) =
        readFrom (.plain []) (key.text.toList ++ c :: rest) := by
      have hbrace : first ≠ '\x7b' := ne_of_plain hcharacter (by decide)
      have hquote : first ≠ '"' := ne_of_plain hcharacter (by decide)
      have hescape : first ≠ '\\' := ne_of_plain hcharacter (by decide)
      rw [hfirst, List.cons_append, readFrom, readFrom, follower?_of_plain hcharacter]
      simp [not_isSpace_of_plain hcharacter, hbrace, hquote, hescape]
    rw [hbefore, readFrom_plain hplain, List.append_nil, readFrom, ends]
    simp only
    rw [plainElement_of_plain hplain hother, String.ofList_toList]
  · rw [String.toList_ofList, List.cons_append, List.append_assoc, List.singleton_append, readFrom,
      if_neg (by decide), if_pos rfl, readFrom_quoted, List.append_nil, readFrom, ends]
    simp only
    rw [List.reverse_reverse, String.ofList_toList]

/-- Elements with commas between them are read up to the closing brace. -/
theorem readFrom_elements (first : JsonKey) (rest : List JsonKey) :
    readFrom .before ((", ".intercalate ((first :: rest).map element)).toList ++ ['\x7d']) =
      some ((first :: rest).map fun key ↦ some key.text) := by
  induction rest generalizing first with
  | nil =>
    rw [List.map_singleton, String.intercalate_singleton, readFrom_element first rfl, readFrom]
    rfl
  | cons second others ih =>
    have hcomma :
        ((", ".intercalate ((first :: second :: others).map element)).toList ++ ['\x7d']) =
        first.element.toList ++ ',' :: ' ' ::
          ((", ".intercalate ((second :: others).map element)).toList ++ ['\x7d']) := by
      rw [List.map_cons, List.map_cons, String.intercalate_cons_cons]
      simp
    rw [hcomma, readFrom_element first rfl, readFrom, if_pos (by decide), ih]
    rfl

/-- No element starts with white space or with what ends an array. -/
theorem exists_head_element (key : JsonKey) : ∃ c rest, key.element.toList = c :: rest ∧
    isSpace c = false ∧ c ≠ '\x7d' := by
  rw [element_eq]
  split
  · rename_i hplain
    obtain ⟨hsome, -, hplain⟩ := isPlain_iff.1 hplain
    obtain ⟨first, others, hfirst⟩ := List.exists_cons_of_ne_nil hsome
    have hcharacter := hplain first (hfirst ▸ List.mem_cons_self)
    exact ⟨first, others, hfirst, not_isSpace_of_plain hcharacter,
      ne_of_plain hcharacter (by decide)⟩
  · rw [String.toList_ofList]
    exact ⟨_, _, rfl, by decide, by decide⟩

/-- The elements of a path as an array constant are its steps. -/
theorem elements?_array (path : List JsonKey) :
    elements? (array path) = some (path.map fun key ↦ some key.text) := by
  have harray : (array path).toList =
      '\x7b' :: ((", ".intercalate (path.map element)).toList ++ ['\x7d']) := by
    simp [array]
  unfold elements?
  rw [harray, List.dropWhile_cons_of_neg (by decide)]
  cases path with
  | nil => rfl
  | cons first rest =>
    obtain ⟨c, others, hhead, hspace, hbrace⟩ := first.exists_head_element
    have helements := readFrom_elements first rest
    have htext : ∃ behind, (", ".intercalate ((first :: rest).map element)).toList ++ ['\x7d'] =
        c :: behind := by
      cases rest with
      | nil => exact ⟨_, by simp [hhead]; rfl⟩
      | cons second rest => exact ⟨_, by simp [String.intercalate_cons_cons, hhead]; rfl⟩
    obtain ⟨behind, hbehind⟩ := htext
    rw [hbehind] at helements ⊢
    simp only [List.dropWhile_cons_of_neg, hspace, Bool.false_eq_true, not_false_eq_true]
    split
    · rename_i heq
      exact absurd (List.cons.inj heq).1 hbrace
    · exact helements

-- The bare word for null has no text, the one in quotes has.
example : elements? "\x7b NULL , \"Null\",a b \x7d" = some [none, some "Null", some "a b"] := by
  decide

/-- The elements of the array in a string constant. -/
def steps? (constant : String) : Option (List (Option String)) :=
  (readConstant constant).bind elements?

theorem steps?_array (path : List JsonKey) :
    steps? (quoteText (array path)) = some (path.map fun key ↦ some key.text) := by
  rw [steps?, readConstant_quoteText, Option.bind_some, elements?_array]

end JsonKey

/-! ## Expressions -/

/-- The content of a piece that is a string constant. -/
def Piece.string? : Piece → Option String
  | .text content => some content
  | _ => none

/-- The contents of the string constants in code, in order. -/
def Code.strings (code : Code) : List String := code.filterMap Piece.string?

theorem Code.strings_append (code other : Code) :
    strings (code ++ other) = strings code ++ strings other := List.filterMap_append

theorem ColumnRef.strings_code (column : ColumnRef) (owner : Option String) :
    Code.strings (column.code (owner.map .name)) = [] := by
  obtain ⟨table, name⟩ := column
  cases table <;> cases owner <;> simp only [code, Option.map_none, Option.map_some] <;>
    split <;> rfl

namespace JsonExpr

/-- The paths in an expression, from the column outwards. -/
def paths : JsonExpr → List (List JsonKey)
  | column _ => []
  | set target path _ _ | insert target path _ _ | remove target path => target.paths ++ [path]
  | query target _ _ => target.paths

/-- A call adds one constant to those of its target, the path. -/
theorem strings_callCode (function : String) (target : Code) (path : List JsonKey) (value : Json)
    (last : Bool) : Code.strings (callCode function target path value last) =
      Code.strings target ++ [JsonKey.array path] := by
  unfold callCode Code.parenthesized
  cases last <;> simp [Code.strings, Piece.string?, List.filterMap_cons]

/-- The string constants of an expression are its paths. -/
theorem strings_code (expression : JsonExpr) (owner : Option String) :
    Code.strings (expression.code (owner.map .name)) = expression.paths.map JsonKey.array := by
  induction expression with
  | column reference => exact reference.strings_code owner
  | set target path value create ih =>
    rw [code, strings_callCode, ih, paths, List.map_append, List.map_singleton]
  | insert target path value after ih =>
    rw [code, strings_callCode, ih, paths, List.map_append, List.map_singleton]
  | remove target path ih =>
    rw [code, Code.strings_append, ih, paths, List.map_append, List.map_singleton]
    rfl
  | query target path options ih =>
    rw [paths, ← ih]
    cases options <;>
      simp [code, Code.strings, Code.parenthesized, Piece.string?, List.filterMap_cons]

/-- A path is read again, step by step, from the constant that is written for it, and the constants
of an expression are those of its paths. -/
theorem steps_written :
    (∀ path : List JsonKey,
      JsonKey.steps? (quoteText (JsonKey.array path)) = some (path.map fun key ↦ some key.text)) ∧
    ∀ (expression : JsonExpr) (owner : Option String),
      (Code.strings (expression.code (owner.map .name))).map
          (fun content ↦ JsonKey.steps? (quoteText content)) =
        expression.paths.map fun path ↦ some (path.map fun key ↦ some key.text) := by
  refine ⟨JsonKey.steps?_array, fun expression owner ↦ ?_⟩
  simp only [strings_code, List.map_map, Function.comp_def, JsonKey.steps?_array]

end JsonExpr
end SqlComposer
