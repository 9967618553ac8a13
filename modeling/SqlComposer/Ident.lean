import SqlComposer.Error

/-!
# Identifiers

An identifier is one or more parts separated by single dots. A part is a bare name made of ASCII
letters, digits, underscores and dollar signs (not starting with a digit or a dollar sign), a
double-quoted name in which a quote is written twice, or, as the last part only, the star.

Every identifier is written with each name in quotes, so a name keeps its case and no character
of it can end the name early. `Ident.parse` reads identifiers, `Ident.toSql` writes them.
-/

namespace SqlComposer

/-- The characters of a quoted name between its quotes: each quote is written twice. -/
def doubled (mark : Char) : List Char → List Char
  | [] => []
  | c :: rest => if c = mark then mark :: mark :: doubled mark rest else c :: doubled mark rest

/-- A text between two marks, the mark itself doubled inside. -/
def enclosed (mark : Char) (text : String) : String :=
  String.ofList (mark :: (doubled mark text.toList ++ [mark]))

/-- A name written as a quoted identifier: `user` is `"user"`, `a"b` is `"a""b"`. -/
def quoteName (name : String) : String := enclosed '"' name

/-- A text written as a string constant: `it's` is `'it''s'`. -/
def quoteText (text : String) : String := enclosed '\'' text

/-- A table name in quotes, behind its schema when it has one. -/
def quoteTable (schema : Option String) (name : String) : String :=
  match schema with
  | some schema => quoteName schema ++ "." ++ quoteName name
  | none => quoteName name

inductive IdentPart where
  | name (text : String)
  | star
  deriving DecidableEq, Repr

/-- A possibly dotted identifier: a table, a column, `schema.table`, `table.*`. -/
structure Ident where
  parts : List IdentPart
  deriving DecidableEq, Repr

/-! ## Writing -/

/-- A name is written in quotes, the star as itself. -/
def IdentPart.toSql : IdentPart → String
  | .name text => quoteName text
  | .star => "*"

namespace Ident

def toSql (ident : Ident) : String := ".".intercalate (ident.parts.map IdentPart.toSql)

def isStar (ident : Ident) : Bool := ident.parts.getLast? == some .star

/-! ## Reading -/

/-- A name taken verbatim as an identifier of one part. -/
def quoted (name : String) : Except Error Ident :=
  if name.isEmpty then .error .emptyQuotedName
  else if name.toList.contains '\x00' then .error .nulInIdentifier
  else .ok ⟨[.name name]⟩

/-- Reads a name behind its opening quote up to and with the closing one; nothing when no quote
closes it. -/
def readQuoted : List Char → Option (List Char × List Char)
  | [] => none
  | '"' :: '"' :: rest => (readQuoted rest).map fun (name, rest) => ('"' :: name, rest)
  | '"' :: rest => some ([], rest)
  | c :: rest => (readQuoted rest).map fun (name, rest) => (c :: name, rest)

def startsBareName (c : Char) : Bool := c == '_' || c.isAlpha

def continuesBareName (c : Char) : Bool := c == '_' || c == '$' || c.isAlphanum

/-- Reads the rest of a bare name, up to a dot or the end. -/
def readBareRest (text : String) : List Char → Except Error (List Char × List Char)
  | [] => .ok ([], [])
  | c :: rest =>
    if c = '.' then .ok ([], c :: rest)
    else if continuesBareName c then
      (readBareRest text rest).map fun (name, rest) => (c :: name, rest)
    else .error (.invalidCharacter text c)

/-- Reads one part of the identifier `text` from what is left of it. -/
def readPart (text : String) : List Char → Except Error (IdentPart × List Char)
  | '*' :: rest => .ok (.star, rest)
  | '"' :: rest =>
    match readQuoted rest with
    | none => .error .unclosedQuote
    | some ([], _) => .error .emptyQuotedName
    | some (name, rest) => .ok (.name (String.ofList name), rest)
  | [] => .error .emptySegment
  | c :: rest =>
    if c = '.' then .error .emptySegment
    else if startsBareName c then
      (readBareRest text rest).map fun (name, rest) => (.name (String.ofList (c :: name)), rest)
    else .error (.invalidCharacter text c)

theorem length_readQuoted {cs name rest : List Char} (h : readQuoted cs = some (name, rest)) :
    rest.length < cs.length := by
  fun_induction readQuoted cs generalizing name rest with
  | case1 => simp at h
  | case2 cs ih =>
    obtain ⟨⟨n, r⟩, hr, he⟩ := Option.map_eq_some_iff.1 h
    obtain ⟨rfl, rfl⟩ := Prod.mk.inj he
    have := ih hr
    simp only [List.length_cons]
    omega
  | case3 => simp_all
  | case4 c cs _ _ ih =>
    obtain ⟨⟨n, r⟩, hr, he⟩ := Option.map_eq_some_iff.1 h
    obtain ⟨rfl, rfl⟩ := Prod.mk.inj he
    have := ih hr
    simp only [List.length_cons]
    omega

theorem length_readBareRest {text : String} {cs name rest : List Char}
    (h : readBareRest text cs = .ok (name, rest)) : rest.length ≤ cs.length := by
  induction cs generalizing name with
  | nil =>
    simp only [readBareRest, Except.ok.injEq, Prod.mk.injEq] at h
    simp [← h.2]
  | cons c cs ih =>
    unfold readBareRest at h
    split at h
    · simp only [Except.ok.injEq, Prod.mk.injEq] at h
      simp [← h.2]
    · split at h
      · cases hr : readBareRest text cs with
        | error e => simp [hr, Except.map] at h
        | ok p =>
          simp only [hr, Except.map, Except.ok.injEq, Prod.mk.injEq] at h
          have : rest.length ≤ cs.length := @ih p.1 (by rw [hr, ← h.2])
          simp only [List.length_cons]
          omega
      · simp at h

theorem length_readPart {text : String} {cs rest : List Char} {part : IdentPart}
    (h : readPart text cs = .ok (part, rest)) : rest.length < cs.length := by
  unfold readPart at h
  split at h
  · simp only [Except.ok.injEq, Prod.mk.injEq] at h
    simp [← h.2]
  · split at h
    · simp at h
    · simp at h
    · rename_i name rest' hq hr
      simp only [Except.ok.injEq, Prod.mk.injEq] at h
      have := length_readQuoted hr
      simp only [← h.2, List.length_cons]
      omega
  · simp at h
  · rename_i c cs _ _
    split at h
    · simp at h
    · split at h
      · cases hr : readBareRest text cs with
        | error e => simp [hr, Except.map] at h
        | ok p =>
          simp only [hr, Except.map, Except.ok.injEq, Prod.mk.injEq] at h
          have : p.2.length ≤ cs.length := @length_readBareRest text cs p.1 p.2 (by rw [hr])
          simp only [← h.2, List.length_cons]
          omega
      · simp at h

/-- Reads the parts behind `previous`, each led by a dot. -/
def readMore (text : String) (previous : IdentPart) (cs : List Char) :
    Except Error (List IdentPart) :=
  match cs with
  | [] => .ok []
  | c :: rest =>
    if c ≠ '.' then .error (.expectedDot c)
    else if rest.isEmpty then .error .trailingDot
    else if previous = .star then .error .starNotLast
    else
      match h : readPart text rest with
      | .error error => .error error
      | .ok (part, rest') =>
        have := length_readPart h
        (readMore text part rest').map (part :: ·)
termination_by cs.length

def parse (text : String) : Except Error Ident :=
  if text.isEmpty then .error .emptyIdentifier
  else if text.toList.contains '\x00' then .error .nulInIdentifier
  else do
    let (part, rest) ← readPart text text.toList
    return ⟨part :: (← readMore text part rest)⟩

end Ident
end SqlComposer
