import SqlComposer.Ident
import SqlComposer.Literal

/-!
# Pieces of SQL

The library writes a statement as a list of pieces that keep apart what comes from where: its own
words, names, string constants, fragments spliced in verbatim, and bound values. Only printing
turns them into text. A bound value is printed as a placeholder numbered by its position among all
bound values, so the code of a sub-query does not depend on where it is embedded, and the numbers
are continuous across a whole statement.
-/

namespace SqlComposer

/-- One piece of SQL. -/
inductive Piece where
  /-- Keywords, punctuation, blanks and checked words. -/
  | word (text : String)
  | name (text : String)
  | text (content : String)
  /-- Text given by the caller, verbatim. -/
  | splice (sql : String)
  /-- A placeholder for a value. -/
  | bind (value : Literal)
  /-- A value that is bound although the text with its placeholder was dropped. -/
  | unused (value : Literal)
  /-- Items separated by commas, followed by those columns that are not written among them. -/
  | itemsThenMissing (items columns : List (List Piece))

abbrev Code := List Piece

/-- Code, or the reason why it cannot be written. -/
abbrev Written := Except Error Code

/-! ## Values -/

mutual

def Piece.values : Piece → List Literal
  | .bind value | .unused value => [value]
  | .itemsThenMissing items columns => Code.itemValues items ++ Code.itemValues columns
  | _ => []

def Code.values : List Piece → List Literal
  | [] => []
  | piece :: rest => piece.values ++ Code.values rest

def Code.itemValues : List (List Piece) → List Literal
  | [] => []
  | item :: rest => Code.values item ++ Code.itemValues rest

end

/-! ## Printing -/

/-- The texts, followed by those of the columns that do not occur before them. -/
def withMissing (texts : List String) : List String → List String
  | [] => texts
  | column :: rest => withMissing (if column ∈ texts then texts else texts ++ [column]) rest

mutual

/-- The text of a piece when `bound` values are bound before it. -/
def Piece.print (bound : Nat) : Piece → String
  | .word text => text
  | .name text => quoteName text
  | .text content => quoteText content
  | .splice sql => sql
  | .bind _ => "$" ++ toString (bound + 1)
  | .unused _ => ""
  | .itemsThenMissing items columns =>
    ", ".intercalate (withMissing (Code.itemTexts bound items) (Code.itemTexts bound columns))

/-- The text of a list of pieces when `bound` values are bound before it. -/
def Code.print (bound : Nat) : List Piece → String
  | [] => ""
  | piece :: rest => piece.print bound ++ Code.print (bound + piece.values.length) rest

def Code.itemTexts (bound : Nat) : List (List Piece) → List String
  | [] => []
  | item :: rest =>
    Code.print bound item :: Code.itemTexts (bound + (Code.values item).length) rest

end

/-! ## Building code -/

namespace Code

def separated (separator : String) (items : List Code) : Code :=
  List.intercalate [.word separator] items

def nameList (names : List String) : Code := separated ", " (names.map fun name => [.name name])

def parenthesized (code : Code) : Code := .word "(" :: code ++ [.word ")"]

/-- What is left of code whose text is dropped: its values stay bound. -/
def dropped (code : Code) : Code := (values code).map .unused

/-- A table name, behind its schema when it has one. -/
def table (schema : Option String) (name : String) : Code :=
  match schema with
  | some schema => [.name schema, .word ".", .name name]
  | none => [.name name]

/-- The words that give a table or an item another name. -/
def aliased (name : String) : Code := [.word " AS ", .name name]

end Code

/-! ## Parameters -/

structure Parameters where
  values : List Literal

namespace Parameters

def empty : Parameters := ⟨[]⟩

/-- Binds one more value; the result is its number, counted from one. -/
def push (parameters : Parameters) (value : Literal) : Nat × Parameters :=
  (parameters.values.length + 1, ⟨parameters.values ++ [value]⟩)

/-- Prints code behind what is already bound. -/
def print (parameters : Parameters) (code : Code) : String × Parameters :=
  (Code.print parameters.values.length code, ⟨parameters.values ++ Code.values code⟩)

end Parameters

/-- Compiled SQL: text with numbered placeholders and the values they stand for. -/
structure CompiledSql where
  text : String
  values : List Literal

def Code.compile (code : Code) : CompiledSql := ⟨Code.print 0 code, Code.values code⟩

end SqlComposer
