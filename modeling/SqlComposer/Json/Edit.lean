import SqlComposer.ColumnRef
import SqlComposer.Text.Characters

/-!
# JSON expressions

A JSON expression starts at a column and sets, inserts or removes what stands under a path, or
queries it with a path language of the database. Expressions nest: what is set may be the result of
an earlier insertion. Paths are written as array constants, values are bound.
-/

namespace SqlComposer

inductive JsonKey where
  | name (text : String)
  | index (position : Int)
  deriving DecidableEq, Repr

namespace JsonKey

/-- Whether a character of an array element has to stand in double quotes. -/
def isSpecial (c : Char) : Bool :=
  c == '\x7b' || c == '\x7d' || c == ',' || c == '"' || c == '\\' || c == '\'' || isBlank c

/-- Whether a text is its own array element: not empty, not the word for null, and without special
characters. -/
def isPlain (text : String) : Bool :=
  let characters := text.toList
  !characters.isEmpty && characters.map Char.toLower != ['n', 'u', 'l', 'l'] &&
    characters.all fun c => !isSpecial c

/-- The characters of a quoted array element: quotes and backslashes are escaped. -/
def escaped (c : Char) : List Char :=
  if c = '"' ∨ c = '\\' then ['\\', c] else [c]

def element : JsonKey → String
  | name text =>
    if isPlain text then text
    else String.ofList ('"' :: (text.toList.flatMap escaped ++ ['"']))
  | index position => toString position

def array (path : List JsonKey) : String :=
  "\x7b" ++ ", ".intercalate (path.map element) ++ "\x7d"

end JsonKey

/-- An expression over a JSON column. -/
inductive JsonExpr where
  | column (reference : ColumnRef)
  /-- Sets the value at a path, also where the last key is missing if `create` holds. -/
  | set (target : JsonExpr) (path : List JsonKey) (value : Json) (create : Bool)
  /-- Inserts a value before the element at a path, or after it. -/
  | insert (target : JsonExpr) (path : List JsonKey) (value : Json) (after : Bool)
  | remove (target : JsonExpr) (path : List JsonKey)
  /-- The result of a path query; `options` holds its variables and whether it hides failures. -/
  | query (target : JsonExpr) (path : String) (options : Option (Json × Bool))

namespace JsonExpr

def root : JsonExpr → ColumnRef
  | column reference => reference
  | set target _ _ _ | insert target _ _ _ | remove target _ | query target _ _ => target.root

/-- A call with a path, a bound value and a last argument that is written only when it holds. -/
def callCode (function : String) (target : Code) (path : List JsonKey) (value : Json)
    (last : Bool) : Code :=
  .word function :: Code.parenthesized (target ++
    [.word ", ", .text (JsonKey.array path), .word ", ", .bind (.json value)] ++
    if last then [.word ", true"] else [])

/-- The code of an expression. A path query is bound as text, which the database reads. -/
def code (qualifier : Qualifier) : JsonExpr → Code
  | column reference => reference.code qualifier
  | set target path value create =>
    callCode "jsonb_set" (target.code qualifier) path value create
  | insert target path value after =>
    callCode "jsonb_insert" (target.code qualifier) path value after
  | remove target path =>
    target.code qualifier ++ [.word " #- ", .text (JsonKey.array path)]
  | query target path options =>
    let arguments : Code := match options with
      | some (bindings, silent) =>
        [.word ", ", .bind (.json bindings), .word (if silent then ", true" else ", false")]
      | none => []
    .word "jsonb_path_query" :: Code.parenthesized (target.code qualifier ++
      [.word ", ", .bind (.text path), .word "::text::jsonpath"] ++ arguments)

end JsonExpr
end SqlComposer
