import SqlComposer.Json.Number

/-!
# Reading JSON text

The text is read in two passes, each a fold over a list with a small state. The first turns
characters into tokens, the second puts tokens together on a stack of open lists and objects. At
most 127 of them may be open at once. Anything that is not exactly one JSON value surrounded by
blanks is refused.
-/

namespace SqlComposer.Json

/-- A token; strings, numbers and words are values already. -/
inductive Token where
  | openObject
  | closeObject
  | openList
  | closeList
  | comma
  | colon
  | scalar (value : Json)

/-! ## Scalars -/

def readWord (text : List Char) : Option Json :=
  if text = "true".toList then some (bool true)
  else if text = "false".toList then some (bool false)
  else if text = "null".toList then some null
  else none

/-! ## Tokens -/

/-- Where the scanner is. Characters already read are kept in reverse. -/
inductive ScanState where
  | between
  | word (read : List Char)
  | number (read : List Char)
  | string (read : List Char)
  | escape (read : List Char)
  /-- Inside the four digits of a code unit; `high` is the leading half of a surrogate pair. -/
  | unit (read : List Char) (high : Option Nat) (count value : Nat)
  /-- A leading surrogate was read: a backslash has to follow. -/
  | pairBackslash (read : List Char) (high : Nat)
  /-- A leading surrogate and a backslash were read: a `u` has to follow. -/
  | pairLetter (read : List Char) (high : Nat)

/-- The scanner with the tokens found so far, in reverse. -/
structure Scanner where
  state : ScanState
  tokens : List Token

def scanBetween (tokens : List Token) (c : Char) : Option Scanner :=
  if c = ' ' ∨ c = '\n' ∨ c = '\t' ∨ c = '\r' then some ⟨.between, tokens⟩
  else if c = '\x7b' then some ⟨.between, .openObject :: tokens⟩
  else if c = '\x7d' then some ⟨.between, .closeObject :: tokens⟩
  else if c = '[' then some ⟨.between, .openList :: tokens⟩
  else if c = ']' then some ⟨.between, .closeList :: tokens⟩
  else if c = ',' then some ⟨.between, .comma :: tokens⟩
  else if c = ':' then some ⟨.between, .colon :: tokens⟩
  else if c = '"' then some ⟨.string [], tokens⟩
  else if c = '-' ∨ c.isDigit then some ⟨.number [c], tokens⟩
  else if c.isAlpha then some ⟨.word [c], tokens⟩
  else none

/-- The character written by a letter behind a backslash. -/
def simpleEscape? (c : Char) : Option Char :=
  match c with
  | '"' => some '"'
  | '\\' => some '\\'
  | '/' => some '/'
  | 'b' => some '\x08'
  | 'f' => some '\x0c'
  | 'n' => some '\n'
  | 'r' => some '\r'
  | 't' => some '\t'
  | _ => none

/-- What a complete code unit means: a character, the first or the second half of one. -/
def finishUnit (read : List Char) (high : Option Nat) (unit : Nat) : Option ScanState :=
  match high with
  | some high =>
    if 0xdc00 ≤ unit ∧ unit < 0xe000 then
      some (.string (Char.ofNat (0x10000 + (high - 0xd800) * 0x400 + (unit - 0xdc00)) :: read))
    else none
  | none =>
    if 0xd800 ≤ unit ∧ unit < 0xdc00 then some (.pairBackslash read unit)
    else if 0xdc00 ≤ unit ∧ unit < 0xe000 then none
    else some (.string (Char.ofNat unit :: read))

/-- Whether a character can stand in a number behind its first one. -/
def continuesNumber (c : Char) : Bool :=
  c.isDigit || c == '.' || c == 'e' || c == 'E' || c == '+' || c == '-'

def Scanner.step (scanner : Scanner) (c : Char) : Option Scanner :=
  let tokens := scanner.tokens
  match scanner.state with
  | .between => scanBetween tokens c
  | .word read =>
    if c.isAlpha then some ⟨.word (c :: read), tokens⟩
    else do scanBetween (.scalar (← readWord read.reverse) :: tokens) c
  | .number read =>
    if continuesNumber c then some ⟨.number (c :: read), tokens⟩
    else do scanBetween (.scalar (← readNumber read.reverse) :: tokens) c
  | .string read =>
    if c = '"' then some ⟨.between, .scalar (.text (String.ofList read.reverse)) :: tokens⟩
    else if c = '\\' then some ⟨.escape read, tokens⟩
    else if c.toNat < 0x20 then none
    else some ⟨.string (c :: read), tokens⟩
  | .escape read =>
    if c = 'u' then some ⟨.unit read none 0 0, tokens⟩
    else (simpleEscape? c).map fun escaped => ⟨.string (escaped :: read), tokens⟩
  | .unit read high count value => do
    let value := value * 16 + (← hexValue? c)
    if count = 3 then return ⟨← finishUnit read high value, tokens⟩
    else return ⟨.unit read high (count + 1) value, tokens⟩
  | .pairBackslash read high => if c = '\\' then some ⟨.pairLetter read high, tokens⟩ else none
  | .pairLetter read high => if c = 'u' then some ⟨.unit read (some high) 0 0, tokens⟩ else none

def tokens (text : String) : Option (List Token) := do
  let scanner ← text.toList.foldlM Scanner.step ⟨.between, []⟩
  match scanner.state with
  | .between => some scanner.tokens.reverse
  | .word read => return (.scalar (← readWord read.reverse) :: scanner.tokens).reverse
  | .number read => return (.scalar (← readNumber read.reverse) :: scanner.tokens).reverse
  | _ => none

/-! ## Values -/

/-- A list or an object that is still open. The items of a list are kept in reverse; `name` is the
member name whose value comes next. -/
inductive Frame where
  | list (items : List Json)
  | object (members : List (String × Json)) (name : String)

/-- What may come next. -/
inductive Expected where
  | value
  | valueOrClose
  | name
  | nameOrClose
  | colon
  | commaOrClose
  | nothing
  deriving DecidableEq

/-- The open lists and objects, innermost first, and the finished value. -/
structure Assembly where
  expected : Expected
  frames : List Frame
  result : Json

/-- How many lists and objects may be open at once. -/
def maxDepth : Nat := 127

/-- A complete value goes into the innermost frame. -/
def Assembly.add (assembly : Assembly) (value : Json) : Assembly :=
  match assembly.frames with
  | [] => ⟨.nothing, [], value⟩
  | .list items :: frames => ⟨.commaOrClose, .list (value :: items) :: frames, .null⟩
  | .object members name :: frames =>
    ⟨.commaOrClose, .object (putEntry name value members) name :: frames, .null⟩

def Assembly.enter (assembly : Assembly) (frame : Frame) (expected : Expected) :
    Option Assembly :=
  if assembly.frames.length < maxDepth then
    some ⟨expected, frame :: assembly.frames, .null⟩
  else none

def Assembly.step (assembly : Assembly) (token : Token) : Option Assembly :=
  match assembly.expected, token with
  | .value, .scalar value | .valueOrClose, .scalar value => some (assembly.add value)
  | .value, .openList | .valueOrClose, .openList => assembly.enter (.list []) .valueOrClose
  | .value, .openObject | .valueOrClose, .openObject =>
    assembly.enter (.object [] "") .nameOrClose
  | .name, .scalar (.text name) | .nameOrClose, .scalar (.text name) =>
    match assembly.frames with
    | .object members _ :: frames => some ⟨.colon, .object members name :: frames, .null⟩
    | _ => none
  | .colon, .colon => some ⟨.value, assembly.frames, .null⟩
  | .commaOrClose, .comma =>
    match assembly.frames with
    | .list _ :: _ => some ⟨.value, assembly.frames, .null⟩
    | .object _ _ :: _ => some ⟨.name, assembly.frames, .null⟩
    | [] => none
  | .valueOrClose, .closeList | .commaOrClose, .closeList =>
    match assembly.frames with
    | .list items :: frames => some (Assembly.add ⟨.value, frames, .null⟩ (.list items.reverse))
    | _ => none
  | .nameOrClose, .closeObject | .commaOrClose, .closeObject =>
    match assembly.frames with
    | .object members _ :: frames => some (Assembly.add ⟨.value, frames, .null⟩ (.object members))
    | _ => none
  | _, _ => none

/-- Reads a text that holds exactly one JSON value. -/
def read (text : String) : Option Json := do
  let assembly ← (← tokens text).foldlM Assembly.step ⟨.value, [], .null⟩
  if assembly.expected = .nothing then some assembly.result else none

end SqlComposer.Json
