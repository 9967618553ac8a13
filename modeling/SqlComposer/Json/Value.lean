import SqlComposer.Number.FloatText
import SqlComposer.Text.Characters

/-!
# JSON values

The members of an object keep the order in which their names first appeared, and a name given again
takes the new value in the old place. Numbers are integers when they are written as such and fit
64 bits, and doubles otherwise. `Json.toText` writes a value without any space; only quotes,
backslashes and control characters are escaped.
-/

namespace SqlComposer

/-- Sets the value stored under `key`: in place when the key is known, at the end otherwise. -/
def putEntry {α : Type} (key : String) (value : α) : List (String × α) → List (String × α)
  | [] => [(key, value)]
  | entry :: rest =>
    if entry.1 = key then (key, value) :: rest else entry :: putEntry key value rest

inductive Json where
  | null
  | bool (value : Bool)
  | int (value : Int)
  | float (value : Double)
  | text (value : String)
  | list (items : List Json)
  | object (members : List (String × Json))

namespace Json

def get? (json : Json) (name : String) : Option Json :=
  match json with
  | object members => (members.find? (·.1 == name)).map (·.2)
  | _ => none

/-! ## Writing -/

def escapedChar (c : Char) : List Char :=
  if c = '"' then ['\\', '"']
  else if c = '\\' then ['\\', '\\']
  else if c = '\x08' then ['\\', 'b']
  else if c = '\x0c' then ['\\', 'f']
  else if c = '\n' then ['\\', 'n']
  else if c = '\r' then ['\\', 'r']
  else if c = '\t' then ['\\', 't']
  else if c.toNat < 0x20 then
    ['\\', 'u', '0', '0', hexDigit (c.toNat / 16), hexDigit (c.toNat % 16)]
  else [c]

def stringText (text : String) : String :=
  String.ofList ('"' :: (text.toList.flatMap escapedChar ++ ['"']))

/-- The text of a number that is a double; JSON has none for infinities and NaN. -/
def floatText (x : Double) : String := if x.isFinite then x.toText .json else "null"

mutual

/-- The text of a value, without spaces. -/
def toText : Json → String
  | null => "null"
  | bool value => if value then "true" else "false"
  | int value => toString value
  | float value => floatText value
  | text value => stringText value
  | list items => "[" ++ ",".intercalate (itemTexts items) ++ "]"
  | object members => "\x7b" ++ ",".intercalate (memberTexts members) ++ "\x7d"

def itemTexts : List Json → List String
  | [] => []
  | item :: rest => item.toText :: itemTexts rest

def memberTexts : List (String × Json) → List String
  | [] => []
  | (name, value) :: rest => (stringText name ++ ":" ++ value.toText) :: memberTexts rest

end

/-- A double as a JSON value; infinities and NaN have none and become null. -/
def ofDouble (x : Double) : Json := if x.isFinite then float x else null

end Json
end SqlComposer
