import SqlComposer.Literal
import SqlComposer.Text.Unprinted

/-!
# Diagnostic text of literals

Error messages about results show values in a form that names their type: `Int(1)`, `Text("a")`.
Text stands in double quotes with line breaks, quotes and characters without a shape escaped.
-/

namespace SqlComposer

def hexNumber (n : Nat) : String := String.ofList (Nat.toDigits 16 n)

def diagnosticChar (c : Char) : String :=
  if c = '\x00' then "\\0"
  else if c = '\t' then "\\t"
  else if c = '\n' then "\\n"
  else if c = '\r' then "\\r"
  else if c = '"' then "\\\""
  else if c = '\\' then "\\\\"
  else if isUnprinted c then "\\u\x7b" ++ hexNumber c.toNat ++ "\x7d"
  else String.singleton c

def diagnosticText (text : String) : String :=
  "\"" ++ String.join (text.toList.map diagnosticChar) ++ "\""

def diagnosticList (items : List String) : String := "[" ++ ", ".intercalate items ++ "]"

mutual

def Json.diagnostic : Json → String
  | .null => "Null"
  | .bool value => "Bool(" ++ (if value then "true" else "false") ++ ")"
  | .int value => "Number(" ++ toString value ++ ")"
  | .float value => "Number(" ++ Json.floatText value ++ ")"
  | .text value => "String(" ++ diagnosticText value ++ ")"
  | .list items => "Array " ++ diagnosticList (Json.itemDiagnostics items)
  | .object members =>
    "Object \x7b" ++ ", ".intercalate (Json.memberDiagnostics members) ++ "\x7d"

def Json.itemDiagnostics : List Json → List String
  | [] => []
  | item :: rest => item.diagnostic :: itemDiagnostics rest

def Json.memberDiagnostics : List (String × Json) → List String
  | [] => []
  | (name, value) :: rest =>
    (diagnosticText name ++ ": " ++ value.diagnostic) :: memberDiagnostics rest

end

def Literal.diagnostic : Literal → String
  | .null => "Null"
  | .bool value => "Bool(" ++ (if value then "true" else "false") ++ ")"
  | .int value => "Int(" ++ toString value ++ ")"
  | .float value => "Float(" ++ value.toText .diagnostic ++ ")"
  | .decimal value => "Decimal(" ++ value.toText ++ ")"
  | .text value => "Text(" ++ diagnosticText value ++ ")"
  | .json value => "Json(" ++ value.diagnostic ++ ")"
  | .uuid value => "Uuid(" ++ value.toText ++ ")"
  | .instant value => "Timestamp(" ++ value.toText "Z" ++ ")"
  | .date value => "Date(" ++ value.toText ++ ")"
  | .bytes value => "Bytes(" ++ diagnosticList (value.map fun byte => toString byte.toNat) ++ ")"

def diagnosticOption (value : Option String) : String :=
  match value with
  | some value => "Some(" ++ value ++ ")"
  | none => "None"

end SqlComposer
