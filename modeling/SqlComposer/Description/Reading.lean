import SqlComposer.Error
import SqlComposer.Json.Reader

/-!
# Reading descriptions

Literals, tables, data and conditions have descriptions in JSON, in which a program that does not
link the library hands them over. This module holds what the readers of descriptions share. A
description stands for nothing if it is not of the form that is asked for, or if what it describes
is refused; the two are kept apart.
-/

namespace SqlComposer.Description

/-- Why a description stands for nothing. -/
inductive Fault where
  /-- It is not of the form that is asked for. -/
  | malformed (expected : String)
  /-- What it describes is refused. -/
  | refused (error : Error)

abbrev Reading := Except Fault

/-- What is described is what comes out of this step. -/
def lift {α : Type} : Except Error α → Reading α
  | .ok value => .ok value
  | .error error => .error (.refused error)

def malformed {α : Type} (expected : String) : Reading α := .error (.malformed expected)

def need {α : Type} (expected : String) : Option α → Reading α
  | some value => .ok value
  | none => malformed expected

/-! ## Values of one form -/

def text : Json → Reading String
  | .text value => .ok value
  | _ => malformed "text"

def items : Json → Reading (List Json)
  | .list values => .ok values
  | _ => malformed "list"

def flag : Json → Reading Bool
  | .bool value => .ok value
  | _ => malformed "boolean"

def int : Json → Reading Int
  | .int value => .ok value
  | _ => malformed "integer"

def nat (json : Json) : Reading Nat := do return (← int json).toNat

def texts (json : Json) : Reading (List String) := do (← items json).mapM text

/-- JSON that is given as its text. -/
def nested (json : Json) : Reading Json := do need "JSON text" (Json.read (← text json))

/-- An integer that is given as its text. -/
def intText (json : Json) : Reading Int := do
  match readInt64 (← text json) with
  | .ok value => .ok value
  | .error _ => malformed "integer text"

/-- Bytes that are given in hexadecimal digits. -/
def hexBytes (json : Json) : Reading (List UInt8) := do
  need "hexadecimal text" (readHexPairs (← text json).toList)

/-! ## Members -/

def field {α : Type} (json : Json) (name : String) (read : Json → Reading α) : Reading α := do
  read (← need name (json.get? name))

/-- A member that may be missing or null. -/
def optional {α : Type} (json : Json) (name : String) (read : Json → Reading α) :
    Reading (Option α) :=
  match json.get? name with
  | none | some .null => .ok none
  | some value => (read value).map some

def listField {α : Type} (json : Json) (name : String) (read : Json → Reading α) :
    Reading (List α) := do
  ((← optional json name items).getD []).mapM read

/-- A switch, off unless given. -/
def switch (json : Json) (name : String) : Reading Bool := do
  return (← optional json name flag).getD false

def tagged (tag : String) (value : Json) : Json := .object [(tag, value)]

def textOrNull : Option String → Json
  | some value => .text value
  | none => .null

end SqlComposer.Description
