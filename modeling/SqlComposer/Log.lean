import SqlComposer.Error

/-!
# Logging

Every statement that is sent can be logged: its text, cut to a number of bytes if the settings say
so, the number of its parameters, and either the number of rows it reported or its failure. Failures
are logged as warnings, everything else at the level of the settings.
-/

namespace SqlComposer

inductive LogLevel where
  | error
  | warn
  | info
  | debug
  | trace
  deriving DecidableEq, Repr

def LogLevel.name : LogLevel → String
  | error => "ERROR"
  | warn => "WARN"
  | info => "INFO"
  | debug => "DEBUG"
  | trace => "TRACE"

def LogLevel.ofName? : String → Option LogLevel
  | "ERROR" => some .error
  | "WARN" => some .warn
  | "INFO" => some .info
  | "DEBUG" => some .debug
  | "TRACE" => some .trace
  | _ => none

/-- How statements are logged. -/
structure LogSettings where
  level : LogLevel
  /-- The number of bytes that longer texts are cut to, if they are cut at all. -/
  maxLength : Option Nat
  deriving DecidableEq, Repr

def LogSettings.usual : LogSettings := ⟨.debug, some 200⟩

/-- The last position of a text within a number of bytes. A byte is given up as long as a character
would be split. -/
def posWithin (text : String) : (max : Nat) → text.Pos
  | 0 => text.startPos
  | max + 1 =>
    if valid : String.Pos.Raw.IsValid text ⟨max + 1⟩ then text.pos ⟨max + 1⟩ valid
    else posWithin text max

/-- The longest start of a text that fits a number of bytes. -/
def textWithin (max : Nat) (text : String) : String :=
  if text.utf8ByteSize ≤ max then text else (text.sliceTo (posWithin text max)).copy

/-- The text as it is logged: what is cut ends in three dots. -/
def LogSettings.shown (settings : LogSettings) (text : String) : String :=
  match settings.maxLength with
  | some max => if text.utf8ByteSize > max then textWithin max text ++ "..." else text
  | none => text

inductive LogOutcome where
  | rows (count : Nat)
  | failure (error : Error)
  deriving DecidableEq, Repr

structure LogEvent where
  level : LogLevel
  sql : String
  parameterCount : Nat
  outcome : LogOutcome
  deriving DecidableEq, Repr

def LogEvent.target : String := "pgqb.sql"

def LogSettings.event (settings : LogSettings) (sql : String) (parameterCount : Nat)
    (outcome : LogOutcome) : LogEvent where
  level := match outcome with
    | .rows _ => settings.level
    | .failure _ => .warn
  sql := settings.shown sql
  parameterCount
  outcome

end SqlComposer
