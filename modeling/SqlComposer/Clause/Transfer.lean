import SqlComposer.Code

/-!
# Bulk statements

Emptying a table, and copying rows between a table and a file, a program or the client. Neither
takes bound values, so the texts among their options are written as string constants.
-/

namespace SqlComposer

/-! ## TRUNCATE -/

structure TruncateOptions where
  restartIdentity : Bool
  cascade : Bool
  deriving DecidableEq, Repr

def TruncateOptions.code (options : TruncateOptions) (table : Code) : Code :=
  .word "TRUNCATE " :: table ++
    (if options.restartIdentity then [.word " RESTART IDENTITY"] else []) ++
    if options.cascade then [.word " CASCADE"] else []

/-! ## COPY -/

inductive CopyDirection where
  | into
  | outOf
  deriving DecidableEq, Repr

inductive CopyTarget where
  | path (path : String)
  | program (command : String)
  | client
  deriving DecidableEq, Repr

/-- What the first line of a file means. -/
inductive CopyHeader where
  | present (value : Bool)
  /-- It has to agree with the column names. -/
  | checked
  deriving DecidableEq, Repr

/-- The options of a copy; those that are not given are not written. -/
structure CopyOptions where
  columns : List String
  direction : CopyDirection
  target : CopyTarget
  format : Option String
  freeze : Option Bool
  delimiter : Option String
  null : Option String
  header : Option CopyHeader
  quote : Option String
  escape : Option String
  forceQuote : List String
  forceNotNull : List String
  forceNull : List String
  encoding : Option String
  deriving DecidableEq, Repr

namespace CopyOptions

/-- A copy from one side to the other without options. -/
def plain (direction : CopyDirection) (target : CopyTarget) : CopyOptions :=
  ⟨[], direction, target, none, none, none, none, none, none, none, [], [], [], none⟩

/-- Whether a text can be written as the name of a format: a word of ASCII letters. -/
def isFormat (format : String) : Bool :=
  !format.isEmpty && format.toList.all Char.isAlpha

def textOption (name : String) (value : Option String) : List Code :=
  match value with
  | some value => [[.word name, .word " ", .text value]]
  | none => []

def wordOption (name : String) (value : Option String) : List Code :=
  match value with
  | some value => [[.word name, .word " ", .word value]]
  | none => []

def columnsOption (name : String) (columns : List String) : List Code :=
  if columns.isEmpty then []
  else [.word name :: .word " " :: Code.parenthesized (Code.nameList columns)]

def flagWord (value : Bool) : String := if value then "true" else "false"

def headerWord : CopyHeader → String
  | .present value => flagWord value
  | .checked => "match"

/-- The options that are given, in a fixed order. -/
def items (options : CopyOptions) : List Code :=
  wordOption "FORMAT" options.format ++
    wordOption "FREEZE" (options.freeze.map flagWord) ++
    textOption "DELIMITER" options.delimiter ++
    textOption "NULL" options.null ++
    wordOption "HEADER" (options.header.map headerWord) ++
    textOption "QUOTE" options.quote ++
    textOption "ESCAPE" options.escape ++
    columnsOption "FORCE_QUOTE" options.forceQuote ++
    columnsOption "FORCE_NOT_NULL" options.forceNotNull ++
    columnsOption "FORCE_NULL" options.forceNull ++
    textOption "ENCODING" options.encoding

def targetCode (options : CopyOptions) : Code :=
  match options.target, options.direction with
  | .path path, _ => [.text path]
  | .program command, _ => [.word "PROGRAM ", .text command]
  | .client, .into => [.word "STDIN"]
  | .client, .outOf => [.word "STDOUT"]

def code (options : CopyOptions) (table : Code) : Code :=
  let columns : Code :=
    if options.columns.isEmpty then [] else Code.parenthesized (Code.nameList options.columns)
  let way := match options.direction with
    | .into => " FROM "
    | .outOf => " TO "
  let settings : Code :=
    if options.items.isEmpty then []
    else .word " WITH " :: Code.parenthesized (Code.separated ", " options.items)
  .word "COPY " :: table ++ columns ++ .word way :: options.targetCode ++ settings

end CopyOptions
end SqlComposer
