import SqlComposer.ColumnRef

/-!
# Fragments and terms

A fragment is SQL given by the caller. With values, each single question mark in it stands for the
next value and a doubled one for a question mark; the number of marks has to agree with the number
of values. Without values it is taken verbatim, so that operators spelled with question marks need
no doubling.

A term is what may stand where a value is expected: a literal, which is bound, a fragment, which is
spliced in, or a column reference.
-/

namespace SqlComposer

/-- A raw fragment with the values of its marks. -/
structure Fragment where
  sql : String
  values : List Literal

namespace Fragment

def verbatim (sql : String) : Fragment := ⟨sql, []⟩

/-- The number of single question marks, pairs being taken from the left. -/
def countMarks : List Char → Nat
  | [] => 0
  | '?' :: '?' :: rest => countMarks rest
  | '?' :: rest => countMarks rest + 1
  | _ :: rest => countMarks rest

/-- The piece for characters read in reverse, if there are any. -/
def spliced (read : List Char) : Code :=
  if read.isEmpty then [] else [.splice (String.ofList read.reverse)]

/-- Replaces the marks by the values. Marks beyond the last value leave no trace; `read` holds the
characters since the last mark in reverse. -/
def expand (read : List Char) : List Char → List Literal → Code
  | [], _ => spliced read
  | '?' :: '?' :: rest, values => expand ('?' :: read) rest values
  | '?' :: rest, [] => expand read rest []
  | '?' :: rest, value :: values => spliced read ++ .bind value :: expand [] rest values
  | c :: rest, values => expand (c :: read) rest values

/-- The fragment as far as it can be written. -/
def pieces (fragment : Fragment) : Code :=
  if fragment.values.isEmpty then [.splice fragment.sql]
  else expand [] fragment.sql.toList fragment.values

def fault? (fragment : Fragment) : Option Error :=
  let marks := countMarks fragment.sql.toList
  if fragment.values.isEmpty ∨ marks = fragment.values.length then none
  else some (.markCount fragment.sql marks fragment.values.length)

def code (fragment : Fragment) : Written :=
  match fragment.fault? with
  | some error => .error error
  | none => .ok fragment.pieces

end Fragment

/-! ## Terms -/

/-- A literal, a fragment or a column. -/
inductive Term where
  | literal (value : Literal)
  | raw (fragment : Fragment)
  | column (reference : ColumnRef)

namespace Term

def isNull : Term → Bool
  | .literal .null => true
  | _ => false

/-- The column named by a text as a term. -/
def ofColumn (text : String) : Except Error Term := (ColumnRef.parse text).map Term.column

def code (qualifier : Qualifier) : Term → Written
  | .literal value => .ok [.bind value]
  | .raw fragment => fragment.code
  | .column reference => .ok (reference.code qualifier)

def listCode (qualifier : Qualifier) (terms : List Term) : Written := do
  return Code.separated ", " (← terms.mapM (code qualifier))

end Term
end SqlComposer
