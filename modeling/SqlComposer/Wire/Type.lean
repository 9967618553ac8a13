/-!
# Types on the wire

The types that the database declares for parameters and for the columns of a result. Those without a
meaning of their own here are kept by name.
-/

namespace SqlComposer

inductive WireType where
  | bool
  | int2
  | int4
  | int8
  | float4
  | float8
  | numeric
  | text
  | varchar
  | bpchar
  | name
  | unknown
  | json
  | jsonb
  | uuid
  | timestamp
  | timestamptz
  | date
  | bytea
  | other (typeName : String)
  deriving DecidableEq, Repr

namespace WireType

def typeName : WireType → String
  | bool => "bool"
  | int2 => "int2"
  | int4 => "int4"
  | int8 => "int8"
  | float4 => "float4"
  | float8 => "float8"
  | numeric => "numeric"
  | text => "text"
  | varchar => "varchar"
  | bpchar => "bpchar"
  | name => "name"
  | unknown => "unknown"
  | json => "json"
  | jsonb => "jsonb"
  | uuid => "uuid"
  | timestamp => "timestamp"
  | timestamptz => "timestamptz"
  | date => "date"
  | bytea => "bytea"
  | other typeName => typeName

def known : List WireType :=
  [bool, int2, int4, int8, float4, float8, numeric, text, varchar, bpchar, name, unknown, json,
    jsonb, uuid, timestamp, timestamptz, date, bytea]

def ofName (name : String) : WireType :=
  (known.find? fun type => type.typeName == name).getD (other name)

/-- Whether values of the type are written as text by default. -/
def isText : WireType → Bool
  | text | varchar | bpchar => true
  | _ => false

def isJson : WireType → Bool
  | json | jsonb => true
  | _ => false

end WireType
end SqlComposer
