import SqlComposer.Description.Term
import SqlComposer.Json.Edit
import SqlComposer.Payload

/-!
# Descriptions of data and JSON expressions

Data is a list of entries that are carried out in order, or a JSON object taken as it is. A JSON
expression is a column or a list that starts with what is done and with the expression it is done
to.
-/

namespace SqlComposer.Description

mutual

def readPayload : Json → Reading Payload
  | .list entries => readEntries Payload.empty entries
  | json => do lift (Payload.ofJson (← field json "from_json" nested))

def readEntries (payload : Payload) : List Json → Reading Payload
  | [] => .ok payload
  | .list (.text action :: .text key :: arguments) :: rest => do
    let payload ← match action, arguments with
      | "set", [value] => do pure (payload.set key (← readTerm value))
      | "set_opt", [] => pure (payload.setOption key none)
      | "set_opt", [value] => do pure (payload.setOption key (some (← readTerm value)))
      | "raw", [fragment] => do pure (payload.setRaw key (← readFragment fragment))
      | "create", [data] => do pure (payload.put key (.create (← readPayload data)))
      | "create_many", [.list rows] => do
        pure (payload.put key (.createMany (← readPayloads rows)))
      | _, _ => malformed "entry"
    readEntries payload rest
  | _ => malformed "entry"

def readPayloads : List Json → Reading (List Payload)
  | [] => .ok []
  | json :: rest => do
    let payload ← readPayload json
    return payload :: (← readPayloads rest)

end

/-- Texts are names of members, numbers are positions. -/
def readPath (json : Json) : Reading (List JsonKey) := do
  (← items json).mapM fun
    | .text name => .ok (JsonKey.name name)
    | .int position => .ok (JsonKey.index position)
    | _ => malformed "path"

def readJsonExpr : Json → Reading JsonExpr
  | .text column => do return .column (← lift (ColumnRef.parse column))
  | .list (.text action :: target :: path :: arguments) => do
    let target ← readJsonExpr target
    match action, arguments with
    | "set", [value] => return .set target (← readPath path) (← nested value) false
    | "set_or_create", [value] => return .set target (← readPath path) (← nested value) true
    | "insert", [value] => return .insert target (← readPath path) (← nested value) false
    | "insert_after", [value] => return .insert target (← readPath path) (← nested value) true
    | "remove", [] => return .remove target (← readPath path)
    | "path_query", [] => return .query target (← text path) none
    | "path_query_with", [bindings, silent] =>
      return .query target (← text path) (some (← nested bindings, ← flag silent))
    | _, _ => malformed "JSON expression"
  | _ => malformed "JSON expression"

end SqlComposer.Description
