/-
`protocol.hpp`: the JSON-RPC 2.0 messages, their request IDs and their codecs.

An ID is the source's four-way variant. `read_json_rpc_id` tests the unsigned
representation first because the library counts unsigned numbers as integers
too, so a non-negative integer read off the wire is always `uint64_t`, and only a
negative one is `int64_t`.

A codec's `from_json` assigns to an object its caller made: `get_to j x` is what `x` holds
after `j.get_to(x)`, and `from_json j` the same with a fresh object. Both are in `Except`, as
a conversion throws where the library throws.
-/
import SynapseMcp.Json

set_option autoImplicit false

namespace SynapseMcp

/-! ## Messages

A message is a record of its members; `to_json` writes them and `from_json` reads them back.
What is optional is an `Option`, and a member that is absent is not the same as one that is
null. Whether a value is a message at all is not decided here but in the decoder: `from_json`
takes any object that has the members it reads, in the types it reads them in. -/

/-- The codes the SDK itself uses. -/
inductive error_code where
  | parse_error
  | invalid_request
  | method_not_found
  | invalid_params
  | internal_error
  deriving DecidableEq

/-- `static_cast<int>(code)`. -/
def error_code.value : error_code → Int32
  | .parse_error => -32700
  | .invalid_request => -32600
  | .method_not_found => -32601
  | .invalid_params => -32602
  | .internal_error => -32603

/-- `synapse::error`, the error member of a response. -/
structure error where
  code : Int32
  message : String
  data : Option json

/-- The data only if there is any. -/
def error.to_json (e : error) : json :=
  let j := json.object_of
    [("code", .number_integer e.code.toInt64), ("message", .string e.message)]
  match e.data with
  | some data => j.set "data" data
  | none => j

/-- Code and message must be there. -/
def error.get_to (j : json) (e : error) : Except json_exception error := do
  let code ← (← j.at "code").get_int
  let message ← (← j.at "message").get_string
  if j.contains "data" then
    return { e with code, message, data := some (← j.at "data") }
  else
    return { e with code, message, data := none }

/-- `get_to` of a fresh error. -/
def error.from_json (j : json) : Except json_exception error :=
  error.get_to j { code := 0, message := "", data := none }

/-- `std::variant<std::string, int64_t, uint64_t, std::nullptr_t>`. A fresh one holds the
empty string. -/
inductive json_rpc_id where
  | string (value : String)
  | int64 (value : Int64)
  | uint64 (value : UInt64)
  | null
  deriving DecidableEq

/-- `read_json_rpc_id`: whatever is neither a number nor a string is read as null. -/
def read_json_rpc_id : json → json_rpc_id
  | .number_unsigned value => .uint64 value
  | .number_integer value => .int64 value
  | .string value => .string value
  | _ => .null

/-- The member the encoders write for an ID. -/
def json_rpc_id.to_json : json_rpc_id → json
  | .string value => .string value
  | .int64 value => .number_integer value
  | .uint64 value => .number_unsigned value
  | .null => .null

/-- A call that wants an answer, under its ID. -/
structure request where
  jsonrpc : String := "2.0"
  id : json_rpc_id
  method : String
  params : Option json

/-- The parameters only if there are any. -/
def request.to_json (r : request) : json :=
  let j := json.object_of [("jsonrpc", .string r.jsonrpc), ("method", .string r.method)]
  let j := j.set "id" r.id.to_json
  match r.params with
  | some params => j.set "params" params
  | none => j

/-- The ID is read last of the members that must be there. -/
def request.get_to (j : json) (r : request) : Except json_exception request := do
  let jsonrpc ← (← j.at "jsonrpc").get_string
  let method ← (← j.at "method").get_string
  let id := read_json_rpc_id (← j.at "id")
  if j.contains "params" then
    return { r with jsonrpc, id, method, params := some (← j.at "params") }
  else
    return { r with jsonrpc, id, method, params := none }

/-- `get_to` of a fresh request. -/
def request.from_json (j : json) : Except json_exception request :=
  request.get_to j { id := .string "", method := "", params := none }

/-- A request without an ID, which is not answered. -/
structure notification where
  jsonrpc : String := "2.0"
  method : String
  params : Option json

/-- As a request is written, without the ID. -/
def notification.to_json (n : notification) : json :=
  let j := json.object_of [("jsonrpc", .string n.jsonrpc), ("method", .string n.method)]
  match n.params with
  | some params => j.set "params" params
  | none => j

/-- And as it is read. -/
def notification.get_to (j : json) (n : notification) : Except json_exception notification := do
  let jsonrpc ← (← j.at "jsonrpc").get_string
  let method ← (← j.at "method").get_string
  if j.contains "params" then
    return { n with jsonrpc, method, params := some (← j.at "params") }
  else
    return { n with jsonrpc, method, params := none }

/-- `get_to` of a fresh notification. -/
def notification.from_json (j : json) : Except json_exception notification :=
  notification.get_to j { method := "", params := none }

/-- An answer. Nothing keeps it from having both a result and an error, or neither. -/
structure response where
  jsonrpc : String := "2.0"
  id : json_rpc_id
  result : Option json
  err : Option error

/-- The error wins over the result; a response with neither carries a null result. -/
def response.to_json (r : response) : json :=
  let j := json.object_of [("jsonrpc", .string r.jsonrpc)]
  let j := j.set "id" r.id.to_json
  match r.err, r.result with
  | some err, _ => j.set "error" err.to_json
  | none, some result => j.set "result" result
  | none, none => j.set "result" .null

/-- A response carries a result exactly when it carries no error. -/
theorem response.to_json_result (r : response) :
    r.to_json.contains "result" = r.err.isNone := by
  obtain ⟨members, hmembers⟩ : ∃ members,
      (json.object_of [("jsonrpc", .string r.jsonrpc)]).set "id" r.id.to_json =
        .object members ∧ (json.object members).find? "result" = none := by
    refine ⟨_, rfl, ?_⟩
    exact json.find?_set _ "id" "result" _
  unfold response.to_json
  dsimp only
  rw [hmembers.1]
  cases r.err with
  | some err =>
      rw [json.contains, json.find?_set, if_neg (by decide), hmembers.2]
      rfl
  | none =>
      cases r.result with
      | some result =>
          rw [json.contains, json.find?_set, if_pos rfl]
          rfl
      | none =>
          rw [json.contains, json.find?_set, if_pos rfl]
          rfl

/-- An error is read if there is one, and the result only if there is none. -/
def response.get_to (j : json) (r : response) : Except json_exception response := do
  let jsonrpc ← (← j.at "jsonrpc").get_string
  let id := read_json_rpc_id (← j.at "id")
  let r := { r with jsonrpc, id, result := none, err := none }
  if j.contains "error" then
    return { r with err := some (← error.from_json (← j.at "error")) }
  else if j.contains "result" then
    return { r with result := some (← j.at "result") }
  else
    return r

/-- `get_to` of a fresh response. -/
def response.from_json (j : json) : Except json_exception response :=
  response.get_to j { id := .string "", result := none, err := none }

/-! ## Descriptors

What the server registers and lists.

They have the same two functions as the messages. A description may be missing when a descriptor
is read, and is always written. -/

/-- A tool as it is listed, with the schema of its arguments. -/
structure tool where
  name : String := ""
  description : String := ""
  inputSchema : json := .null

/-- All three members. -/
def tool.to_json (t : tool) : json :=
  json.object_of
    [("name", .string t.name), ("description", .string t.description),
      ("inputSchema", t.inputSchema)]

/-- Name and schema must be there. -/
def tool.get_to (j : json) (t : tool) : Except json_exception tool := do
  let name ← (← j.at "name").get_string
  let description ← j.value "description" "" json.get_string
  let inputSchema ← j.at "inputSchema"
  return { t with name, description, inputSchema }

/-- `get_to` of a fresh tool. -/
def tool.from_json (j : json) : Except json_exception tool := tool.get_to j {}

/-- A resource as it is listed. Its type may be missing. -/
structure resource where
  uri : String := ""
  name : String := ""
  description : String := ""
  mimeType : Option String := none

/-- The type only if there is one. -/
def resource.to_json (r : resource) : json :=
  let j := json.object_of
    [("uri", .string r.uri), ("name", .string r.name), ("description", .string r.description)]
  match r.mimeType with
  | some mimeType => j.set "mimeType" (.string mimeType)
  | none => j

/-- URI and name must be there. -/
def resource.get_to (j : json) (r : resource) : Except json_exception resource := do
  let uri ← (← j.at "uri").get_string
  let name ← (← j.at "name").get_string
  let description ← j.value "description" "" json.get_string
  if j.contains "mimeType" then
    let mimeType ← (← j.at "mimeType").get_string
    return { r with uri, name, description, mimeType := some mimeType }
  else
    return { r with uri, name, description, mimeType := none }

/-- `get_to` of a fresh resource. -/
def resource.from_json (j : json) : Except json_exception resource := resource.get_to j {}

/-- An argument that a prompt declares. -/
structure prompt_argument where
  name : String := ""
  description : String := ""
  required : Bool := false

/-- All three members. -/
def prompt_argument.to_json (a : prompt_argument) : json :=
  json.object_of
    [("name", .string a.name), ("description", .string a.description),
      ("required", .boolean a.required)]

/-- Only the name must be there. -/
def prompt_argument.get_to (j : json) (a : prompt_argument) :
    Except json_exception prompt_argument := do
  let name ← (← j.at "name").get_string
  let description ← j.value "description" "" json.get_string
  let required ← j.value "required" false json.get_boolean
  return { a with name, description, required }

/-- `get_to` of a fresh argument. -/
def prompt_argument.from_json (j : json) : Except json_exception prompt_argument :=
  prompt_argument.get_to j {}

/-- A prompt as it is listed, with its arguments. -/
structure prompt where
  name : String := ""
  description : String := ""
  arguments : List prompt_argument := []

/-- The arguments only if there are any. -/
def prompt.to_json (p : prompt) : json :=
  let j := json.object_of [("name", .string p.name), ("description", .string p.description)]
  if p.arguments.isEmpty then j
  else j.set "arguments" (.array (p.arguments.map prompt_argument.to_json))

/-- Without `arguments` there are none. -/
def prompt.get_to (j : json) (p : prompt) : Except json_exception prompt := do
  let name ← (← j.at "name").get_string
  let description ← j.value "description" "" json.get_string
  if j.contains "arguments" then
    let arguments ← (← j.at "arguments").get_vector prompt_argument.from_json
    return { p with name, description, arguments }
  else
    return { p with name, description, arguments := [] }

/-- `get_to` of a fresh prompt. -/
def prompt.from_json (j : json) : Except json_exception prompt := prompt.get_to j {}

/-- What the decoder tells apart. -/
inductive incoming_message where
  | request (value : request)
  | notification (value : notification)
  | response (value : response)

end SynapseMcp
