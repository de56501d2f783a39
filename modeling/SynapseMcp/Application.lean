/-
`server::application`: the request a worker runs, with the callbacks it makes.

A request runs against the registries of the server, the token bucket, and answers of
its environment: what each hook and handler returns or throws, what the clock reads,
and what the evaluator of a tool's schema makes of the arguments. The state keeps the
bucket, which outlives the request and any exception, and the callbacks made so far.
A hook may answer differently every time; `filter_output` is asked with the number of
callbacks made before.

`app` is a computation that may end in an exception of the application. Its state is
not undone.
-/
import SynapseMcp.ResourceUri
import SynapseMcp.SchemaValidator
import SynapseMcp.Server
import SynapseMcp.ServerPolicy

set_option autoImplicit false

namespace SynapseMcp

/-! ## Callbacks

Every hook and handler is an answer in `application_answers`, and every call of one is put on
the list. `filter_output` is looked at only after the text has passed `valid_text`, so it is
called only then. What a callback throws ends the request, with what was called and the bucket
kept as they are. -/

/-- What a tool returns. -/
structure tool_result where
  text : List UInt8

/-- What a resource returns. -/
structure resource_result where
  text : List UInt8

/-- An `enum class` may hold a value of neither enumerator. -/
inductive prompt_role where
  | user
  | assistant
  | other (value : Int)

/-- One message of a prompt. -/
structure prompt_message where
  role : prompt_role
  text : List UInt8

/-- What a prompt returns: its messages, and a description if it likes. -/
structure prompt_result where
  messages : List prompt_message
  description : Option (List UInt8)

/-- What one request meets outside the SDK. -/
structure application_answers where
  allow_tool : Option (String → call_outcome Bool)
  now : call_outcome Int64
  evaluate : String → json → evaluation
  tool : String → json → call_outcome (Except handler_error tool_result)
  prompt : String → List (String × String) → call_outcome (Except handler_error prompt_result)
  resource : String → call_outcome (Except handler_error resource_result)
  filter_output :
    Option (Nat → String → List UInt8 → call_outcome (Except handler_error (List UInt8)))

/-- A call that was made, with what was handed over. -/
inductive application_call where
  | allow_tool (name : String)
  | now
  | tool (name : String) (arguments : json)
  | prompt (name : String) (values : List (String × String))
  | resource (uri : String)
  | filter_output (operation : String) (text : List UInt8)

/-- The callbacks that are handlers of a registration. -/
def application_call.is_handler : application_call → Bool
  | .tool _ _ | .prompt _ _ | .resource _ => true
  | .allow_tool _ | .now | .filter_output _ _ => false

/-- What a request changes: the bucket, and the calls made so far. -/
structure application_state where
  policy_ : server_policy
  calls : List application_call

/-- A computation over that state, which returns or is ended by an exception. -/
def app (α : Type) : Type := application_state → application_state × call_outcome α

instance : Monad app where
  pure a s := (s, .returned a)
  bind x f s :=
    match x s with
    | (s, .returned a) => f a s
    | (s, .threw) => (s, .threw)

namespace app

/-- One callback, with its answer. -/
def call {α : Type} (made : application_call) (answer : call_outcome α) : app α := fun s =>
  ({ s with calls := s.calls ++ [made] }, answer)

/-- `policy_.allow`. -/
def allow (env : application_answers) (name : String) : app Bool :=
  match env.allow_tool with
  | none => pure true
  | some allow_tool => call (.allow_tool name) (allow_tool name)

/-- `policy_.consume`. -/
def consume (env : application_answers) : app Bool := do
  let now ← call .now env.now
  fun s => ({ s with policy_ := (s.policy_.consume now).1 }, .returned (s.policy_.consume now).2)

/-- `policy_.filter`. -/
def filter (env : application_answers) (operation : String) (text : List UInt8) :
    app (Option (List UInt8)) := fun s =>
  match env.filter_output with
  | none => (s, server_policy.filter none operation text)
  | some filter_output =>
      (if valid_text text then { s with calls := s.calls ++ [.filter_output operation text] }
        else s,
        server_policy.filter (some (filter_output s.calls.length)) operation text)

end app

/-! ## Replies

The texts and codes of the errors stand here as the server sends them. A failure of the
application has one text for all its causes, so that a reply says no more than which method it
was. -/

/-- A failure with a stable reason. -/
def reasoned_failure (id : json_rpc_id) (code : Int32) (message reason : String) : response where
  id := id
  result := none
  err := some { code, message, data := some (json.object_of [("reason", .string reason)]) }

/-- `Invalid params`, with the server's own text. -/
def invalid_params (req : request) (message : String) : response :=
  failure req.id .invalid_params message

/-- `Internal error`, for a prompt or a resource that fails. -/
def internal_error (req : request) : response := failure req.id .internal_error "Internal error"

/-- A result. -/
def reply_with (req : request) (result : json) : response where
  id := req.id
  result := some result
  err := none

/-- Text that passed the filter, as a JSON string. -/
def text_value (text : List UInt8) : json := .string ((utf8 text).getD "")

/-- A text as the content of a reply. -/
def text_content (text : List UInt8) : json :=
  json.object_of [("type", .string "text"), ("text", text_value text)]

/-- A tool's result, with `isError` when the tool or its arguments failed. -/
def tool_reply (req : request) (text : List UInt8) (is_error : Bool) : response :=
  let result := json.object_of [("content", .array [text_content text])]
  reply_with req (if is_error then result.set "isError" (.boolean true) else result)

/-- The bytes of one of the server's own texts. -/
def bytes_of (text : String) : List UInt8 := text.toByteArray.data.toList

/-! ## Methods

Each method goes through its checks in the order of the source, and the first that fails decides
the reply: parameters, registration, and for a tool the hook, the token and the schema. A
handler is called when all of them have passed, and what it returns goes through the filter. -/

/-- The parameters of a list: absent, or an object whose cursor is a string. -/
def list_params_ok (params : Option json) : Bool :=
  params.all fun p => p.is_object && (p.find? "cursor").all json.is_string

/-- The four lists: the descriptors in the order of their keys. -/
def list_reply (req : request) (key invalid : String) (items : List json) : response :=
  if list_params_ok req.params then reply_with req (json.object_of [(key, .array items)])
  else invalid_params req invalid

/-- `tools/list`. -/
def tools_list (s : server) (req : request) : response :=
  list_reply req "tools" "Invalid tool parameters" (s.tools_.map (·.2.to_json))

/-- `prompts/list`. -/
def prompts_list (s : server) (req : request) : response :=
  list_reply req "prompts" "Invalid prompt parameters" (s.prompts_.map (·.2.to_json))

/-- `resources/templates/list`, which is always empty. -/
def templates_list (req : request) : response :=
  list_reply req "resourceTemplates" "Invalid resource parameters" []

/-- `resources/list`. -/
def resources_list (s : server) (req : request) : response :=
  list_reply req "resources" "Invalid resource parameters" (s.resources_.map (·.2.to_json))

/-- The name and the arguments of a call: an object with a string name and, if there
are arguments, an object of them. -/
def named_params (params : Option json) : Option (String × json) :=
  match params with
  | some (.object members) =>
      match members.lookup "name" with
      | some (.string name) =>
          match members.lookup "arguments" with
          | none => some (name, .object [])
          | some (.object arguments) => some (name, .object arguments)
          | some _ => none
      | _ => none
  | _ => none

/-- After the schema accepted the arguments. -/
def tool_handled (env : application_answers) (req : request) (name : String) (arguments : json) :
    app response := do
  let result ← app.call (.tool name arguments) (env.tool name arguments)
  let (text, is_error) := match result with
    | .ok result => (result.text, false)
    | .error err => (err.public_message, true)
  match ← app.filter env req.method text with
  | none => pure (tool_failure req.id)
  | some filtered => pure (tool_reply req filtered is_error)

/-- After the schema refused them. -/
def tool_mismatch (env : application_answers) (req : request)
    (kind : validation_failure_kind) : app response :=
  if kind ≠ .instance_mismatch then pure (internal_error req)
  else do
    match ← app.filter env req.method (bytes_of "Tool arguments do not match schema") with
    | none => pure (tool_failure req.id)
    | some text => pure (tool_reply req text true)

/-- After the token was taken. -/
def tool_granted (env : application_answers) (req : request) (name : String) (arguments : json) :
    app response :=
  match validate (env.evaluate name) arguments with
  | .error kind => tool_mismatch env req kind
  | .ok () => tool_handled env req name arguments

/-- `tools/call`: the name must be registered, the hook must allow it and a token must be left
before the arguments are looked at. -/
def tools_call (s : server) (env : application_answers) (req : request) : app response :=
  match named_params req.params with
  | none => pure (invalid_params req "Invalid tool parameters")
  | some (name, arguments) =>
      match s.tools_.lookup name with
      | none => pure (invalid_params req "Unknown tool")
      | some _ => do
          if !(← app.allow env name) then
            pure (reasoned_failure req.id (-32050) "Access denied" "access_denied")
          else if !(← app.consume env) then
            pure (reasoned_failure req.id (-32051) "Rate limited" "rate_limited")
          else tool_granted env req name arguments

/-- The argument loop of `prompts/get`: every value a string under a declared name. -/
def prompt_values (declared : List prompt_argument) :
    List (String × json) → Option (List (String × String))
  | [] => some []
  | (key, .string value) :: rest =>
      if declared.any (·.name = key) then
        (prompt_values declared rest).map ((key, value) :: ·)
      else none
  | _ :: _ => none

/-- The second loop: no required argument is missing. -/
def required_present (declared : List prompt_argument) (values : List (String × String)) : Bool :=
  declared.all fun argument => !argument.required || values.any (·.1 = argument.name)

/-- The role as it is written; a value of neither enumerator has no text. -/
def prompt_role.wire : prompt_role → Option String
  | .user => some "user"
  | .assistant => some "assistant"
  | .other _ => none

/-- The messages of a prompt's result, up to the first that is refused. -/
def prompt_messages (env : application_answers) (req : request) :
    List prompt_message → app (Option (List json))
  | [] => pure (some [])
  | message :: rest =>
      match message.role.wire with
      | none => pure none
      | some role => do
          match ← app.filter env req.method message.text with
          | none => pure none
          | some text =>
              match ← prompt_messages env req rest with
              | none => pure none
              | some messages =>
                  pure (some (json.object_of
                    [("role", .string role), ("content", text_content text)] :: messages))

/-- After the prompt's handler returned. -/
def prompt_handled (env : application_answers) (req : request) (result : prompt_result) :
    app response := do
  match ← prompt_messages env req result.messages with
  | none => pure (internal_error req)
  | some messages =>
      let reply := json.object_of [("messages", .array messages)]
      match result.description with
      | none => pure (reply_with req reply)
      | some text =>
          match ← app.filter env req.method text with
          | none => pure (internal_error req)
          | some description =>
              pure (reply_with req (reply.set "description" (text_value description)))

/-- The members of an object. -/
def json.members : json → List (String × json)
  | .object members => members
  | _ => []

/-- `prompts/get`: the arguments are checked in two loops, first those that came and then those
that must. -/
def prompts_get (s : server) (env : application_answers) (req : request) : app response :=
  match named_params req.params with
  | none => pure (invalid_params req "Invalid prompt parameters")
  | some (name, arguments) =>
      match s.prompts_.lookup name with
      | none => pure (invalid_params req "Unknown prompt")
      | some descriptor =>
          match prompt_values descriptor.arguments arguments.members with
          | none => pure (invalid_params req "Invalid prompt arguments")
          | some values =>
              if !required_present descriptor.arguments values then
                pure (invalid_params req "Invalid prompt arguments")
              else do
                match ← app.call (.prompt name values) (env.prompt name values) with
                | .error _ => pure (internal_error req)
                | .ok result => prompt_handled env req result

/-- The URI of a read: a string that passes the check. -/
def read_params (params : Option json) : Option String :=
  match params with
  | some (.object members) =>
      match members.lookup "uri" with
      | some (.string uri) => if valid_uri_text uri then some uri else none
      | _ => none
  | _ => none

/-- `resources/read`. -/
def resources_read (s : server) (env : application_answers) (req : request) : app response :=
  match read_params req.params with
  | none => pure (invalid_params req "Invalid resource parameters")
  | some uri =>
      -- a URI that is well formed need not be registered
      match s.resources_.lookup uri with
      | none =>
          pure
            { id := req.id, result := none
              err := some { code := -32002, message := "Resource not found", data := none } }
      | some descriptor => do
          match ← app.call (.resource uri) (env.resource uri) with
          | .error _ => pure (internal_error req)
          | .ok result =>
              match ← app.filter env req.method result.text with
              | none => pure (internal_error req)
              | some text =>
                  let content := json.object_of
                    [("uri", .string descriptor.uri), ("text", text_value text)]
                  let content := match descriptor.mimeType with
                    | some mimeType => content.set "mimeType" (.string mimeType)
                    | none => content
                  pure (reply_with req (json.object_of [("contents", .array [content])]))

/-- `server::application`: the method, by its name. -/
def application (s : server) (env : application_answers) (req : request) : app response :=
  if req.method = "tools/list" then pure (tools_list s req)
  else if req.method = "tools/call" then tools_call s env req
  else if req.method = "prompts/list" then pure (prompts_list s req)
  else if req.method = "prompts/get" then prompts_get s env req
  else if req.method = "resources/templates/list" then pure (templates_list req)
  else if req.method = "resources/list" then pure (resources_list s req)
  else if req.method = "resources/read" then resources_read s env req
  else pure (failure req.id .method_not_found "Method not found")

end SynapseMcp
