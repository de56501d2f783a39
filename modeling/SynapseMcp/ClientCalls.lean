/-
`client.hpp`: the calls a client makes by name, and what a server makes of them.

`client::initialize`, `call_tool` and the others are `send_request` with a method and parameters of
the client's own making. The server takes the parameters apart again, with checks of its own.
The two agree (`client_calls_served`): each request is accepted as it was sent, and the
handler it runs is the one the call means, with the arguments of the call, under conditions
that do not mention the parameters any more (`client_call.means`).
-/
import SynapseMcp.Client
import SynapseMcp.ApplicationGate
import SynapseMcp.MessageCodec
import SynapseMcp.OrderedMap
import Mathlib.Data.String.Basic

set_option autoImplicit false

namespace SynapseMcp

open OrderedMap

/-- A `std::map<std::string, std::string>`: every key once, in order. -/
abbrev string_map := { m : List (String × String) // Ordered m }

namespace client

/-- What the client says of itself. -/
def initialize_params : json :=
  json.object_of
    [("protocolVersion", .string "2024-11-05"),
      ("capabilities", .object []),
      ("clientInfo", json.object_of
        [("name", .string "synapse-mcp-client"), ("version", .string "0.1.0")])]

/-- The name of what is called, and its arguments. -/
def named (name : String) (arguments : json) : json :=
  json.object_of [("name", .string name), ("arguments", arguments)]

/-- The loop of `get_prompt`: `args[k] = v`. -/
def prompt_arguments (arguments : List (String × String)) : json :=
  arguments.foldl (fun args entry => args.set entry.1 (.string entry.2)) (.object [])

/-- `initialize`. -/
def initialize_ (c : client) : client × request :=
  c.send_request "initialize" (some initialize_params)

/-- `call_tool`, with the arguments as the caller gives them. -/
def call_tool (c : client) (name : String) (arguments : json) : client × request :=
  c.send_request "tools/call" (some (named name arguments))

/-- `list_tools`, without parameters. -/
def list_tools (c : client) : client × request := c.send_request "tools/list" none

/-- `list_resources`. -/
def list_resources (c : client) : client × request := c.send_request "resources/list" none

/-- `read_resource`. -/
def read_resource (c : client) (uri : String) : client × request :=
  c.send_request "resources/read" (some (json.object_of [("uri", .string uri)]))

/-- `list_prompts`. -/
def list_prompts (c : client) : client × request := c.send_request "prompts/list" none

/-- `get_prompt`; its arguments are strings. -/
def get_prompt (c : client) (name : String) (arguments : string_map) : client × request :=
  c.send_request "prompts/get" (some (named name (prompt_arguments arguments.1)))

end client

/-- The calls by name, with what the caller passes. -/
inductive client_call where
  | initialize_
  | call_tool (name : String) (arguments : json)
  | list_tools
  | list_resources
  | read_resource (uri : String)
  | list_prompts
  | get_prompt (name : String) (arguments : string_map)

/-- The client after the call, and the request it sends. -/
def client_call.made (k : client_call) (c : client) : client × request :=
  match k with
  | .initialize_ => c.initialize_
  | .call_tool name arguments => c.call_tool name arguments
  | .list_tools => c.list_tools
  | .list_resources => c.list_resources
  | .read_resource uri => c.read_resource uri
  | .list_prompts => c.list_prompts
  | .get_prompt name arguments => c.get_prompt name arguments

/-- The method the request names. -/
def client_call.method : client_call → String
  | .initialize_ => "initialize"
  | .call_tool _ _ => "tools/call"
  | .list_tools => "tools/list"
  | .list_resources => "resources/list"
  | .read_resource _ => "resources/read"
  | .list_prompts => "prompts/list"
  | .get_prompt _ _ => "prompts/get"

/-! ## What a call means to a server

Nothing here speaks of parameters. A tool that is called by name with some arguments runs if
there is such a tool, and the hook, the bucket and the schema of the server consent; a prompt or
a resource likewise. These are the server's own conditions, on what the caller has passed. -/

/-- The call of a tool runs its handler: with a tool of that name, arguments that are an
object, and the consent of the hook, the bucket and the schema. -/
structure tool_meant (s : server) (env : application_answers) (p : server_policy) (name : String)
    (arguments : json) : Prop where
  object : arguments.is_object = true
  registered : ∃ descriptor, s.tools_.lookup name = some descriptor
  allowed : ∀ allow_tool, env.allow_tool = some allow_tool → allow_tool name = .returned true
  granted : ∃ now, env.now = .returned now ∧ (p.consume now).2 = true
  accepted : representable arguments = true ∧ env.evaluate name arguments = .nothing

/-- The call of a prompt: with a prompt of that name, which declares every argument that is
there and requires none that is missing. -/
structure prompt_meant (s : server) (name : String) (arguments : string_map) : Prop where
  registered : ∃ descriptor, s.prompts_.lookup name = some descriptor ∧
    (∀ value ∈ arguments.1, ∃ argument ∈ descriptor.arguments, argument.name = value.1) ∧
    ∀ argument ∈ descriptor.arguments, argument.required = true →
      ∃ value ∈ arguments.1, value.1 = argument.name

/-- The read of a resource: under a valid URI that is registered. -/
structure resource_meant (s : server) (uri : String) : Prop where
  valid : valid_uri_text uri = true
  registered : ∃ descriptor, s.resources_.lookup uri = some descriptor

/-- The handlers a call is to run. -/
def client_call.means (k : client_call) (s : server) (env : application_answers)
    (p : server_policy) (made : application_call) : Prop :=
  match k with
  | .call_tool name arguments => made = .tool name arguments ∧ tool_meant s env p name arguments
  | .get_prompt name arguments => made = .prompt name arguments.1 ∧ prompt_meant s name arguments
  | .read_resource uri => made = .resource uri ∧ resource_meant s uri
  | .initialize_ | .list_tools | .list_resources | .list_prompts => False

/-! ## Parameters, put together and taken apart

An object is a list of members in the order of their keys, and a `std::map` is ordered too, so
what the loop of `get_prompt` builds is the map itself, member by member. The two-member objects
of the other calls are looked up by key. With that each check of the server on the parameters is
one on what was passed. -/

section Parameters

variable {s : server} {env : application_answers} {p : server_policy} {req : request}
  {name : String} {arguments : json}

/-- A key behind all the others goes to the end. -/
theorem insert_member_last {members : List (String × json)} {key : String} {value : json}
    (h : ∀ entry ∈ members, entry.1 < key) :
    json.insert_member key value members = members ++ [(key, value)] := by
  induction members with
  | nil => rfl
  | cons entry rest ih =>
      obtain ⟨k, v⟩ := entry
      have hlt : k < key := h (k, v) List.mem_cons_self
      rw [json.insert_member, if_neg (not_lt_of_gt hlt), if_neg (ne_of_gt hlt),
        ih fun entry hentry => h entry (List.mem_cons_of_mem _ hentry)]
      rfl

/-- The loop that builds the arguments of a prompt keeps the entries in order, so the object it
makes is the map itself. -/
theorem prompt_arguments_members (arguments : string_map) :
    client.prompt_arguments arguments.1 =
      .object (arguments.1.map fun entry => (entry.1, .string entry.2)) := by
  obtain ⟨entries, hordered⟩ := arguments
  -- from the left, behind what is there already
  have hfold : ∀ (rest done : List (String × String)), Ordered (done ++ rest) →
      rest.foldl (fun args entry => args.set entry.1 (.string entry.2))
        (json.object (done.map fun entry => (entry.1, json.string entry.2))) =
        .object ((done ++ rest).map fun entry => (entry.1, .string entry.2)) := by
    intro rest
    induction rest with
    | nil =>
        intro done _
        rw [List.append_nil]
        rfl
    | cons entry rest ih =>
        intro done hdone
        have hbehind : ∀ before ∈ done.map (fun entry => (entry.1, json.string entry.2)),
            before.1 < entry.1 := by
          intro before hbefore
          obtain ⟨e, he, rfl⟩ := List.mem_map.mp hbefore
          exact (List.pairwise_append.mp hdone).2.2 e he entry List.mem_cons_self
        have hnext := ih (done ++ [entry]) (by rwa [List.append_assoc])
        rw [List.append_assoc, List.map_append] at hnext
        rw [List.foldl_cons, json.set, insert_member_last hbehind]
        exact hnext
  exact hfold entries [] hordered

/-- A name and arguments are read back as they were put in; arguments have to be an object. -/
theorem named_call_iff {name' : String} {arguments' : json} :
    named_call (some (client.named name arguments)) name' arguments' ↔
      name' = name ∧ arguments' = arguments ∧ arguments.is_object = true := by
  have hname : (client.named name arguments).find? "name" = some (.string name) := by
    rw [client.named, json.find?_object_of_two, if_neg (by decide), if_pos rfl]
  have harguments : (client.named name arguments).find? "arguments" = some arguments := by
    rw [client.named, json.find?_object_of_two, if_pos rfl]
  constructor
  · rintro ⟨p, hp, -, hname', hrest⟩
    obtain rfl := Option.some.inj hp
    rcases hrest with ⟨harguments', hobject⟩ | ⟨hnone, -⟩
    · rw [hname] at hname'
      rw [harguments] at harguments'
      cases hname'
      cases harguments'
      exact ⟨rfl, rfl, hobject⟩
    · rw [harguments] at hnone
      cases hnone
  · rintro ⟨rfl, rfl, hobject⟩
    exact ⟨_, rfl, rfl, hname, .inl ⟨harguments, hobject⟩⟩

/-- The server runs the tool under exactly the conditions the call means. -/
theorem call_tool_admitted (hmethod : req.method = "tools/call")
    (hparams : req.params = some (client.named name arguments)) {name' : String}
    {arguments' : json} :
    tool_admitted s env p req name' arguments' ↔
      (name' = name ∧ arguments' = arguments) ∧ tool_meant s env p name arguments := by
  constructor
  · rintro ⟨⟨now, hmetered, hgranted⟩, haccepted⟩
    have hcall := hmetered.params
    rw [hparams] at hcall
    obtain ⟨rfl, rfl, hobject⟩ := named_call_iff.mp hcall
    exact ⟨⟨rfl, rfl⟩,
      ⟨hobject, hmetered.registered, hmetered.allowed, ⟨now, hmetered.now, hgranted⟩, haccepted⟩⟩
  · rintro ⟨⟨rfl, rfl⟩, h⟩
    obtain ⟨now, hnow, hgranted⟩ := h.granted
    have hcall : named_call req.params name' arguments' := by
      rw [hparams]
      exact named_call_iff.mpr ⟨rfl, rfl, h.object⟩
    exact ⟨⟨now, ⟨hmethod, hcall, h.registered, h.allowed, hnow⟩, hgranted⟩, h.accepted⟩

/-- The same for a prompt. The strings of the map come back as they were: `json.string` is
injective. -/
theorem get_prompt_admitted {arguments : string_map} (hmethod : req.method = "prompts/get")
    (hparams : req.params = some (client.named name (client.prompt_arguments arguments.1)))
    {name' : String} {values : List (String × String)} :
    prompt_admitted s req name' values ↔
      (name' = name ∧ values = arguments.1) ∧ prompt_meant s name arguments := by
  have hmembers := prompt_arguments_members arguments
  constructor
  · rintro ⟨-, arguments', descriptor, hcall, hlookup, hvalues, hdeclared, hrequired⟩
    rw [hparams] at hcall
    obtain ⟨rfl, rfl, -⟩ := named_call_iff.mp hcall
    rw [hmembers] at hvalues
    -- the server has read the entries the loop wrote
    have hsame : values = arguments.1 := by
      refine List.map_injective_iff.mpr ?_ hvalues.symm
      rintro ⟨key, value⟩ ⟨key', value'⟩ heq
      cases heq
      rfl
    subst hsame
    exact ⟨⟨rfl, rfl⟩, ⟨descriptor, hlookup, hdeclared, hrequired⟩⟩
  · rintro ⟨⟨rfl, rfl⟩, ⟨descriptor, hlookup, hdeclared, hrequired⟩⟩
    refine ⟨hmethod, client.prompt_arguments arguments.1, descriptor, ?_, hlookup, ?_, hdeclared,
      hrequired⟩
    · rw [hparams]
      exact named_call_iff.mpr ⟨rfl, rfl, by rw [hmembers]; rfl⟩
    · rw [hmembers]
      rfl

/-- The same for a resource: what is admitted under the parameters the client sends is the URI
that was asked for. -/
theorem read_resource_admitted {uri : String} (hmethod : req.method = "resources/read")
    (hparams : req.params = some (json.object_of [("uri", .string uri)])) {uri' : String} :
    resource_admitted s req uri' ↔ uri' = uri ∧ resource_meant s uri := by
  have huri : (json.object_of [("uri", .string uri)]).find? "uri" = some (.string uri) := by
    rw [json.find?_object_of_one, if_pos rfl]
  constructor
  · rintro ⟨-, ⟨_, hp, hfind⟩, hvalid, hregistered⟩
    rw [hparams] at hp
    cases hp
    rw [huri] at hfind
    cases hfind
    exact ⟨rfl, hvalid, hregistered⟩
  · rintro ⟨rfl, hvalid, hregistered⟩
    exact ⟨hmethod, ⟨_, hparams, huri⟩, hvalid, hregistered⟩

end Parameters

/-! ## Every call is served as it is meant

The request itself is read back first: it has the members the encoder writes, and its ID is the
integer the client drew. Then the call is compared with each thing the server may do; the method
settles which it is. -/

/-- The members of a request say what it says. -/
theorem request.reads_own {req : request} (hversion : req.jsonrpc = "2.0") :
    reads_request req.to_json req := by
  have hfind := request.find?_to_json req
  refine ⟨hversion, ?_, ?_, ?_⟩
  · rw [hfind]
    simp
  · rw [hfind]
    simp
  · rw [hfind]
    cases req.params <;> simp

/-- A request with well-formed members is read as itself: the version is the one that is asked
for, the ID is an integer and the parameters, where there are any, are an object. -/
theorem request.decode_own {req : request} (hversion : req.jsonrpc = "2.0") {id : Int64}
    (hid : req.id = .int64 id)
    (hparams : ∀ value, req.params = some value → value.is_object = true) :
    decode_message req.to_json = .ok (.request req) := by
  have hfind := request.find?_to_json req
  have hreads := request.reads_own hversion
  refine request.reencode ⟨?_, ⟨_, hreads.method⟩, ⟨_, hreads.id, ?_⟩, ?_, ?_, ?_⟩ hreads
  · rw [hfind, hversion]
    simp
  · rw [hid]
    exact .inr rfl
  · rw [hfind]
    simp
  · rw [hfind]
    simp
  · intro value hvalue
    exact .inl (hparams value (hreads.params.trans hvalue))

section Calls

variable (k : client_call) (c : client) (s : server) (env : application_answers)
  (p : server_policy)

/-- Every call sends the version and the next ID. -/
theorem made_request : (k.made c).2.jsonrpc = "2.0" ∧ (k.made c).2.id = .int64 c.next_id_ := by
  cases k <;> exact ⟨rfl, rfl⟩

/-- And the method of its name. -/
theorem made_method : (k.made c).2.method = k.method := by
  cases k <;> rfl

/-- Parameters, where there are any, are an object. -/
theorem made_params : ∀ value, (k.made c).2.params = some value → value.is_object = true := by
  intro value hvalue
  cases k <;> cases hvalue <;> rfl

/-- The conditions the server checks are those the call means. -/
theorem handled_means {calls : List application_call}
    (h : handled_request s env p (k.made c).2 calls) (made : application_call) :
    made ∈ calls ↔ k.means s env p made := by
  -- a request of another method runs no handler
  have hother : k.method ≠ "tools/call" → k.method ≠ "prompts/get" →
      k.method ≠ "resources/read" → calls = [] := by
    rw [← made_method k c]
    intro htool hprompt hresource
    cases h with
    | tool name arguments h => exact absurd h.method htool
    | prompt name values h => exact absurd h.method hprompt
    | resource uri h => exact absurd h.method hresource
    | nothing => rfl
  cases k with
  | call_tool name arguments =>
      have hiff := @call_tool_admitted s env p (client_call.made (.call_tool name arguments) c).2
        name arguments rfl rfl
      cases h with
      | tool name' arguments' h =>
          obtain ⟨⟨rfl, rfl⟩, hmeant⟩ := hiff.mp h
          rw [List.mem_singleton]
          exact ⟨fun hmade => ⟨hmade, hmeant⟩, fun hmade => hmade.1⟩
      | prompt name' values h =>
          exact absurd (show "tools/call" = "prompts/get" from h.method) (by decide)
      | resource uri h =>
          exact absurd (show "tools/call" = "resources/read" from h.method) (by decide)
      | nothing htool =>
          refine ⟨fun hmade => absurd hmade List.not_mem_nil, fun hmade => ?_⟩
          exact absurd (hiff.mpr ⟨⟨rfl, rfl⟩, hmade.2⟩) (htool name arguments)
  | get_prompt name arguments =>
      have hiff := @get_prompt_admitted s (client_call.made (.get_prompt name arguments) c).2
        name arguments rfl rfl
      cases h with
      | tool name' arguments' h =>
          exact absurd (show "prompts/get" = "tools/call" from h.method) (by decide)
      | prompt name' values h =>
          obtain ⟨⟨rfl, rfl⟩, hmeant⟩ := hiff.mp h
          rw [List.mem_singleton]
          exact ⟨fun hmade => ⟨hmade, hmeant⟩, fun hmade => hmade.1⟩
      | resource uri h =>
          exact absurd (show "prompts/get" = "resources/read" from h.method) (by decide)
      | nothing _ hprompt =>
          refine ⟨fun hmade => absurd hmade List.not_mem_nil, fun hmade => ?_⟩
          exact absurd (hiff.mpr ⟨⟨rfl, rfl⟩, hmade.2⟩) (hprompt name arguments.1)
  | read_resource uri =>
      have hiff := @read_resource_admitted s (client_call.made (.read_resource uri) c).2
        uri rfl rfl
      cases h with
      | tool name' arguments' h =>
          exact absurd (show "resources/read" = "tools/call" from h.method) (by decide)
      | prompt name' values h =>
          exact absurd (show "resources/read" = "prompts/get" from h.method) (by decide)
      | resource uri' h =>
          obtain ⟨rfl, hmeant⟩ := hiff.mp h
          rw [List.mem_singleton]
          exact ⟨fun hmade => ⟨hmade, hmeant⟩, fun hmade => hmade.1⟩
      | nothing _ _ hresource =>
          refine ⟨fun hmade => absurd hmade List.not_mem_nil, fun hmade => ?_⟩
          exact absurd (hiff.mpr ⟨rfl, hmade.2⟩) (hresource uri)
  | initialize_ | list_tools | list_resources | list_prompts =>
      rw [hother (by decide) (by decide) (by decide)]
      exact ⟨fun hmade => absurd hmade List.not_mem_nil, False.elim⟩

/-- Whatever the client calls by name, whatever it passes and whatever the server is: the
request is accepted as it was sent, `initialize` passes the checks of the handshake, and
`application()` runs the handler the call means, with what the caller passed, or none. -/
theorem client_calls_served :
    decode_message (k.made c).2.to_json = .ok (.request (k.made c).2) ∧
      (k = .initialize_ → server.initialize_params_ok (k.made c).2.params = true) ∧
      ∀ made, made ∈ handlers (application s env (k.made c).2 ⟨p, []⟩).1.calls ↔
        k.means s env p made := by
  obtain ⟨hversion, hid⟩ := made_request k c
  refine ⟨request.decode_own hversion hid (made_params k c), ?_, ?_⟩
  · rintro rfl
    show server.initialize_params_ok (some client.initialize_params) = true
    decide
  · exact handled_means k c s env p (application_run s env p (k.made c).2).2

end Calls

end SynapseMcp
