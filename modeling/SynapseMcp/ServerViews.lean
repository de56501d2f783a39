/-
What a session sees of the registries: the capabilities `initialize` advertises, the
lists, and what a call, a `get` or a `read` finds.

The registries are written under the mutex while the server is being configured, and
read without it by the worker. Nothing writes them once `start()` is entered, so all
views of a session are views of one registry. The three kinds of registration differ in
their names and tables only; `view` says which of them is meant.
-/
import SynapseMcp.ApplicationGate
import SynapseMcp.MessageCodec
import SynapseMcp.ServerStart

set_option autoImplicit false

namespace SynapseMcp

open Transition OrderedMap

/-! ## The three kinds

A view is a table and the names under which the protocol shows it: the capability, the list and
its member, the lookup, and what each refuses. With these as functions of the view, a fact about
the three kinds is stated and proved once, and read off for each. -/

inductive view where
  | tools
  | prompts
  | resources
  deriving DecidableEq

namespace view

/-- Its capability, and the member of its list that holds the descriptors. -/
def key : view → String
  | tools => "tools"
  | prompts => "prompts"
  | resources => "resources"

/-- The method that lists it. -/
def list_method : view → String
  | tools => "tools/list"
  | prompts => "prompts/list"
  | resources => "resources/list"

/-- The method that looks one up. -/
def find_method : view → String
  | tools => "tools/call"
  | prompts => "prompts/get"
  | resources => "resources/read"

/-- The member a descriptor, and a lookup, names it by. -/
def id_key : view → String
  | tools | prompts => "name"
  | resources => "uri"

/-- What the lists refuse their parameters with, and a lookup too. -/
def invalid : view → String
  | tools => "Invalid tool parameters"
  | prompts => "Invalid prompt parameters"
  | resources => "Invalid resource parameters"

/-- What a lookup of an identity that is not registered answers. -/
def unknown : view → String
  | tools => "Unknown tool"
  | prompts => "Unknown prompt"
  | resources => "Resource not found"

/-- The table: identities, with the descriptors as the lists show them. -/
def entries (v : view) (s : server) : List (String × json) :=
  match v with
  | tools => s.tools_.map fun entry => (entry.1, entry.2.to_json)
  | prompts => s.prompts_.map fun entry => (entry.1, entry.2.to_json)
  | resources => s.resources_.map fun entry => (entry.1, entry.2.to_json)

/-- What a list of the view holds: the descriptors, in the order of the table. -/
def items (v : view) (s : server) : List json := (v.entries s).map (·.2)

/-- What a lookup finds under an identity, as the lists show it. -/
def finds (v : view) (s : server) (id : String) : Option json :=
  match v with
  | tools => (s.tools_.lookup id).map tool.to_json
  | prompts => (s.prompts_.lookup id).map prompt.to_json
  | resources => (s.resources_.lookup id).map resource.to_json

/-- The descriptor a registration hands over, as a list would show it. -/
def descriptor (v : view) (r : registration) : Option json :=
  match v, r with
  | tools, .tool descriptor _ _ => some descriptor.tool.to_json
  | prompts, .prompt descriptor _ => some descriptor.prompt.to_json
  | resources, .resource descriptor _ =>
      some (descriptor.resource (text_of descriptor.uri)).to_json
  | _, _ => none

/-- A list request of a session got `list` for an answer. -/
def lists (v : view) (s : server) (list : json) : Prop :=
  ∃ (env : application_answers) (req : request) (st st' : application_state) (reply : response),
    req.method = v.list_method ∧ application s env req st = (st', .returned reply) ∧
      reply.result = some list

/-- Well-formed parameters of a lookup of `id`. -/
def asks (v : view) (params : Option json) (id : String) : Prop :=
  match v with
  | tools | prompts => ∃ arguments, named_call params id arguments
  | resources => ∃ p, params = some p ∧ p.find? "uri" = some (.string id)

end view

/-- Neither the parameters nor the identity was refused. -/
def response.found (v : view) (reply : response) : Prop :=
  ∀ err, reply.err = some err → err.message ≠ v.invalid ∧ err.message ≠ v.unknown

/-! ## The tables

A table has its entries under distinct keys in their order, and each entry is named by the key
it stands under. These two facts about the registries are what makes a list the same thing as
the table it is made from: every descriptor once, and an identity for each. -/

section Tables

variable {s t : server} {v : view}

/-- The entries are a matter of the registries alone, whatever else of the server has changed.
-/
theorem view.entries_congr (h : same_registries s t) : v.entries t = v.entries s := by
  cases v with
  | tools => rw [view.entries, view.entries, h.tools]
  | prompts => rw [view.entries, view.entries, h.prompts]
  | resources => rw [view.entries, view.entries, h.resources]

/-- Showing a table as descriptors keeps its keys. -/
theorem entries_keys {α : Type} (m : List (String × α)) (f : α → json) :
    (m.map fun entry => (entry.1, f entry.2)).map (·.1) = m.map (·.1) := by
  rw [List.map_map]
  rfl

/-- Every identity is listed once, since the keys of a table are distinct. -/
theorem registries_ok.ids_nodup (h : registries_ok s) (v : view) :
    ((v.entries s).map (·.1)).Nodup := by
  cases v with
  | tools =>
      rw [view.entries, entries_keys]
      exact h.tools.nodup
  | prompts =>
      rw [view.entries, entries_keys]
      exact h.prompts.nodup
  | resources =>
      rw [view.entries, entries_keys]
      exact h.resources.nodup

/-- A tool's descriptor names it. -/
theorem tool.find_name (d : tool) : d.to_json.find? "name" = some (.string d.name) := by
  rw [tool.to_json, json.find?_object_of_three]
  rfl

/-- A prompt's does, with arguments or without. -/
theorem prompt.find_name (d : prompt) : d.to_json.find? "name" = some (.string d.name) := by
  unfold prompt.to_json
  dsimp only
  split
  · rw [json.find?_object_of_two]
    rfl
  · rw [json.find?_set_of_object rfl, if_neg (by decide), json.find?_object_of_two]
    rfl

/-- A resource is named by its URI, with a media type or without. -/
theorem resource.find_uri (d : resource) : d.to_json.find? "uri" = some (.string d.uri) := by
  unfold resource.to_json
  dsimp only
  split
  · rw [json.find?_set_of_object rfl, if_neg (by decide), json.find?_object_of_three]
    rfl
  · rw [json.find?_object_of_three]
    rfl

/-- A descriptor names the identity it is listed under: `name` for a tool and a prompt, `uri`
for a resource, one case for each of the three tables. -/
theorem registries_ok.named (h : registries_ok s) {entry : String × json}
    (hmem : entry ∈ v.entries s) : entry.2.find? v.id_key = some (.string entry.1) := by
  cases v with
  | tools =>
      obtain ⟨entry', hmem', rfl⟩ := List.mem_map.mp hmem
      exact (tool.find_name _).trans (by rw [h.tool_names _ hmem'])
  | prompts =>
      obtain ⟨entry', hmem', rfl⟩ := List.mem_map.mp hmem
      exact (prompt.find_name _).trans (by rw [h.prompt_names _ hmem'])
  | resources =>
      obtain ⟨entry', hmem', rfl⟩ := List.mem_map.mp hmem
      exact (resource.find_uri _).trans (by rw [(h.uris _ hmem').1])

/-- A new entry goes to its place in the order of the keys, so a list is the old one with its
descriptor put in somewhere. -/
theorem emplace_items {α : Type} {m : List (String × α)} {key : String} (value : α)
    (f : α → json) (hnew : m.lookup key = none) :
    (((emplace key value m).map fun entry => (entry.1, f entry.2)).map (·.2)).Perm
      (f value :: (m.map fun entry => (entry.1, f entry.2)).map (·.2)) := by
  rw [List.map_map, List.map_map]
  exact (emplace_perm value (ne_of_lookup hnew)).map fun entry => f entry.2

/-- A registration that succeeds adds its descriptor to its table. -/
theorem view.items_registered {r : registration} (hr : registered s r t) (v : view) :
    (v.items t).Perm ((v.descriptor r).toList ++ v.items s) := by
  cases hr with
  | @tool descriptor hsafe hnew =>
      cases v with
      | tools => exact emplace_items descriptor.tool tool.to_json hnew
      | prompts | resources => exact .refl _
  | @resource descriptor uri hvalid huri hnew =>
      cases v with
      | resources =>
          have htext : text_of descriptor.uri = uri := by
            rw [text_of, huri]
            rfl
          rw [view.descriptor, htext]
          exact emplace_items (descriptor.resource uri) resource.to_json hnew
      | prompts | tools => exact .refl _
  | @prompt descriptor hsafe hnew harguments =>
      cases v with
      | prompts => exact emplace_items descriptor.prompt prompt.to_json hnew
      | tools | resources => exact .refl _

/-! ## What is advertised and listed

The capabilities are written when `initialize` is answered and the lists whenever they are asked
for, both from the same tables. A list that is answered shows the whole table; there are no
pages, and a cursor has only to be a string. -/

/-- The capabilities name a table when it has an entry. -/
theorem server.capabilities_contains (s : server) (v : view) :
    s.capabilities.contains v.key = true ↔ v.items s ≠ [] := by
  have hitems : ∀ {α : Type} (m : List (String × α)) (f : α → json),
      (m.map fun entry => (entry.1, f entry.2)).map (·.2) ≠ [] ↔ m.isEmpty = false := by
    intro α m f
    cases m <;> simp
  unfold server.capabilities
  cases v with
  | tools =>
      rw [view.items, view.entries, hitems]
      cases s.prompts_.isEmpty <;> cases s.resources_.isEmpty <;> cases s.tools_.isEmpty <;> decide
  | prompts =>
      rw [view.items, view.entries, hitems]
      cases s.prompts_.isEmpty <;> cases s.resources_.isEmpty <;> cases s.tools_.isEmpty <;> decide
  | resources =>
      rw [view.items, view.entries, hitems]
      cases s.prompts_.isEmpty <;> cases s.resources_.isEmpty <;> cases s.tools_.isEmpty <;> decide

/-- The result of `initialize` carries the capabilities of the server it was made from. -/
theorem initialize_result_capabilities (s : server) :
    s.initialize_result.find? "capabilities" = some s.capabilities := by
  rw [server.initialize_result, json.find?_object_of_three]
  rfl

/-- The result of `initialize`, when it has one, says what the server is. -/
theorem server.initialize_session_result {s : server} {req : request} {result : json}
    (h : (s.initialize_session req).2.result = some result) : result = s.initialize_result := by
  unfold server.initialize_session at h
  split at h
  · cases h
  split at h
  · cases h
  exact (Option.some.inj h).symm

/-- A list request is answered by `list_reply` with the entries of its view, and reaches no
callback. -/
theorem application_list {env : application_answers} {req : request}
    (h : req.method = v.list_method) :
    application s env req = pure (list_reply req v.key v.invalid (v.items s)) := by
  have hitems : ∀ {α : Type} (m : List (String × α)) (f : α → json),
      m.map (fun entry => f entry.2) = (m.map fun entry => (entry.1, f entry.2)).map (·.2) := by
    intro α m f
    rw [List.map_map]
    rfl
  cases v with
  | tools =>
      change req.method = "tools/list" at h
      rw [application, if_pos h, tools_list, hitems]
      rfl
  | prompts =>
      change req.method = "prompts/list" at h
      rw [application, if_neg (by rw [h]; decide), if_neg (by rw [h]; decide), if_pos h,
        prompts_list, hitems]
      rfl
  | resources =>
      change req.method = "resources/list" at h
      rw [application, if_neg (by rw [h]; decide), if_neg (by rw [h]; decide),
        if_neg (by rw [h]; decide), if_neg (by rw [h]; decide), if_neg (by rw [h]; decide),
        if_pos h, resources_list, hitems]
      rfl

/-- A list that is answered shows the whole table, entry by entry and in its order; there is no
paging, and nothing in the request narrows it. -/
theorem view.lists_eq {list : json} (h : v.lists s list) :
    list = json.object_of [(v.key, .array (v.items s))] := by
  obtain ⟨env, req, st, st', reply, hmethod, hrun, hresult⟩ := h
  rw [application_list hmethod] at hrun
  have hreply : list_reply req v.key v.invalid (v.items s) = reply := by
    have houtcome := congrArg Prod.snd hrun
    exact call_outcome.returned.inj houtcome
  rw [← hreply, list_reply] at hresult
  split at hresult
  · exact (Option.some.inj hresult).symm
  · cases hresult

end Tables

/-! ## What is found

The two errors that mean "not found" are given before any callback is reached. So whatever the
hooks, the bucket, the schema, the handler and the filter then do, the reply is neither of them:
that goes through the computation of each request by a rule for every way it is put together. -/

/-- Every reply the computation returns meets `P`. -/
def app.answers (P : response → Prop) (x : app response) : Prop :=
  ∀ st st' reply, x st = (st', .returned reply) → P reply

section Found

variable {α : Type} {P : response → Prop} {s : server} {v : view}
variable {env : application_answers} {req : request}

/-- A reply that meets the condition, given at once. -/
theorem app.answers_pure {reply : response} (h : P reply) :
    app.answers P (pure reply : app response) := by
  intro st st' reply' hrun
  have houtcome : call_outcome.returned reply = .returned reply' := congrArg Prod.snd hrun
  cases houtcome
  exact h

/-- If every continuation meets the condition, so does the whole; what comes first may throw,
and then there is no reply. -/
theorem app.answers_bind {x : app α} {f : α → app response} (h : ∀ a, (f a).answers P) :
    (x >>= f).answers P := by
  intro st st' reply hrun
  rw [app.bind_run] at hrun
  cases hx : x st with
  | mk st'' outcome =>
      rw [hx] at hrun
      cases outcome with
      | returned a => exact h a st'' st' reply hrun
      | threw => cases hrun

/-- A reply with a result was not refused. -/
theorem found_result {reply : response} (h : reply.err = none) : reply.found v := by
  intro err herr
  rw [h] at herr
  cases herr

/-- Nor was one whose error is another. -/
theorem found_error {reply : response} {message : String}
    (h : reply.err.map (·.message) = some message) (hinvalid : message ≠ v.invalid)
    (hunknown : message ≠ v.unknown) : reply.found v := by
  intro err herr
  rw [herr] at h
  cases h
  exact ⟨hinvalid, hunknown⟩

/-- An internal error is neither of the two. -/
theorem found_internal (req : request) (v : view) : (internal_error req).found v := by
  refine found_error rfl ?_ ?_ <;> cases v <;> decide

/-- Behind the bucket: a mismatch of the schema, a handler that fails and a filter that refuses
all have errors of their own. -/
theorem tool_granted_found (req : request) (name : String) (arguments : json) :
    (tool_granted env req name arguments).answers (response.found .tools) := by
  unfold tool_granted
  split
  · unfold tool_mismatch
    split
    · exact app.answers_pure (found_internal _ _)
    · refine app.answers_bind fun text => ?_
      cases text <;> exact app.answers_pure (found_result rfl)
  · refine app.answers_bind fun result => ?_
    refine app.answers_bind fun filtered => ?_
    cases filtered <;> exact app.answers_pure (found_result rfl)

/-- A call of a registered tool gets past the lookup, and then to the bucket. -/
theorem tools_call_found {id : String} {arguments : json} {descriptor : tool}
    (hparams : named_call req.params id arguments) (hfound : s.tools_.lookup id = some descriptor) :
    (tools_call s env req).answers (response.found .tools) := by
  unfold tools_call
  rw [named_params_iff.mpr hparams]
  dsimp only
  rw [hfound]
  refine app.answers_bind fun allowed => ?_
  cases allowed with
  | false => exact app.answers_pure (found_error rfl (by decide) (by decide))
  | true =>
      refine app.answers_bind fun granted => ?_
      cases granted with
      | false => exact app.answers_pure (found_error rfl (by decide) (by decide))
      | true => exact tool_granted_found _ _ _

/-- What a prompt's handler gave is filtered and checked, and none of it is answered by "not
found". -/
theorem prompt_handled_found (req : request) (result : prompt_result) :
    (prompt_handled env req result).answers (response.found .prompts) := by
  refine app.answers_bind fun messages => ?_
  cases messages with
  | none => exact app.answers_pure (found_internal _ _)
  | some messages =>
      dsimp only
      cases result.description with
      | none => exact app.answers_pure (found_result rfl)
      | some text =>
          refine app.answers_bind fun description => ?_
          cases description with
          | none => exact app.answers_pure (found_internal _ _)
          | some description => exact app.answers_pure (found_result rfl)

/-- A request for a registered prompt gets past the lookup; missing or undeclared arguments are
refused with another error than an unknown name. -/
theorem prompts_get_found {id : String} {arguments : json} {descriptor : prompt}
    (hparams : named_call req.params id arguments)
    (hfound : s.prompts_.lookup id = some descriptor) :
    (prompts_get s env req).answers (response.found .prompts) := by
  have hrefused : (invalid_params req "Invalid prompt arguments").found .prompts :=
    found_error rfl (by decide) (by decide)
  unfold prompts_get
  rw [named_params_iff.mpr hparams]
  dsimp only
  rw [hfound]
  dsimp only
  split
  · exact app.answers_pure hrefused
  split
  · exact app.answers_pure hrefused
  refine app.answers_bind fun result => ?_
  cases result with
  | error _ => exact app.answers_pure (found_internal _ _)
  | ok result => exact prompt_handled_found _ _

/-- A request for a registered resource gets past the lookup and reaches its handler. -/
theorem resources_read_found {uri : String} {descriptor : resource}
    (hparams : ∃ p, req.params = some p ∧ p.find? "uri" = some (.string uri))
    (hvalid : valid_uri_text uri = true) (hfound : s.resources_.lookup uri = some descriptor) :
    (resources_read s env req).answers (response.found .resources) := by
  unfold resources_read
  rw [read_params_iff.mpr ⟨hparams, hvalid⟩]
  dsimp only
  rw [hfound]
  refine app.answers_bind fun result => ?_
  cases result with
  | error _ => exact app.answers_pure (found_internal _ _)
  | ok result =>
      refine app.answers_bind fun text => ?_
      cases text with
      | none => exact app.answers_pure (found_internal _ _)
      | some text => exact app.answers_pure (found_result rfl)

/-- What is listed under an identity comes from an entry of the table. -/
theorem mem_entries {β : Type} {m : List (String × β)} {f : β → json} {id : String} {item : json}
    (hmem : (id, item) ∈ m.map fun entry => (entry.1, f entry.2)) :
    ∃ value, (id, value) ∈ m ∧ f value = item := by
  obtain ⟨entry, hentry, heq⟩ := List.mem_map.mp hmem
  cases heq
  exact ⟨entry.2, hentry, rfl⟩

/-- An identity leads to the entry that is listed under it. -/
theorem registries_ok.finds (h : registries_ok s) {id : String} {item : json}
    (hmem : (id, item) ∈ v.entries s) : v.finds s id = some item := by
  cases v with
  | tools =>
      obtain ⟨descriptor, hdescriptor, rfl⟩ := mem_entries hmem
      rw [view.finds, lookup_of_mem h.tools.keys_ne hdescriptor]
      rfl
  | prompts =>
      obtain ⟨descriptor, hdescriptor, rfl⟩ := mem_entries hmem
      rw [view.finds, lookup_of_mem h.prompts.keys_ne hdescriptor]
      rfl
  | resources =>
      obtain ⟨descriptor, hdescriptor, rfl⟩ := mem_entries hmem
      rw [view.finds, lookup_of_mem h.resources.keys_ne hdescriptor]
      rfl

/-- What is in the table is found: whatever hooks, bucket, schema and handler then do, the reply
is neither of the two errors that say it is not there. -/
theorem registries_ok.found (h : registries_ok s) {id : String} {item : json}
    (hmem : (id, item) ∈ v.entries s) (hmethod : req.method = v.find_method)
    (hasks : v.asks req.params id) :
    (application s env req).answers (response.found v) := by
  cases v with
  | tools =>
      obtain ⟨descriptor, hdescriptor, -⟩ := mem_entries hmem
      obtain ⟨arguments, hparams⟩ := hasks
      rw [application_tools_call hmethod]
      exact tools_call_found hparams (lookup_of_mem h.tools.keys_ne hdescriptor)
  | prompts =>
      obtain ⟨descriptor, hdescriptor, -⟩ := mem_entries hmem
      obtain ⟨arguments, hparams⟩ := hasks
      rw [application_prompts_get hmethod]
      exact prompts_get_found hparams (lookup_of_mem h.prompts.keys_ne hdescriptor)
  | resources =>
      obtain ⟨descriptor, hdescriptor, -⟩ := mem_entries hmem
      rw [application_resources_read hmethod]
      exact resources_read_found hasks (h.uris _ hdescriptor).2
        (lookup_of_mem h.resources.keys_ne hdescriptor)

end Found

/-! ## Runs

Only a registration writes a table, and only in `configuring`; so what the tables hold is an
invariant of the run, and once `start()` has been entered they are the same in every later
state. Runs of the session need no more than that. -/

theorem same_registries.refl (s : server) : same_registries s s := ⟨rfl, rfl, rfl, rfl⟩

/-- Two steps that leave the registries alone leave them alone together. -/
theorem same_registries.trans {s t u : server} (hst : same_registries s t)
    (htu : same_registries t u) : same_registries s u where
  info := htu.info.trans hst.info
  tools := htu.tools.trans hst.tools
  prompts := htu.prompts.trans hst.prompts
  resources := htu.resources.trans hst.resources

/-- What holds of the tables holds of a server with the same tables. -/
theorem same_registries.ok {s t : server} (hst : same_registries s t) (h : registries_ok s) :
    registries_ok t where
  tools := hst.tools ▸ h.tools
  prompts := hst.prompts ▸ h.prompts
  resources := hst.resources ▸ h.resources
  tool_names := hst.tools ▸ h.tool_names
  prompt_names := hst.prompts ▸ h.prompt_names
  argument_names := hst.prompts ▸ h.argument_names
  uris := hst.resources ▸ h.uris

/-- A stop leaves the registries as they are, so a request that is still being served finds what
it would have found. -/
theorem server.stop_registries (s : server) : same_registries s s.stop.1 := by
  unfold server.stop
  split <;> exact ⟨rfl, rfl, rfl, rfl⟩

section Runs

variable {info : raw_info} {options : server_options} {h t u : host} {a : host_action}

/-- Only a registration that succeeds, of a server that is being configured, writes a
table. -/
theorem host.Step.registers (hstep : host.Step h a t) :
    (same_registries h.world.server t.world.server ∧ t.registered = h.registered) ∨
      ∃ r, a = .register r ∧ h.state_ = .configuring ∧
        SynapseMcp.registered h.world.server r t.world.server ∧
        t.registered = h.registered ++ [r] := by
  cases hstep with
  | register r =>
      rcases h.world.server.register_cases r with ⟨err, heq⟩ | ⟨hstate, hok, hr⟩
      · left
        rw [heq]
        exact ⟨.refl _, List.append_nil _⟩
      · right
        refine ⟨r, rfl, hstate, hr, ?_⟩
        rw [hok]
        rfl
  | serve hserved hexecutor hworld =>
      exact .inl ⟨(served_configuration hserved hworld).tosame_registries, rfl⟩
  | stop_server hcall => exact .inl ⟨h.world.server.stop_registries, rfl⟩
  | @stop_cleans call rest hcall =>
      exact .inl ⟨(cleanup_configuration rest _ _).tosame_registries, rfl⟩
  | start_refused => exact .inl ⟨.refl _, rfl⟩
  | _ => exact .inl ⟨⟨rfl, rfl, rfl, rfl⟩, rfl⟩

/-- What the tables hold: in order, and what was registered. -/
structure tables_inv (h : host) : Prop where
  ok : registries_ok h.world.server
  listed : ∀ v : view, (v.items h.world.server).Perm (h.registered.filterMap v.descriptor)

/-- A registration that succeeds keeps the tables in order and adds its entry; every other step
leaves them. -/
theorem tables_inv.step (hi : tables_inv h) (hstep : host.Step h a t) : tables_inv t := by
  rcases hstep.registers with ⟨hsame, hlog⟩ | ⟨r, -, -, hr, hlog⟩
  · refine ⟨hsame.ok hi.ok, fun v => ?_⟩
    rw [view.items, view.entries_congr hsame, hlog]
    exact hi.listed v
  · refine ⟨hi.ok.registered hr, fun v => ?_⟩
    rw [hlog, List.filterMap_append]
    refine (view.items_registered hr v).trans ?_
    refine (List.perm_append_comm).trans ((hi.listed v).append ?_)
    cases hd : v.descriptor r with
    | none => simp [hd]
    | some item => simp [hd]

/-- So the tables are in order in every state a server can come to. -/
theorem host_tables (hr : (host_runs info options).Reachable h) : tables_inv h := by
  refine hr.invariant ?_ ?_
  · rintro s rfl
    refine ⟨⟨.nil, .nil, .nil, ?_, ?_, ?_, ?_⟩, fun v => ?_⟩
    · intro entry hmem
      cases hmem
    · intro entry hmem
      cases hmem
    · intro entry hmem
      cases hmem
    · intro entry hmem
      cases hmem
    · cases v <;> exact .refl _
  · intro s b u _ hs hstep
    exact hs.step hstep

/-- Past `configuring` no step writes a table, so in any later state of the run the registries
are the same. -/
theorem host_frozen (hr : (host_runs info options).Reachable h) (hstate : h.state_ ≠ .configuring)
    (hrun : (host_runs info options).Run h t) :
    same_registries h.world.server t.world.server := by
  have hpos : ∀ state : lifecycle, state ≠ .configuring ↔ 0 < state.rank := by
    intro state
    cases state <;> decide
  refine System.Run.keeps (S := host_runs info options)
    (P := fun v => same_registries h.world.server v.world.server ∧ v.state_ ≠ .configuring)
    ?_ hr ⟨.refl _, hstate⟩ hrun |>.1
  rintro v b w - ⟨hsame, hv⟩ hstep
  refine ⟨?_, ?_⟩
  · rcases hstep.registers with ⟨hnext, -⟩ | ⟨r, -, hconfiguring, -, -⟩
    · exact hsame.trans hnext
    · exact absurd hconfiguring hv
  · rw [hpos] at hv ⊢
    exact Nat.lt_of_lt_of_le hv hstep.forward

/-! ## The contract of the registries

What a user can rely on: names are unique in their tables, a refused registration changes
nothing, the tables are final once `start()` is entered, what is advertised is what is
registered, lists are complete, and a lookup of a listed identity finds the entry that is
listed.

The parts about a session are stated from any state on in which `start()` has been entered, and
are about every later state. Lists that are asked for at different times are equal. An identity
that was listed stays the name of the entry it was listed with: the lookup gives that entry, and
a request for it is told neither that it is invalid nor that there is no such thing. -/

/-- What a state of the server says about registrations, lists and lookups, now and in every
state after it. -/
structure registry_contract (info : raw_info) (options : server_options) (h : host) : Prop where
  tools_unique : (h.world.server.tools_.map fun entry => entry.2.name).Nodup
  prompts_unique : (h.world.server.prompts_.map fun entry => entry.2.name).Nodup
  resources_unique : (h.world.server.resources_.map fun entry => entry.2.uri).Nodup
  arguments_unique : ∀ entry ∈ h.world.server.prompts_,
    (entry.2.arguments.map (·.name)).Nodup
  /-- A registration that fails changes nothing. -/
  refused : ∀ r err t, host.Step h (.register r) t →
    (h.world.server.register r).2 = .error err → t = h
  /-- `start()` is entered: the registries are what they will be. -/
  frozen : ∀ a t u, a.of_start → host.Step h a t → (host_runs info options).Run t u →
    same_registries h.world.server u.world.server
  /-- `initialize` advertises a table exactly when each later list of the session shows
  something. -/
  advertised : ∀ req result, h.world.server.serving = true →
    (h.world.server.initialize_session req).2.result = some result →
    ∃ capabilities, result.find? "capabilities" = some capabilities ∧
      ∀ t v list, (host_runs info options).Run h t → view.lists v t.world.server list →
        ∃ items, list.find? v.key = some (.array items) ∧
          (capabilities.contains v.key = true ↔ items ≠ [])
  /-- The lists of a session are equal. -/
  agree : h.state_ ≠ .configuring → ∀ t u v list list', (host_runs info options).Run h t →
    (host_runs info options).Run h u → view.lists v t.world.server list →
    view.lists v u.world.server list' → list = list'
  /-- A list shows what was registered, each descriptor once. -/
  complete : ∀ v list, view.lists v h.world.server list →
    ∃ items, list = json.object_of [(v.key, .array items)] ∧
      items.Perm (h.registered.filterMap v.descriptor)
  /-- What a list shows names an identity no other entry has. A later lookup of it finds that
  entry, and a later request for it is neither refused nor told that there is no such thing. -/
  found : h.state_ ≠ .configuring → ∀ v : view, ∃ ids : List String, ids.Nodup ∧
    (v.items h.world.server).map (·.find? v.id_key) = ids.map (fun id => some (.string id)) ∧
    (v = .resources → ∀ id ∈ ids, valid_uri_text id = true) ∧
    ∀ id ∈ ids, ∀ t, (host_runs info options).Run h t →
      (∃ item ∈ v.items h.world.server, item.find? v.id_key = some (.string id) ∧
        v.finds t.world.server id = some item) ∧
      ∀ env req, req.method = v.find_method → v.asks req.params id →
        (application t.world.server env req).answers (response.found v)

/-- Every reachable state keeps the contract. Uniqueness comes from the invariant, and what a
session sees from the tables being final. -/
theorem host_registry_contract (hr : (host_runs info options).Reachable h) :
    registry_contract info options h := by
  have hi := host_tables hr
  have hserves : h.world.server.serving = true → h.state_ ≠ .configuring := by
    intro hserving hstate
    have hstate' : h.world.server.state_ = .configuring := hstate
    rw [server.serving, hstate'] at hserving
    exact absurd hserving (by decide)
  refine
    { tools_unique := ?_
      prompts_unique := ?_
      resources_unique := ?_
      arguments_unique := hi.ok.argument_names
      refused := ?_
      frozen := ?_
      advertised := ?_
      agree := ?_
      complete := ?_
      found := ?_ }
  · rw [List.map_congr_left hi.ok.tool_names]
    exact hi.ok.tools.nodup
  · rw [List.map_congr_left hi.ok.prompt_names]
    exact hi.ok.prompts.nodup
  · rw [List.map_congr_left fun entry hmem => (hi.ok.uris entry hmem).1]
    exact hi.ok.resources.nodup
  -- a refused registration has no other effect
  · intro r err t hstep herr
    cases hstep with
    | register =>
        rcases h.world.server.register_cases r with ⟨err', heq⟩ | ⟨-, hok, -⟩
        · rw [heq]
          simp [Except.isOk, Except.toBool]
        · rw [hok] at herr
          cases herr
  -- from the first step of a `start()` on the tables are the final ones
  · intro a t u ha hstep hrun
    have hfrozen := host_frozen (hr.step hstep) ((host_lifecycle hr).started ha hstep) hrun
    rcases hstep.registers with ⟨hsame, -⟩ | ⟨r, heq, -⟩
    · exact hsame.trans hfrozen
    · rw [heq] at ha
      exact absurd ha id
  -- a capability is announced where the list that is served later is not empty
  · intro req result hserving hresult
    rw [server.initialize_session_result hresult]
    refine ⟨_, initialize_result_capabilities _, ?_⟩
    intro t v list hrun hlist
    have hsame := host_frozen hr (hserves hserving) hrun
    rw [view.lists_eq hlist]
    refine ⟨_, by rw [json.find?_object_of_one, if_pos rfl], ?_⟩
    rw [server.capabilities_contains, view.items, view.items, view.entries_congr hsame]
  -- two lists asked for at different times are lists of the same tables
  · intro hstate t u v list list' ht hu hlist hlist'
    rw [view.lists_eq hlist, view.lists_eq hlist', view.items, view.items,
      view.entries_congr (host_frozen hr hstate ht), view.entries_congr (host_frozen hr hstate hu)]
  · intro v list hlist
    exact ⟨_, view.lists_eq hlist, hi.listed v⟩
  -- and each entry that is listed is found under the name it is listed with
  · intro hstate v
    refine ⟨(v.entries h.world.server).map (·.1), hi.ok.ids_nodup v, ?_, ?_, ?_⟩
    · rw [view.items, List.map_map, List.map_map]
      exact List.map_congr_left fun entry hmem => hi.ok.named hmem
    · rintro rfl id hid
      obtain ⟨entry, hentry, rfl⟩ := List.mem_map.mp hid
      obtain ⟨entry', hentry', rfl⟩ := List.mem_map.mp hentry
      exact (hi.ok.uris entry' hentry').2
    · intro id hid t hrun
      obtain ⟨entry, hentry, rfl⟩ := List.mem_map.mp hid
      have hsame := host_frozen hr hstate hrun
      have hlater := hentry
      rw [← view.entries_congr hsame] at hlater
      refine ⟨⟨entry.2, List.mem_map_of_mem hentry, hi.ok.named hentry, ?_⟩, ?_⟩
      · exact (hsame.ok hi.ok).finds hlater
      · intro env req hmethod hasks
        exact (hsame.ok hi.ok).found hlater hmethod hasks

end Runs

/-! ## A session with one tool

One tool is registered, `start()` is entered, and the list is asked for. It shows that tool and
nothing else. -/

namespace start_session

def echo : tool_descriptor := ⟨[0x65], [], json.object_of [("type", .string "object")]⟩

def echo_registration : registration := .tool echo true (.ok ())

/-- The tool is registered, and `start()` entered. -/
def entered : host :=
  { ({ fresh with
        world := { fresh.world with server := (fresh.world.server.register echo_registration).1 }
        registered := [echo_registration] } : host).set_state .starting with
    owner := .creating }

def echo_list : json := json.object_of [("tools", .array [echo.tool.to_json])]

/-- One registration, and the call of `start()`. -/
theorem reaches_entered : (host_runs info {}).Reachable entered := by
  have h0 : (host_runs info {}).Reachable fresh := .of_init rfl
  have h1 := h0.step (host.Step.register fresh echo_registration)
  exact h1.step (host.Step.start_enters rfl rfl (by decide))

theorem lists_echo : view.lists .tools entered.world.server echo_list :=
  ⟨echo_answers, session.list_request, ⟨entered.policy_, []⟩, _, _, rfl, rfl, rfl⟩

/-- The list of that session shows the tool, once. -/
theorem registry_contract_echo :
    ∃ items, echo_list = json.object_of [("tools", .array items)] ∧
      items.Perm [echo.tool.to_json] :=
  (host_registry_contract reaches_entered).complete .tools echo_list lists_echo

end start_session

end SynapseMcp
