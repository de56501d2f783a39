/-
`server::register_tool`, `register_resource` and `register_prompt`.

A descriptor comes in as the strings the application hands over, which are any bytes;
one that is accepted holds text. Whether the handler is set and what `compile_schema`
answered are arguments.

The registries are maps in the order of their keys. `registries_ok` is what registration
keeps: every entry is listed under its own name, once, a resource's URI passes the check
of `resources/read`, and no prompt declares an argument twice.
-/
import SynapseMcp.OrderedMap
import SynapseMcp.ResourceUri
import SynapseMcp.Server
import SynapseMcp.ServerPolicy
import Mathlib.Data.String.Basic

set_option autoImplicit false

namespace SynapseMcp

open OrderedMap

/-! ## Text

A name that passed `safe_text` is UTF-8, so it can be told from another by its text as well as
by its bytes. This is what makes the keys of the registries, which are texts, as good as the
strings that the source compares. -/

/-- The text of bytes that passed a check. -/
def text_of (bytes : List UInt8) : String := (utf8 bytes).getD ""

/-- `safe_text` makes the checks of `server_policy::valid_text`. -/
def safe_text (text : List UInt8) : Bool := valid_text text

/-- A text has the bytes it was decoded from. -/
theorem bytes_of_utf8 {bytes : List UInt8} {text : String} (h : utf8 bytes = some text) :
    text.toByteArray.data.toList = bytes := by
  unfold utf8 String.fromUTF8? at h
  split at h
  · cases h
    rfl
  · cases h

/-- Safe bytes have a text. -/
theorem utf8_of_safe {bytes : List UInt8} (h : safe_text bytes = true) :
    utf8 bytes = some (text_of bytes) := by
  rw [safe_text, valid_text, Bool.and_eq_true, Option.isSome_iff_exists] at h
  obtain ⟨text, htext⟩ := h.2
  rw [text_of, htext, Option.getD_some]

/-- Safe text is told apart by its bytes. -/
theorem text_of_inj {a b : List UInt8} (ha : safe_text a = true) (hb : safe_text b = true)
    (h : text_of a = text_of b) : a = b := by
  rw [← bytes_of_utf8 (utf8_of_safe ha), ← bytes_of_utf8 (utf8_of_safe hb), h]

/-! ## Descriptors

The strings of a descriptor are what the application hands over. An entry of the registry is
made from one that passed the checks of its kind. -/

/-- A tool as it is handed over. -/
structure tool_descriptor where
  name : List UInt8
  description : List UInt8
  inputSchema : json

/-- A resource as it is handed over. -/
structure resource_descriptor where
  uri : List UInt8
  name : List UInt8
  description : List UInt8
  mimeType : Option (List UInt8)

/-- An argument of a prompt, likewise. -/
structure prompt_argument_descriptor where
  name : List UInt8
  description : List UInt8
  required : Bool

/-- A prompt as it is handed over. -/
structure prompt_descriptor where
  name : List UInt8
  description : List UInt8
  arguments : List prompt_argument_descriptor

/-- The entry a tool is listed as. -/
def tool_descriptor.tool (d : tool_descriptor) : tool where
  name := text_of d.name
  description := text_of d.description
  inputSchema := d.inputSchema

/-- The entry a resource is listed as, under its URI. -/
def resource_descriptor.resource (d : resource_descriptor) (uri : String) : resource where
  uri := uri
  name := text_of d.name
  description := text_of d.description
  mimeType := d.mimeType.map text_of

/-- An argument as it is listed. -/
def prompt_argument_descriptor.argument (d : prompt_argument_descriptor) : prompt_argument where
  name := text_of d.name
  description := text_of d.description
  required := d.required

/-- The entry a prompt is listed as, with its arguments in the order they were declared. -/
def prompt_descriptor.prompt (d : prompt_descriptor) : prompt where
  name := text_of d.name
  description := text_of d.description
  arguments := d.arguments.map prompt_argument_descriptor.argument

/-- `{"type": "object"}`, with `properties` an object if there are any. -/
def input_schema_ok (schema : json) : Bool :=
  schema.is_object &&
    (schema.find? "type").any (fun type =>
      match type with
      | .string value => value = "object"
      | _ => false) &&
    (schema.find? "properties").all json.is_object

/-- The loop over the declared arguments; `names` are those seen before. -/
def arguments_ok (names : List (List UInt8)) : List prompt_argument_descriptor → Bool
  | [] => true
  | argument :: rest =>
      !argument.name.isEmpty && safe_text argument.name && safe_text argument.description &&
        !names.contains argument.name && arguments_ok (argument.name :: names) rest

/-! ## Registration

Each asks first whether the server is still being configured, and then whether the descriptor
passes and its key is new; a tool's schema is compiled after these checks. Each leaves the
server as it was unless everything passes. -/

/-- `local_error`: the call is refused here, and no peer is told. -/
def local_error (message : String) : sdk_error := ⟨.invalid_state, message⟩

/-- What a registration after `start()` is refused with. -/
def registration_frozen : sdk_error := local_error "Registration is frozen"

namespace server

/-- `server::register_tool`. -/
def register_tool (s : server) (descriptor : tool_descriptor) (handler : Bool)
    (compiled : Except sdk_error Unit) : server × Except sdk_error Unit :=
  if s.state_ ≠ .configuring then (s, .error registration_frozen)
  else if !handler || descriptor.name.isEmpty || !safe_text descriptor.name ||
      !safe_text descriptor.description || (s.tools_.lookup (text_of descriptor.name)).isSome ||
      !input_schema_ok descriptor.inputSchema then
    (s, .error ⟨.invalid_schema, "Invalid tool descriptor"⟩)
  else
    match compiled with
    | .error err => (s, .error err)
    | .ok () =>
        ({ s with tools_ := emplace (text_of descriptor.name) descriptor.tool s.tools_ }, .ok ())

/-- `server::register_resource`. -/
def register_resource (s : server) (descriptor : resource_descriptor) (handler : Bool) :
    server × Except sdk_error Unit :=
  if s.state_ ≠ .configuring then (s, .error registration_frozen)
  else if !handler || !valid_resource_uri descriptor.uri || descriptor.name.isEmpty ||
      !safe_text descriptor.name || !safe_text descriptor.description ||
      !descriptor.mimeType.all (fun mimeType => !mimeType.isEmpty && safe_text mimeType) then
    (s, .error (local_error "Invalid resource descriptor"))
  else
    match utf8 descriptor.uri with
    -- what passes the check is ASCII
    | none => (s, .error (local_error "Invalid resource descriptor"))
    | some uri =>
        if (s.resources_.lookup uri).isSome then
          (s, .error (local_error "Invalid resource descriptor"))
        else
          ({ s with resources_ := emplace uri (descriptor.resource uri) s.resources_ }, .ok ())

/-- `server::register_prompt`. -/
def register_prompt (s : server) (descriptor : prompt_descriptor) (handler : Bool) :
    server × Except sdk_error Unit :=
  if s.state_ ≠ .configuring then (s, .error registration_frozen)
  else if !handler || descriptor.name.isEmpty || !safe_text descriptor.name ||
      !safe_text descriptor.description || (s.prompts_.lookup (text_of descriptor.name)).isSome ||
      !arguments_ok [] descriptor.arguments then
    (s, .error (local_error "Invalid prompt descriptor"))
  else
    ({ s with prompts_ := emplace (text_of descriptor.name) descriptor.prompt s.prompts_ }, .ok ())

end server

/-- A call of one of the three, with what it meets outside the server. -/
inductive registration where
  | tool (descriptor : tool_descriptor) (handler : Bool) (compiled : Except sdk_error Unit)
  | resource (descriptor : resource_descriptor) (handler : Bool)
  | prompt (descriptor : prompt_descriptor) (handler : Bool)

/-- The call that a registration stands for. -/
def server.register (s : server) : registration → server × Except sdk_error Unit
  | .tool descriptor handler compiled => s.register_tool descriptor handler compiled
  | .resource descriptor handler => s.register_resource descriptor handler
  | .prompt descriptor handler => s.register_prompt descriptor handler

/-! ## What registration keeps

`register_cases` is the one lemma that goes through the checks. A registration that succeeds is
then an instance of `registered`, which has just what the invariant needs: that the name was
safe and new, that the URI passed, that the arguments did. -/

/-- The registries are in order, and every entry is listed under what it is called. -/
structure registries_ok (s : server) : Prop where
  tools : Ordered s.tools_
  prompts : Ordered s.prompts_
  resources : Ordered s.resources_
  tool_names : ∀ entry ∈ s.tools_, entry.2.name = entry.1
  prompt_names : ∀ entry ∈ s.prompts_, entry.2.name = entry.1
  argument_names : ∀ entry ∈ s.prompts_, (entry.2.arguments.map (·.name)).Nodup
  uris : ∀ entry ∈ s.resources_, entry.2.uri = entry.1 ∧ valid_uri_text entry.1 = true

section Register

variable {s : server}

/-- What a registration that succeeds adds, under a key that was not there. -/
inductive registered (s : server) : registration → server → Prop
  | tool {descriptor : tool_descriptor} (hsafe : safe_text descriptor.name = true)
      (hnew : s.tools_.lookup (text_of descriptor.name) = none) :
      registered s (.tool descriptor true (.ok ()))
        { s with tools_ := emplace (text_of descriptor.name) descriptor.tool s.tools_ }
  | resource {descriptor : resource_descriptor} {uri : String}
      (hvalid : valid_resource_uri descriptor.uri = true) (huri : utf8 descriptor.uri = some uri)
      (hnew : s.resources_.lookup uri = none) :
      registered s (.resource descriptor true)
        { s with resources_ := emplace uri (descriptor.resource uri) s.resources_ }
  | prompt {descriptor : prompt_descriptor} (hsafe : safe_text descriptor.name = true)
      (hnew : s.prompts_.lookup (text_of descriptor.name) = none)
      (harguments : arguments_ok [] descriptor.arguments = true) :
      registered s (.prompt descriptor true)
        { s with prompts_ := emplace (text_of descriptor.name) descriptor.prompt s.prompts_ }

/-- The three registrations ask first whether the server is still being configured. -/
theorem registered_unless_frozen {r : registration} {rest : server × Except sdk_error Unit}
    (h : (∃ err, rest = (s, .error err)) ∨ rest.2 = .ok () ∧ registered s r rest.1)
    {answer : server × Except sdk_error Unit}
    (hanswer : answer =
      if s.state_ ≠ .configuring then (s, .error registration_frozen) else rest) :
    (∃ err, answer = (s, .error err)) ∨
      (s.state_ = .configuring ∧ answer.2 = .ok () ∧ registered s r answer.1) := by
  by_cases hstate : s.state_ ≠ .configuring
  · rw [if_pos hstate] at hanswer
    exact .inl ⟨_, hanswer⟩
  · rw [if_neg hstate] at hanswer
    subst hanswer
    exact h.imp id fun hok => ⟨not_not.mp hstate, hok⟩

/-- A registration fails and changes nothing, or the server is being configured and the
registration adds what it names. -/
theorem server.register_cases (s : server) (r : registration) :
    (∃ err, s.register r = (s, .error err)) ∨
      (s.state_ = .configuring ∧ (s.register r).2 = .ok () ∧ registered s r (s.register r).1) := by
  cases r with
  | tool descriptor handler compiled =>
      -- each kind has its own checks, all of them before the table is touched
      refine registered_unless_frozen ?_ rfl
      split
      · exact .inl ⟨_, rfl⟩
      rename_i hchecks
      cases compiled with
      | error err => exact .inl ⟨err, rfl⟩
      | ok _ =>
          simp only [Bool.or_eq_true, Bool.not_eq_true', not_or, Bool.not_eq_false,
            Bool.not_eq_true, Option.isSome_eq_false_iff, Option.isNone_iff_eq_none] at hchecks
          obtain ⟨⟨⟨⟨⟨hhandler, hname⟩, hsafe⟩, hdescription⟩, hnew⟩, hschema⟩ := hchecks
          subst hhandler
          exact .inr ⟨rfl, .tool hsafe hnew⟩
  | resource descriptor handler =>
      refine registered_unless_frozen ?_ rfl
      split
      · exact .inl ⟨_, rfl⟩
      rename_i hchecks
      simp only [Bool.or_eq_true, Bool.not_eq_true', not_or, Bool.not_eq_false,
        Bool.not_eq_true] at hchecks
      obtain ⟨⟨⟨⟨⟨hhandler, hvalid⟩, hname⟩, hsafe⟩, hdescription⟩, hmime⟩ := hchecks
      subst hhandler
      -- a resource is filed under its URI as text, so that conversion comes before the search
      cases huri : utf8 descriptor.uri with
      | none => exact .inl ⟨_, rfl⟩
      | some uri =>
          dsimp only
          split
          · exact .inl ⟨_, rfl⟩
          · rename_i hnew
            rw [Bool.not_eq_true, Option.isSome_eq_false_iff, Option.isNone_iff_eq_none] at hnew
            exact .inr ⟨rfl, .resource hvalid huri hnew⟩
  | prompt descriptor handler =>
      refine registered_unless_frozen ?_ rfl
      split
      · exact .inl ⟨_, rfl⟩
      rename_i hchecks
      simp only [Bool.or_eq_true, Bool.not_eq_true', not_or, Bool.not_eq_false,
        Bool.not_eq_true, Option.isSome_eq_false_iff, Option.isNone_iff_eq_none] at hchecks
      obtain ⟨⟨⟨⟨⟨hhandler, hname⟩, hsafe⟩, hdescription⟩, hnew⟩, harguments⟩ := hchecks
      subst hhandler
      exact .inr ⟨rfl, .prompt hsafe hnew harguments⟩

/-- The names a loop over the arguments let through are different, and none was seen. -/
theorem arguments_ok_nodup {arguments : List prompt_argument_descriptor}
    {names : List (List UInt8)} (hnames : ∀ name ∈ names, safe_text name = true)
    (h : arguments_ok names arguments = true) :
    ((arguments.map prompt_argument_descriptor.argument).map (·.name)).Nodup ∧
      ∀ argument ∈ arguments, text_of argument.name ∉ names.map text_of := by
  induction arguments generalizing names with
  | nil => exact ⟨List.nodup_nil, fun _ hmem => absurd hmem List.not_mem_nil⟩
  | cons argument rest ih =>
      rw [arguments_ok] at h
      simp only [Bool.and_eq_true, Bool.not_eq_true', List.contains_eq_mem,
        decide_eq_false_iff_not] at h
      obtain ⟨⟨⟨⟨-, hsafe⟩, -⟩, hnew⟩, hrest⟩ := h
      have hnames' : ∀ name ∈ argument.name :: names, safe_text name = true := by
        intro name hname
        rcases List.mem_cons.mp hname with rfl | hname
        · exact hsafe
        · exact hnames name hname
      -- the rest was checked with this argument among the names seen
      obtain ⟨hnodup, hseen⟩ := ih hnames' hrest
      refine ⟨?_, ?_⟩
      · rw [List.map_cons, List.map_cons, List.nodup_cons]
        refine ⟨?_, hnodup⟩
        intro hmem
        rw [List.map_map, List.mem_map] at hmem
        obtain ⟨other, hother, hsame⟩ := hmem
        refine hseen other hother ?_
        rw [List.map_cons]
        exact List.mem_cons.mpr (.inl hsame)
      · intro other hother
        rcases List.mem_cons.mp hother with rfl | hother
        · intro hmem
          obtain ⟨name, hname, hsame⟩ := List.mem_map.mp hmem
          exact hnew (text_of_inj (hnames name hname) hsafe hsame ▸ hname)
        · intro hmem
          refine hseen other hother ?_
          rw [List.map_cons]
          exact List.mem_cons_of_mem _ hmem

/-- A registration keeps the registries in order: the new entry is under its own name, which no
other entry has. -/
theorem registries_ok.registered {r : registration} {t : server} (h : registries_ok s)
    (hr : registered s r t) : registries_ok t := by
  cases hr with
  | tool hsafe hnew =>
      refine { h with tools := h.tools.emplace _ _, tool_names := ?_ }
      intro entry hmem
      rcases mem_emplace hmem with rfl | hold
      · rfl
      · exact h.tool_names entry hold
  | @resource descriptor uri hvalid huri hnew =>
      refine { h with resources := h.resources.emplace _ _, uris := ?_ }
      intro entry hmem
      rcases mem_emplace hmem with rfl | hold
      · refine ⟨rfl, ?_⟩
        rw [valid_uri_text, bytes_of_utf8 huri]
        exact hvalid
      · exact h.uris entry hold
  | @prompt descriptor hsafe hnew harguments =>
      refine { h with
        prompts := h.prompts.emplace _ _
        prompt_names := ?_
        argument_names := ?_ }
      · intro entry hmem
        rcases mem_emplace hmem with rfl | hold
        · rfl
        · exact h.prompt_names entry hold
      · intro entry hmem
        rcases mem_emplace hmem with rfl | hold
        -- the loop begins with no name seen
        · exact (arguments_ok_nodup (fun _ h => absurd h List.not_mem_nil) harguments).1
        · exact h.argument_names entry hold

end Register

end SynapseMcp
