/-
The texts of the application that reach the wire.

`frame_texts` reads them out of a frame wherever a result can hold one. Every one of them
came out of `policy_.filter`, or is the text that stands for a rejected output. The
callbacks made so far are only ever added to, so what the hook returned for a text that is
in the reply can be found among them to the end.

A run keeps a record of its invocations: the request, the operation it was called for, and
the answers of the environment, the hook's among them. A frame with texts then answers one
of the run's own invocations, and it is that invocation's hook that was asked.
-/
import SynapseMcp.ApplicationGate
import SynapseMcp.MessageGrammar
import SynapseMcp.ServerRegistry
import SynapseMcp.ServerSteps

set_option autoImplicit false

namespace SynapseMcp

open Transition

/-- `application()` with the catch around it. -/
def invocation (s : server) (env : application_answers) (req : request)
    (st : application_state) : application_state × response :=
  match application s env req st with
  | (st, .returned reply) => (st, reply)
  | (st, .threw) => (st, internal_error req)

/-! ## The texts of a frame

`frame_texts` looks into every member in which a result can hold a text of the application,
whatever the method was: the contents of a tool, the messages and the description of a prompt,
the contents of a resource. A frame of another kind has none of these members, and an error has
no result; so the function is defined on all frames, and no frame is left out of what is said
about them. -/

def json.elements_at (j : json) (key : String) : List json :=
  match j.find? key with
  | some (.array elements) => elements
  | _ => []

def json.text_at (j : json) (key : String) : List String :=
  match j.find? key with
  | some (.string text) => [text]
  | _ => []

/-- The texts of a result: contents of a tool or a resource, messages and the description of
a prompt. -/
def result_texts (result : json) : List String :=
  (result.elements_at "content").flatMap (·.text_at "text") ++
  (result.elements_at "contents").flatMap (·.text_at "text") ++
  (result.elements_at "messages").flatMap (fun message =>
    (message.find? "content").elim [] (·.text_at "text")) ++
  result.text_at "description"

/-- The texts of a frame are those of its result, and none if it has no result. -/
def frame_texts (wire : json) : List String := (wire.find? "result").elim [] result_texts

/-- What stands for an output that was rejected. -/
def rejection_text : String := "Tool output rejected"

/-- The bytes of a text hold no control character but TAB, LF and CR, and no DEL. -/
def clean_text (text : String) : Prop :=
  utf8 (bytes_of text) = some text ∧
    ∀ ch ∈ bytes_of text, (32 ≤ ch ∨ ch = 9 ∨ ch = 10 ∨ ch = 13) ∧ ch ≠ 127

/-- What `valid_text` accepts is clean once it is decoded: a control character in UTF-8 is the
one byte it is. -/
theorem clean_text_of_valid {bytes : List UInt8} {text : String} (hutf8 : utf8 bytes = some text)
    (h : valid_text bytes = true) : clean_text text := by
  have hbytes : bytes_of text = bytes := bytes_of_utf8 hutf8
  unfold clean_text
  rw [hbytes]
  refine ⟨hutf8, fun ch hch => ?_⟩
  rw [valid_text, Bool.and_eq_true, List.all_eq_true] at h
  have hall := h.1 ch hch
  simp only [Bool.not_eq_true', Bool.or_eq_false_iff, Bool.and_eq_false_iff,
    decide_eq_false_iff_not, bne_eq_false_iff_eq, beq_eq_false_iff_ne] at hall
  obtain ⟨hcontrol, hdel⟩ := hall
  refine ⟨?_, hdel⟩
  rcases hcontrol with ((hlarge | htab) | hlf) | hcr
  · exact .inl (by simpa using hlarge)
  · exact .inr (.inl htab)
  · exact .inr (.inr (.inl hlf))
  · exact .inr (.inr (.inr hcr))

theorem clean_rejection : clean_text rejection_text :=
  @clean_text_of_valid (bytes_of rejection_text) _ (by decide +kernel) (by decide +kernel)

/-! ## Frames of replies

The replies of the source are built by a few functions, and the texts of each are computed here
once. A text of the application goes into exactly one place of a reply; everything else in it is
a name, a type or a fixed text, and `frame_texts` does not see it. -/

/-- A reply with an error has no texts, whatever its message says. -/
theorem frame_texts_of_err {reply : response} {err : error} (h : reply.err = some err) :
    frame_texts reply.to_json = [] := by
  have hcontains := reply.to_json_result
  rw [h, json.contains, Option.isNone_some, Option.isSome_eq_false_iff,
    Option.isNone_iff_eq_none] at hcontains
  rw [frame_texts, hcontains]
  rfl

/-- A reply with a result has the texts of the result. -/
theorem frame_texts_of_result {reply : response} {result : json} (herr : reply.err = none)
    (hresult : reply.result = some result) :
    frame_texts reply.to_json = result_texts result := by
  unfold frame_texts response.to_json
  dsimp only
  rw [herr, hresult]
  dsimp only
  rw [json.find?_set_of_object (json.is_object_set _ _ _), if_pos rfl]
  rfl

/-- The content made of a text holds the text, decoded. -/
theorem text_at_text_content (text : List UInt8) :
    (text_content text).text_at "text" = [(utf8 text).getD ""] := by
  change (((json.object []).set "type" (.string "text")).set "text" (text_value text)).text_at
    "text" = _
  rw [json.text_at, json.find?_set_of_object (json.is_object_set _ _ _), if_pos rfl]
  rfl

/-- Setting another member leaves the text under this key. -/
theorem text_at_set {j : json} (hj : j.is_object = true) {key k : String} (value : json)
    (h : k ≠ key) : (j.set key value).text_at k = j.text_at k := by
  rw [json.text_at, json.find?_set_of_object hj, if_neg h]
  rfl

/-- And the elements under this key. -/
theorem elements_at_set {j : json} (hj : j.is_object = true) {key k : String} (value : json)
    (h : k ≠ key) : (j.set key value).elements_at k = j.elements_at k := by
  rw [json.elements_at, json.find?_set_of_object hj, if_neg h]
  rfl

/-- A member with another key adds no text. -/
theorem result_texts_set {result : json} (hresult : result.is_object = true) {key : String}
    (value : json) (hcontent : "content" ≠ key) (hcontents : "contents" ≠ key)
    (hmessages : "messages" ≠ key) (hdescription : "description" ≠ key) :
    result_texts (result.set key value) = result_texts result := by
  unfold result_texts
  rw [elements_at_set hresult value hcontent, elements_at_set hresult value hcontents,
    elements_at_set hresult value hmessages, text_at_set hresult value hdescription]

/-- The texts of a list of contents are those of its items. -/
theorem result_texts_content (items : List json) :
    result_texts (json.object_of [("content", .array items)]) =
      items.flatMap (·.text_at "text") := by
  simp [result_texts, json.object_of, json.set, json.insert_member, json.elements_at,
    json.text_at, json.find?, List.lookup_cons]

/-- A tool's reply has one text, the one it was made of. -/
theorem frame_texts_tool_reply (req : request) (text : List UInt8) (is_error : Bool) :
    frame_texts (tool_reply req text is_error).to_json = [(utf8 text).getD ""] := by
  unfold tool_reply
  rw [frame_texts_of_result rfl rfl]
  have htexts : result_texts (json.object_of [("content", .array [text_content text])]) =
      [(utf8 text).getD ""] := by
    rw [result_texts_content, List.flatMap_singleton, text_at_text_content]
  cases is_error with
  | false => exact htexts
  | true =>
      rw [if_pos rfl, result_texts_set rfl _ (by decide) (by decide) (by decide) (by decide)]
      exact htexts

/-- The fixed failure of a tool has the text of the rejection. -/
theorem frame_texts_tool_failure (id : json_rpc_id) :
    frame_texts (tool_failure id).to_json = [rejection_text] := by
  rw [frame_texts_of_result rfl rfl]
  change result_texts ((json.object_of [("content", .array [json.object_of
    [("type", .string "text"), ("text", .string "Tool output rejected")]])]).set "isError"
      (.boolean true)) = _
  rw [result_texts_set rfl _ (by decide) (by decide) (by decide) (by decide),
    result_texts_content, List.flatMap_singleton]
  change (((json.object []).set "type" (.string "text")).set "text"
    (.string "Tool output rejected")).text_at "text" = _
  rw [json.text_at, json.find?_set_of_object (json.is_object_set _ _ _), if_pos rfl]
  rfl

/-- The lists hold descriptors, and no text of the application. -/
theorem frame_texts_list (req : request) {key : String} (invalid : String) (items : List json)
    (hcontent : "content" ≠ key) (hcontents : "contents" ≠ key) (hmessages : "messages" ≠ key)
    (hdescription : "description" ≠ key) :
    frame_texts (list_reply req key invalid items).to_json = [] := by
  unfold list_reply
  split
  · rw [frame_texts_of_result rfl rfl]
    exact @result_texts_set (.object []) rfl key _ hcontent hcontents hmessages hdescription
  · exact frame_texts_of_err rfl

/-! ## Where a text comes from

A text goes from the application to the wire in three steps, and each is a relation to the calls
made so far: it is `handed` to the filter, because a handler that was called returned it or the
schema refused the arguments; the filter lets it, or what the hook makes of it, out as `said`;
and decoded it is `spoken` in the reply. All three only look for calls that are there, so they
stay true as more are made. -/

/-- The texts a handler returns, or puts into its error for the public. -/
def call_texts (env : application_answers) : application_call → List (List UInt8)
  | .tool name arguments =>
      match env.tool name arguments with
      | .returned (.ok result) => [result.text]
      | .returned (.error err) => [err.public_message]
      | .threw => []
  | .prompt name values =>
      match env.prompt name values with
      | .returned (.ok result) => result.messages.map (·.text) ++ result.description.toList
      | _ => []
  | .resource uri =>
      match env.resource uri with
      | .returned (.ok result) => [result.text]
      | _ => []
  | _ => []

/-- What goes into the filter: a text of a handler that was called, or the text about
arguments the schema refused. -/
def handed (env : application_answers) (calls : List application_call)
    (input : List UInt8) : Prop :=
  input = bytes_of "Tool arguments do not match schema" ∨
    ∃ made ∈ calls, input ∈ call_texts env made

/-- What `policy_.filter` lets out for it. -/
structure said (env : application_answers) (operation : String) (calls : List application_call)
    (input text : List UInt8) : Prop where
  valid : valid_text text = true
  unhooked : env.filter_output = none → text = input
  hooked : ∀ filter_output, env.filter_output = some filter_output → ∃ n : Nat,
    calls[n]? = some (.filter_output operation input) ∧
      filter_output n operation input = .returned (.ok text)

/-- A text of the application as it stands in a reply. -/
def spoken (env : application_answers) (operation : String) (calls : List application_call)
    (text : String) : Prop :=
  ∃ input bytes, handed env calls input ∧ said env operation calls input bytes ∧
    utf8 bytes = some text

section Sources

variable {env : application_answers} {operation : String} {calls calls' : List application_call}

/-- A call that was made is among the calls at any later time. -/
theorem handed.mono {input : List UInt8} (h : handed env calls input) (hcalls : calls <+: calls') :
    handed env calls' input := by
  rcases h with hfixed | ⟨made, hmade, hinput⟩
  · exact .inl hfixed
  · exact .inr ⟨made, hcalls.subset hmade, hinput⟩

/-- What the filter let out, it let out, whatever is called afterwards. -/
theorem said.mono {input text : List UInt8} (h : said env operation calls input text)
    (hcalls : calls <+: calls') : said env operation calls' input text := by
  refine ⟨h.valid, h.unhooked, fun filter_output hfilter => ?_⟩
  obtain ⟨n, hn, houtput⟩ := h.hooked filter_output hfilter
  obtain ⟨rest, rfl⟩ := hcalls
  refine ⟨n, ?_, houtput⟩
  rw [List.getElem?_append_left (List.getElem?_eq_some_iff.mp hn).1]
  exact hn

/-- A text of the reply keeps its source. -/
theorem spoken.mono {text : String} (h : spoken env operation calls text)
    (hcalls : calls <+: calls') : spoken env operation calls' text := by
  obtain ⟨input, bytes, hinput, hsaid, hbytes⟩ := h
  exact ⟨input, bytes, hinput.mono hcalls, hsaid.mono hcalls, hbytes⟩

/-- What was let out is UTF-8, so the reply holds it as it is. -/
theorem said.spoken {input text : List UInt8} (h : said env operation calls input text)
    (hinput : handed env calls input) : spoken env operation calls ((utf8 text).getD "") := by
  have hvalid := h.valid
  rw [valid_text, Bool.and_eq_true] at hvalid
  obtain ⟨decoded, hdecoded⟩ := Option.isSome_iff_exists.mp hvalid.2
  refine ⟨input, text, hinput, h, ?_⟩
  rw [hdecoded]
  rfl

end Sources

/-- Every text of the reply was let through, or is the rejection. -/
def well_spoken (env : application_answers) (operation : String)
    (calls : List application_call) (reply : response) : Prop :=
  ∀ text ∈ frame_texts reply.to_json, text = rejection_text ∨ spoken env operation calls text

/-! ## Computations that end well

Each method is a computation with callbacks in it, and what is wanted holds of the reply it
returns, in the state it returns in. `ends` says just that, and has the rules of a weakest
condition; a computation that throws is answered by the catch, whose reply has no text. -/

/-- What holds when the computation returns. -/
def app.ends {α : Type} (x : app α) (st : application_state)
    (Q : application_state → α → Prop) : Prop :=
  ∀ st' a, x st = (st', .returned a) → Q st' a

section Ends

variable {α β : Type} {x : app α} {f : α → app β} {st : application_state}
  {P : application_state → α → Prop} {Q : application_state → β → Prop}

/-- A value is returned in the state as it is. -/
theorem app.ends_pure {a : α} (h : P st a) : (pure a : app α).ends st P := by
  rintro st' a' ⟨⟩
  exact h

/-- What the first part ends with is what the second starts with. -/
theorem app.ends_bind (hx : x.ends st P) (hf : ∀ st' a, P st' a → (f a).ends st' Q) :
    (x >>= f).ends st Q := by
  intro st' b h
  rw [app.bind_run] at h
  cases hrun : x st with
  | mk st₁ outcome =>
      rw [hrun] at h
      cases outcome with
      | threw => cases h
      | returned a => exact hf st₁ a (hx st₁ a hrun) st' b h

/-- A callback is among the calls once it returned. -/
theorem app.ends_call (made : application_call) (answer : call_outcome α)
    (st : application_state) :
    (app.call made answer).ends st fun st' a => made ∈ st'.calls ∧ answer = .returned a := by
  intro st' a h
  obtain ⟨rfl, rfl⟩ := Prod.mk.inj h
  exact ⟨List.mem_append_right _ (List.mem_singleton_self _), rfl⟩

/-- What is not asked for. -/
theorem app.ends_any (x : app α) (st : application_state) : x.ends st fun _ _ => True :=
  fun _ _ _ => trivial

end Ends

section Replies

variable {env : application_answers} {req : request} {st : application_state}

/-- The filter adds its call, if it makes one, and lets a text through only as `said`. -/
theorem filter_ends (env : application_answers) (operation : String) (input : List UInt8)
    (st : application_state) :
    (app.filter env operation input).ends st fun st' filtered =>
      st.calls <+: st'.calls ∧ ∀ text, filtered = some text →
        said env operation st'.calls input text := by
  intro st' filtered h
  unfold app.filter at h
  -- a text without a hook passes as it is; with one, what the hook returns is checked again
  by_cases hvalid : valid_text input = true
  · cases hhook : env.filter_output with
    | none =>
        rw [hhook] at h
        dsimp only [server_policy.filter] at h
        rw [if_neg (by simp [hvalid])] at h
        cases h
        refine ⟨List.prefix_rfl, ?_⟩
        rintro text ⟨⟩
        refine ⟨hvalid, fun _ => rfl, fun filter_output hsome => ?_⟩
        rw [hhook] at hsome
        cases hsome
    | some filter_output =>
        rw [hhook] at h
        dsimp only [server_policy.filter] at h
        rw [if_pos hvalid, if_neg (by simp [hvalid])] at h
        obtain ⟨rfl, houtcome⟩ := Prod.mk.inj h
        refine ⟨List.prefix_append _ _, fun text htext => ?_⟩
        subst htext
        split at houtcome
        · cases houtcome
        · cases houtcome
        · rename_i filtered houtput
          split at houtcome
          · rename_i hfiltered
            cases houtcome
            refine ⟨hfiltered, fun hnone => ?_, fun filter_output' hsome => ?_⟩
            · rw [hhook] at hnone
              cases hnone
            · rw [hhook] at hsome
              cases hsome
              -- the hook's call is the last of the calls so far, and this is its answer
              exact ⟨st.calls.length, by simp, houtput⟩
          · cases houtcome
  · -- an input that is no text is rejected before the hook is asked
    have hrejected : ∀ filter_output,
        server_policy.filter filter_output operation input = .returned none := by
      intro filter_output
      unfold server_policy.filter
      rw [if_pos (by simpa using hvalid)]
    cases hhook : env.filter_output with
    | none =>
        rw [hhook] at h
        dsimp only at h
        rw [hrejected] at h
        cases h
        exact ⟨List.prefix_rfl, nofun⟩
    | some filter_output =>
        rw [hhook] at h
        dsimp only at h
        rw [hrejected, if_neg hvalid] at h
        cases h
        exact ⟨List.prefix_rfl, nofun⟩

/-- A reply with an error says nothing. -/
theorem well_spoken_of_err {operation : String} {calls : List application_call} {reply : response}
    {err : error} (h : reply.err = some err) : well_spoken env operation calls reply := by
  intro text htext
  rw [frame_texts_of_err h] at htext
  cases htext

/-- The fixed failure of a tool says that the output was rejected. -/
theorem well_spoken_failure (operation : String) (calls : List application_call)
    (id : json_rpc_id) : well_spoken env operation calls (tool_failure id) := by
  intro text htext
  rw [frame_texts_tool_failure] at htext
  exact .inl (List.mem_singleton.mp htext)

/-- A tool's reply says what the filter let out. -/
theorem well_spoken_tool {operation : String} {calls : List application_call}
    {input text : List UInt8} (hinput : handed env calls input)
    (h : said env operation calls input text) (is_error : Bool) :
    well_spoken env operation calls (tool_reply req text is_error) := by
  intro t ht
  rw [frame_texts_tool_reply, List.mem_singleton] at ht
  subst ht
  exact .inr (h.spoken hinput)

/-- What a tool, or the check of its arguments, says. -/
theorem tool_handled_ends (name : String) (arguments : json) :
    (tool_handled env req name arguments).ends st fun st' reply =>
      well_spoken env req.method st'.calls reply := by
  refine app.ends_bind (app.ends_call _ _ _) ?_
  rintro st' result ⟨hmade, hanswer⟩
  refine app.ends_bind (filter_ends env req.method _ _) ?_
  rintro st'' filtered ⟨hcalls, hsaid⟩
  cases filtered with
  | none => exact app.ends_pure (well_spoken_failure _ _ _)
  | some text =>
      refine app.ends_pure (well_spoken_tool (.inr ⟨_, hcalls.subset hmade, ?_⟩) (hsaid text rfl) _)
      cases result <;> simp [call_texts, hanswer]

/-- The text about refused arguments is filtered like any other. -/
theorem tool_mismatch_ends (kind : validation_failure_kind) :
    (tool_mismatch env req kind).ends st fun st' reply =>
      well_spoken env req.method st'.calls reply := by
  unfold tool_mismatch
  split
  · exact app.ends_pure (well_spoken_of_err rfl)
  · refine app.ends_bind (filter_ends env req.method _ _) ?_
    rintro st' filtered ⟨-, hsaid⟩
    cases filtered with
    | none => exact app.ends_pure (well_spoken_failure _ _ _)
    | some text => exact app.ends_pure (well_spoken_tool (.inl rfl) (hsaid text rfl) _)

/-- A call of a tool comes to one text at most, whichever branch it takes. -/
theorem tools_call_ends (s : server) :
    (tools_call s env req).ends st fun st' reply =>
      well_spoken env req.method st'.calls reply := by
  unfold tools_call
  split
  · exact app.ends_pure (well_spoken_of_err rfl)
  split
  · exact app.ends_pure (well_spoken_of_err rfl)
  refine app.ends_bind (app.ends_any _ _) fun st' allowed _ => ?_
  split
  · exact app.ends_pure (well_spoken_of_err rfl)
  refine app.ends_bind (app.ends_any _ _) fun st'' granted _ => ?_
  split
  · exact app.ends_pure (well_spoken_of_err rfl)
  unfold tool_granted
  split
  · exact tool_mismatch_ends _
  · exact tool_handled_ends _ _

/-! ### Prompts

A prompt has a list of messages and perhaps a description, and each text is filtered by itself,
in order. The first that is rejected ends it with an error, so a reply with messages is one in
which all of them were let through. -/

/-- The text of a message as it goes into a reply. -/
def message_texts (message : json) : List String :=
  (message.find? "content").elim [] (·.text_at "text")

/-- The messages of a reply, each let through. -/
def messages_said (env : application_answers) (operation : String)
    (calls : List application_call) (messages : List json) : Prop :=
  ∀ message ∈ messages, ∀ text ∈ message_texts message, spoken env operation calls text

/-- The messages that were let through stay so. -/
theorem messages_said.mono {operation : String} {calls calls' : List application_call}
    {messages : List json} (h : messages_said env operation calls messages)
    (hcalls : calls <+: calls') : messages_said env operation calls' messages :=
  fun message hmessage text htext => (h message hmessage text htext).mono hcalls

/-- A message of a reply has the text it was made of. -/
theorem message_texts_of (role : String) (text : List UInt8) :
    message_texts (json.object_of [("role", .string role), ("content", text_content text)]) =
      [(utf8 text).getD ""] := by
  change ((((json.object []).set "role" (.string role)).set "content"
    (text_content text)).find? "content").elim [] (·.text_at "text") = _
  rw [json.find?_set_of_object (json.is_object_set _ _ _), if_pos rfl]
  exact text_at_text_content text

/-- The induction is on the messages that are left; what was let through before stays in
the calls. -/
theorem prompt_messages_ends (messages : List prompt_message)
    (hhanded : ∀ message ∈ messages, handed env st.calls message.text) :
    (prompt_messages env req messages).ends st fun st' replied =>
      st.calls <+: st'.calls ∧ ∀ out, replied = some out →
        messages_said env req.method st'.calls out := by
  induction messages generalizing st with
  | nil =>
      refine app.ends_pure ⟨List.prefix_rfl, ?_⟩
      rintro out ⟨⟩ message hmessage
      cases hmessage
  | cons message rest ih =>
      rw [List.forall_mem_cons] at hhanded
      obtain ⟨hmessage, hrest⟩ := hhanded
      unfold prompt_messages
      cases message.role.wire with
      | none => exact app.ends_pure ⟨List.prefix_rfl, by simp⟩
      | some role =>
          refine app.ends_bind (filter_ends env req.method message.text st) ?_
          rintro st₁ filtered ⟨hcalls₁, hsaid⟩
          -- a message that is rejected ends the reply; otherwise the rest is asked with the calls
          -- so far
          cases filtered with
          | none => exact app.ends_pure ⟨hcalls₁, by simp⟩
          | some text =>
              refine app.ends_bind (ih fun message hmem => (hrest message hmem).mono hcalls₁) ?_
              rintro st₂ replied ⟨hcalls₂, hreplied⟩
              cases replied with
              | none => exact app.ends_pure ⟨hcalls₁.trans hcalls₂, by simp⟩
              | some out =>
                  refine app.ends_pure ⟨hcalls₁.trans hcalls₂, ?_⟩
                  rintro out' ⟨⟩
                  intro message' hmem
                  rcases List.mem_cons.mp hmem with rfl | hmem
                  · intro t ht
                    rw [message_texts_of, List.mem_singleton] at ht
                    subst ht
                    exact ((hsaid text rfl).spoken (hmessage.mono hcalls₁)).mono hcalls₂
                  · exact hreplied out rfl message' hmem

/-- The texts of a prompt's result without a description are those of its messages. -/
theorem result_texts_messages (messages : List json) :
    result_texts (json.object_of [("messages", .array messages)]) =
      messages.flatMap message_texts := by
  simp [result_texts, json.object_of, json.set, json.insert_member, json.elements_at,
    json.text_at, json.find?, List.lookup_cons]
  rfl

/-- With a description they are those and the description: setting a second member changes none
of what is read under `messages`. -/
theorem result_texts_description (messages : List json) (text : List UInt8) :
    result_texts ((json.object_of [("messages", .array messages)]).set "description"
      (text_value text)) = messages.flatMap message_texts ++ [(utf8 text).getD ""] := by
  have hobject : (json.object_of [("messages", .array messages)]).is_object = true := rfl
  have hmessages := result_texts_messages messages
  unfold result_texts at hmessages ⊢
  rw [elements_at_set hobject _ (by decide), elements_at_set hobject _ (by decide),
    elements_at_set hobject _ (by decide)]
  rw [json.text_at, json.find?_set_of_object hobject, if_pos rfl]
  have hnone : (json.object_of [("messages", .array messages)]).text_at "description" = [] := by
    simp [json.object_of, json.set, json.insert_member, json.text_at, json.find?,
      List.lookup_cons]
  rw [hnone, List.append_nil] at hmessages
  rw [hmessages]
  rfl

/-- A result whose texts are the messages, and others that were let through, is well spoken. -/
theorem well_spoken_messages {operation : String} {calls : List application_call}
    {messages : List json} {result : json} {texts : List String}
    (hmessages : messages_said env operation calls messages)
    (hresult : result_texts result = messages.flatMap message_texts ++ texts)
    (htexts : ∀ text ∈ texts, spoken env operation calls text) :
    well_spoken env operation calls (reply_with req result) := by
  intro text htext
  rw [frame_texts_of_result rfl rfl, hresult, List.mem_append, List.mem_flatMap] at htext
  rcases htext with ⟨message, hmessage, htext⟩ | htext
  · exact .inr (hmessages message hmessage text htext)
  · exact .inr (htexts text htext)

/-- The messages are filtered, and then the description if there is one. -/
theorem prompt_handled_ends (result : prompt_result)
    (hmessages : ∀ message ∈ result.messages, handed env st.calls message.text)
    (hdescription : ∀ text ∈ result.description, handed env st.calls text) :
    (prompt_handled env req result).ends st fun st' reply =>
      well_spoken env req.method st'.calls reply := by
  refine app.ends_bind (prompt_messages_ends result.messages hmessages) ?_
  rintro st₁ replied ⟨hcalls₁, hreplied⟩
  cases replied with
  | none => exact app.ends_pure (well_spoken_of_err rfl)
  | some messages =>
      have hsaid := hreplied messages rfl
      dsimp only
      cases hresult : result.description with
      | none =>
          exact app.ends_pure (well_spoken_messages hsaid
            (by rw [result_texts_messages, List.append_nil]) (by simp))
      | some text =>
          have hhanded := (hdescription text hresult).mono hcalls₁
          refine app.ends_bind (filter_ends env req.method text st₁) ?_
          rintro st₂ filtered ⟨hcalls₂, hfiltered⟩
          cases filtered with
          | none => exact app.ends_pure (well_spoken_of_err rfl)
          | some bytes =>
              refine app.ends_pure (well_spoken_messages (hsaid.mono hcalls₂)
                (result_texts_description messages bytes) ?_)
              intro t ht
              rw [List.mem_singleton.mp ht]
              exact (hfiltered bytes rfl).spoken (hhanded.mono hcalls₂)

/-- What a prompt's handler returned is what goes into the filter. -/
theorem prompts_get_ends (s : server) :
    (prompts_get s env req).ends st fun st' reply =>
      well_spoken env req.method st'.calls reply := by
  unfold prompts_get
  split
  · exact app.ends_pure (well_spoken_of_err rfl)
  split
  · exact app.ends_pure (well_spoken_of_err rfl)
  split
  · exact app.ends_pure (well_spoken_of_err rfl)
  split
  · exact app.ends_pure (well_spoken_of_err rfl)
  refine app.ends_bind (app.ends_call _ _ _) ?_
  rintro st' result ⟨hmade, hanswer⟩
  cases result with
  | error err => exact app.ends_pure (well_spoken_of_err rfl)
  | ok result =>
      refine prompt_handled_ends result ?_ ?_
      · intro message hmessage
        refine .inr ⟨_, hmade, ?_⟩
        simp only [call_texts, hanswer, List.mem_append, List.mem_map]
        exact .inl ⟨message, hmessage, rfl⟩
      · intro text htext
        refine .inr ⟨_, hmade, ?_⟩
        simp only [call_texts, hanswer, List.mem_append, Option.mem_toList]
        exact .inr htext

/-! ### Resources

A resource has one content with one text. Its URI and its media type are the registered ones,
not the handler's. -/

theorem result_texts_contents (items : List json) :
    result_texts (json.object_of [("contents", .array items)]) =
      items.flatMap (·.text_at "text") := by
  simp [result_texts, json.object_of, json.set, json.insert_member, json.elements_at,
    json.text_at, json.find?, List.lookup_cons]

/-- The text of a resource's content, with a MIME type or without. -/
theorem text_at_resource (uri : String) (text : List UInt8) (mimeType : Option String) :
    (match mimeType with
      | some mimeType => (json.object_of [("uri", .string uri), ("text", text_value text)]).set
          "mimeType" (.string mimeType)
      | none => json.object_of [("uri", .string uri), ("text", text_value text)]).text_at "text" =
      [(utf8 text).getD ""] := by
  have hobject : (json.object_of [("uri", .string uri), ("text", text_value text)]).is_object =
      true := by
    change (((json.object []).set "uri" (.string uri)).set "text" (text_value text)).is_object = _
    exact json.is_object_set _ _ _
  have hcontent : (json.object_of [("uri", .string uri), ("text", text_value text)]).text_at
      "text" = [(utf8 text).getD ""] := by
    change (((json.object []).set "uri" (.string uri)).set "text" (text_value text)).text_at
      "text" = _
    rw [json.text_at, json.find?_set_of_object (json.is_object_set _ _ _), if_pos rfl]
    rfl
  cases mimeType with
  | none => exact hcontent
  | some mimeType => exact (text_at_set hobject _ (by decide)).trans hcontent

/-- What a resource's handler returned is what goes into the filter. -/
theorem resources_read_ends (s : server) :
    (resources_read s env req).ends st fun st' reply =>
      well_spoken env req.method st'.calls reply := by
  unfold resources_read
  split
  · exact app.ends_pure (well_spoken_of_err rfl)
  split
  · exact app.ends_pure (well_spoken_of_err rfl)
  rename_i descriptor _
  refine app.ends_bind (app.ends_call _ _ _) ?_
  rintro st' result ⟨hmade, hanswer⟩
  cases result with
  | error err => exact app.ends_pure (well_spoken_of_err rfl)
  | ok result =>
      refine app.ends_bind (filter_ends env req.method result.text st') ?_
      rintro st'' filtered ⟨hcalls, hsaid⟩
      cases filtered with
      | none => exact app.ends_pure (well_spoken_of_err rfl)
      | some bytes =>
          -- the text is one the handler returned, in the call made above
          have hhanded : handed env st''.calls result.text := by
            refine .inr ⟨_, hcalls.subset hmade, ?_⟩
            simp [call_texts, hanswer]
          refine app.ends_pure ?_
          intro text htext
          rw [frame_texts_of_result rfl rfl] at htext
          rw [result_texts_contents, List.flatMap_singleton] at htext
          have hsame : text ∈ [(utf8 bytes).getD ""] := by
            rw [← text_at_resource descriptor.uri bytes descriptor.mimeType]
            exact htext
          rw [List.mem_singleton.mp hsame]
          exact .inr ((hsaid bytes rfl).spoken hhanded)

/-! ### Any request

The lists show descriptors and no text of a callback; an unknown method has an error. With the
three methods before, these are all there are. -/

/-- A list has none of the members in which a text could be. -/
theorem well_spoken_list {operation : String} {calls : List application_call} {key : String}
    (invalid : String) (items : List json) (hcontent : "content" ≠ key)
    (hcontents : "contents" ≠ key) (hmessages : "messages" ≠ key)
    (hdescription : "description" ≠ key) :
    well_spoken env operation calls (list_reply req key invalid items) := by
  intro text htext
  rw [frame_texts_list req invalid items hcontent hcontents hmessages hdescription] at htext
  cases htext

/-- Every request that returns is answered with texts that were let through, or stand for a
rejection. -/
theorem application_ends (s : server) :
    (application s env req).ends st fun st' reply =>
      well_spoken env req.method st'.calls reply := by
  unfold application
  split
  · exact app.ends_pure
      (well_spoken_list _ _ (by decide) (by decide) (by decide) (by decide))
  split
  · exact tools_call_ends s
  split
  · exact app.ends_pure
      (well_spoken_list _ _ (by decide) (by decide) (by decide) (by decide))
  split
  · exact prompts_get_ends s
  split
  · exact app.ends_pure
      (well_spoken_list _ _ (by decide) (by decide) (by decide) (by decide))
  split
  · exact app.ends_pure
      (well_spoken_list _ _ (by decide) (by decide) (by decide) (by decide))
  split
  · exact resources_read_ends s
  · exact app.ends_pure (well_spoken_of_err rfl)

end Replies

/-! ## What is passed on

The worker's reply goes through `emit`, which may replace it by one that fits the frame limit:
then the texts are gone, but for the one that stands for a rejection. The frames that the reader
makes, and those for a full queue, are made without the application. -/

section Passed

variable {env : application_answers} {req : request} {st : application_state} {s : server}

/-- The same with the catch around it: what is thrown becomes the internal error, which has no
text of the application. -/
theorem invocation_spoken (s : server) (env : application_answers) (req : request)
    (st : application_state) :
    well_spoken env req.method (invocation s env req st).1.calls (invocation s env req st).2 := by
  unfold invocation
  cases hrun : application s env req st with
  | mk st' outcome =>
      cases outcome with
      | returned reply => exact application_ends s st' reply hrun
      | threw => exact well_spoken_of_err rfl

/-- What `emit` passes on has the texts of the reply, or none, or the rejection. -/
theorem emit_texts {a : emit_answers} {reply : response} {method : String} {wire : json}
    (h : (emit a reply method).1 = some wire) :
    wire = reply.to_json ∨ frame_texts wire = [] ∨
      (method = "tools/call" ∧ frame_texts wire = [rejection_text]) := by
  have hreplaced : ∀ wire', wire' = (replacement reply method).to_json →
      frame_texts wire' = [] ∨
        (method = "tools/call" ∧ frame_texts wire' = [rejection_text]) := by
    rintro wire' rfl
    unfold replacement
    by_cases htool : (method = "tools/call" && reply.result.isSome) = true
    · rw [if_pos htool]
      rw [Bool.and_eq_true, decide_eq_true_eq] at htool
      exact .inr ⟨htool.1, frame_texts_tool_failure _⟩
    · rw [if_neg htool]
      exact .inl (frame_texts_of_err rfl)
  rcases emit_cases a reply method with ⟨-, heq⟩ | heq | heq | heq
  · rw [heq] at h
    cases h
  · rw [heq] at h
    cases h
  · rw [heq] at h
    exact .inl (Option.some.inj h).symm
  · rw [heq] at h
    exact .inr (hreplaced wire (Option.some.inj h).symm)

/-- The texts of a frame the worker passes on. A reply that was replaced has none or that of the
rejection, any other has what the hook of this run returned. -/
theorem emitted_spoken {a : emit_answers} {wire : json}
    (h : (emit a (invocation s env req st).2 req.method).1 = some wire) :
    ∀ text ∈ frame_texts wire, text = rejection_text ∨
      spoken env req.method (invocation s env req st).1.calls text := by
  intro text htext
  rcases emit_texts h with rfl | hnone | ⟨-, hrejected⟩
  · exact invocation_spoken s env req st text htext
  · rw [hnone] at htext
    cases htext
  · rw [hrejected] at htext
    exact .inl (List.mem_singleton.mp htext)

/-- A reply without texts of the application stays without them, except that a tool's
result may be replaced. -/
theorem emitted_quiet {a : emit_answers} {origin : frame_origin} {reply : response}
    {method : String} {f : frame} (hreply : frame_texts reply.to_json = [])
    (hmethod : method ≠ "tools/call") (h : f ∈ emitted a origin reply method) :
    frame_texts f.wire = [] := by
  rw [emitted, Option.mem_toList, Option.map_eq_some_iff] at h
  obtain ⟨wire, hwire, rfl⟩ := h
  rcases emit_texts hwire with rfl | hnone | ⟨htool, -⟩
  · exact hreply
  · exact hnone
  · exact absurd htool hmethod

/-! ### The reader's own frames

The reader answers `ping`, `initialize` and what it cannot admit. The result of `initialize` is
the one of these with members of its own, and they are names and versions. -/

/-- The result of `initialize` has no text of the application. -/
theorem initialize_frame_texts (s : server) (req : request) :
    frame_texts (s.initialize_session req).2.to_json = [] := by
  unfold server.initialize_session
  split
  · exact frame_texts_of_err rfl
  split
  · exact frame_texts_of_err rfl
  rw [frame_texts_of_result rfl rfl]
  change result_texts ((((json.object []).set "protocolVersion" _).set "capabilities" _).set
    "serverInfo" _) = []
  rw [result_texts_set (json.is_object_set _ _ _) _ (by decide) (by decide) (by decide)
      (by decide),
    result_texts_set (json.is_object_set _ _ _) _ (by decide) (by decide) (by decide)
      (by decide),
    result_texts_set rfl _ (by decide) (by decide) (by decide) (by decide)]
  rfl

/-- The reader passes on no text of the application: the section that receives a text answers
with an error, with a pong or with the result of `initialize`. -/
theorem received_texts {a : emit_answers} {wire : json} {f : frame}
    (h : f ∈ (s.receive a wire).frames) : frame_texts f.wire = [] := by
  unfold server.receive at h
  -- the splits follow `receive`: what does not decode, notifications, requests, responses
  split at h
  · rename_i diagnostic hdecode
    have herr : diagnostic = decode_failure wire := decode_failure_of_error hdecode
    split at h
    · cases h
    split at h
    · refine emitted_quiet ?_ (by decide) h
      rw [herr]
      exact frame_texts_of_err rfl
    · cases h
  · rename_i note _
    unfold server.notify at h
    split at h
    · cases h
    split at h
    · split at h <;> cases h
    split at h
    · split at h
      · cases h
      · split at h <;> cases h
    · cases h
  · rename_i req _
    -- a request the reader answers itself: an error, the ping, or `initialize`
    unfold server.dispatch at h
    split at h
    · cases h
    split at h
    · exact emitted_quiet (frame_texts_of_err rfl) (by decide) h
    split at h
    · refine emitted_quiet ?_ (by decide) h
      rw [frame_texts_of_result rfl rfl]
      rfl
    split at h
    · exact emitted_quiet (initialize_frame_texts s req) (by decide) h
    split at h
    · exact emitted_quiet (frame_texts_of_err rfl) (by decide) h
    · cases h
  · cases h

end Passed

/-! ## Frames of a session

In a run of the server the outcome of `application()` is an answer of the environment, and may
be any reply. `applies` restricts the runs to those in which it is what the source's own
function comes to, with some answers of what lies outside it. Whether there is a hook is the one
thing of these that stays the same in a run, as the options are set by the constructor. -/

section Session

/-- The answers of the environment to one request; a hook is set, or not, with the server. -/
def configured_answers (configured : Bool) (env : application_answers) : Prop :=
  env.filter_output.isSome = configured

/-- A run in which `application()` answers as the server's own code does. What the
environment answers, and what is left in the bucket, may be anything each time. -/
def applies (configured : Bool) (w : world) : server_action → Prop
  | .application outcome => ∀ item, w.run.worker = .calling item →
      ∃ env p, configured_answers configured env ∧
        outcome = match (application w.server env item.call.req ⟨p, []⟩).2 with
          | .returned reply => some reply
          | .threw => none
  | _ => True

/-! ### The record of the invocations

A run of the server does not keep what `application()` was asked and answered, so the record is
added: one entry for each invocation, put down when the worker calls it. The record decides
nothing. Every run of the server in which the application answers as its code does has one, and
taking the record away gives such a run again. -/

/-- An invocation of `application()` in a run: the operation the worker called it for, the
request, the server and the bucket it found, and what it met outside the SDK. -/
structure invocation_made where
  op : Nat
  req : request
  server : server
  policy_ : server_policy
  answers : application_answers

namespace invocation_made

variable (i : invocation_made)

/-- The callbacks it made. -/
def calls : List application_call :=
  (invocation i.server i.answers i.req ⟨i.policy_, []⟩).1.calls

/-- The reply it came to, by way of the catch if it threw. -/
def reply : response := (invocation i.server i.answers i.req ⟨i.policy_, []⟩).2

/-- The reply, unless it threw. -/
def outcome : Option response :=
  match (application i.server i.answers i.req ⟨i.policy_, []⟩).2 with
  | .returned reply => some reply
  | .threw => none

theorem outcome_reply : i.outcome.getD (internal_error i.req) = i.reply := by
  unfold outcome reply invocation
  cases application i.server i.answers i.req ⟨i.policy_, []⟩ with
  | mk st answer => cases answer <;> rfl

end invocation_made

/-- What a step adds to the record. -/
def invokes (configured : Bool) (w : world) (before after : List invocation_made) :
    server_action → Prop
  | .application outcome => ∃ item i, w.run.worker = .calling item ∧ i.op = item.call.op ∧
      i.req = item.call.req ∧ i.server = w.server ∧ configured_answers configured i.answers ∧
      outcome = i.outcome ∧ after = before ++ [i]
  | _ => after = before

/-- The runs of a server with the record of what `application()` was called with. -/
def application_runs (limit : Nat) (configured : Bool) :
    System (world × List invocation_made) server_action where
  init s := (server_runs limit).init s.1 ∧ s.2 = []
  step s a t := world.Step s.1 a t.1 ∧ invokes configured s.1 s.2 t.2 a

/-- A step that is put down is one in which the application answered as its code does. -/
theorem applies_of_invokes {configured : Bool} {w : world} {a : server_action}
    {before after : List invocation_made} (h : invokes configured w before after a) :
    applies configured w a := by
  cases a with
  | application outcome =>
      obtain ⟨item, i, hworker, -, hreq, hserver, hconfigured, rfl, -⟩ := h
      intro item' hworker'
      obtain rfl := worker_at.calling.inj (hworker.symm.trans hworker')
      refine ⟨i.answers, i.policy_, hconfigured, ?_⟩
      rw [← hreq, ← hserver]
      rfl
  | _ => trivial

/-- What was asked and answered in a step can be put down. -/
theorem invokes_of_applies {configured : Bool} {w t : world} {a : server_action}
    (h : applies configured w a) (hstep : world.Step w a t) (before : List invocation_made) :
    ∃ after, invokes configured w before after a := by
  cases a with
  | application outcome =>
      cases hstep with
      | @application item _ hworker hcall =>
          obtain ⟨env, p, hconfigured, houtcome⟩ := h item hworker
          exact ⟨_, item, ⟨item.call.op, item.call.req, w.server, p, env⟩, hworker, rfl, rfl,
            rfl, hconfigured, houtcome, rfl⟩
  | _ => exact ⟨before, rfl⟩

/-- A run of these is a run of the server whose application answers as its code does. -/
theorem application_runs_session {limit : Nat} {configured : Bool}
    {s : world × List invocation_made} (h : (application_runs limit configured).Reachable s) :
    ((server_runs limit).restrict (applies configured)).Reachable s.1 := by
  refine h.invariant
    (P := fun s => ((server_runs limit).restrict (applies configured)).Reachable s.1) ?_ ?_
  · intro s hs
    exact .of_init hs.1
  · intro s a t _ hs hstep
    exact hs.step ⟨applies_of_invokes hstep.2, hstep.1⟩

/-- And every such run has its record, since an entry can be put down for each invocation when
it is made. -/
theorem session_recorded {limit : Nat} {configured : Bool} {w : world}
    (h : ((server_runs limit).restrict (applies configured)).Reachable w) :
    ∃ made, (application_runs limit configured).Reachable (w, made) := by
  refine h.invariant (P := fun w => ∃ made, (application_runs limit configured).Reachable
    (w, made)) ?_ ?_
  · intro w hw
    exact ⟨[], .of_init ⟨hw, rfl⟩⟩
  · rintro w a t - ⟨made, hmade⟩ ⟨happlies, hstep⟩
    obtain ⟨made', hinvokes⟩ := invokes_of_applies happlies hstep made
    exact ⟨made', hmade.step (t := (t, made')) ⟨hstep, hinvokes⟩⟩

/-! ### What a session keeps

A frame that goes out has been made some steps before: the worker called `application()`, held
its reply, and then passed it on. The invariant therefore speaks of the places in between. A
reply in the worker's hands is the reply of a recorded invocation, a request that is queued or
in hand was admitted under its operation, and each frame that is out has one of these as its
source. -/

/-- The reply of an invocation of the run, made for this operation with this request. -/
def invoked (made : List invocation_made) (op : Nat) (req : request) (reply : response) : Prop :=
  ∃ i ∈ made, i.op = op ∧ i.req = req ∧ reply = i.reply

/-- The reader admitted the request as `op` when it received it. -/
def listed (log : List server_event) (req : request) (op : Nat) : Prop :=
  ∃ wire p, decode_message wire = .ok (.request req) ∧
    [.received wire p, .admitted op] <:+: log

/-- A request that was admitted stays so. -/
theorem listed.mono {log : List server_event} {req : request} {op : Nat} (h : listed log req op)
    (more : List server_event) : listed (log ++ more) req op := by
  obtain ⟨wire, p, hdecode, hlog⟩ := h
  exact ⟨wire, p, hdecode, hlog.trans (List.prefix_append log more).isInfix⟩

/-- A frame without a text of the application, or the reply of an invocation of the run as
`emit` passed it on for the request the operation was made for. -/
def frame_source (made : List invocation_made) (log : List server_event) (f : frame) : Prop :=
  frame_texts f.wire = [] ∨
    ∃ i ∈ made, ∃ a, f.origin = .worker i.op ∧ listed log i.req i.op ∧
      (emit a i.reply i.req.method).1 = some f.wire

/-- What holds of a session all along. -/
structure world.spoken (configured : Bool) (made : List invocation_made) (w : world) :
    Prop where
  configured : ∀ i ∈ made, configured_answers configured i.answers
  reader : ∀ req op, w.reader = .enqueueing req op → listed w.log req op
  works : ∀ item ∈ queued_works w.run, listed w.log item.call.req item.call.op
  replying : ∀ item reply, w.run.worker = .calling item → w.call = .replying reply →
    invoked made item.call.op item.call.req reply
  frames : ∀ f ∈ w.frames, frame_source made w.log f

variable {configured : Bool} {made made' : List invocation_made} {w t : world}
variable {a : server_action}

/-- Nothing is taken out of the record. -/
theorem invokes.kept (h : invokes configured w made made' a) : made ⊆ made' := by
  cases a with
  | application outcome =>
      obtain ⟨-, -, -, -, -, -, -, -, rfl⟩ := h
      exact List.subset_append_left _ _
  | _ => exact (show made' = made from h) ▸ List.Subset.refl _

/-- What is new in the record met a hook if one is set. -/
theorem invokes.met_hook (h : invokes configured w made made' a)
    (hmade : ∀ i ∈ made, configured_answers configured i.answers) :
    ∀ i ∈ made', configured_answers configured i.answers := by
  cases a with
  | application outcome =>
      obtain ⟨-, i, -, -, -, -, hconfigured, -, rfl⟩ := h
      intro j hj
      rcases List.mem_append.mp hj with hj | hj
      · exact hmade j hj
      · exact List.mem_singleton.mp hj ▸ hconfigured
  | _ => exact (show made' = made from h) ▸ hmade

/-- The worker is left with the reply of the invocation it just made. -/
theorem invokes.invoked {outcome : Option response} {item : work closure}
    (h : invokes configured w made made' (.application outcome))
    (hworker : w.run.worker = .calling item) :
    invoked made' item.call.op item.call.req (outcome.getD (internal_error item.call.req)) := by
  obtain ⟨item', i, hworker', hop, hreq, -, -, rfl, rfl⟩ := h
  obtain rfl := worker_at.calling.inj (hworker'.symm.trans hworker)
  refine ⟨i, List.mem_append_right _ (List.mem_singleton_self i), hop, hreq, ?_⟩
  rw [← hreq, i.outcome_reply]

/-- The source of a frame is there in every later state. -/
theorem frame_source.mono {log : List server_event} {f : frame} (h : frame_source made log f)
    (hmade : made ⊆ made') (more : List server_event) :
    frame_source made' (log ++ more) f := by
  refine h.imp_right ?_
  rintro ⟨i, hi, answers, horigin, hlisted, hemit⟩
  exact ⟨i, hmade hi, answers, horigin, hlisted.mono more, hemit⟩

/-! ### Where replies and frames come from

Four facts about one step, each for one of these places: who comes to hold a reply, who comes to
hold a request, what a guarded `emit` lets out, and where a new frame is from. The step lemma of
the invariant puts them together and looks at no rule by itself. -/

/-- The worker comes to a reply through `application()` only: either it had this reply before
the step, or the step is the end of that call and the reply is its outcome. -/
theorem world.Step.replying (hstep : world.Step w a t) {item : work closure} {reply : response}
    (hworker : t.run.worker = .calling item) (hcall : t.call = .replying reply) :
    (w.run.worker = .calling item ∧ w.call = .replying reply) ∨
      ∃ outcome, a = .application outcome ∧ w.run.worker = .calling item ∧
        reply = outcome.getD (internal_error item.call.req) := by
  cases hstep with
  | enqueue hreader =>
      rw [runtime.enqueue_worker] at hworker
      exact .inl ⟨hworker, hcall⟩
  | cancel hreader =>
      rw [cancel_worker] at hworker
      exact .inl ⟨hworker, hcall⟩
  | application outcome hcalling happlying =>
      obtain rfl := worker_at.calling.inj (hcalling.symm.trans hworker)
      exact .inr ⟨outcome, rfl, hcalling, (call_at.replying.inj hcall).symm⟩
  | dequeue | reset_active | release_shared | leave_loop | finish => cases hworker
  | invoke | apply | skip | respond | respond_failed | call_stopped | finish_call |
      release_last | call_completes => cases hcall
  | _ => exact .inl ⟨hworker, hcall⟩

/-- The reader comes to hold a request by receiving it. -/
theorem received_enqueues {s : server} {answers : emit_answers} {wire : json} {r : section_result}
    (h : server.received s answers wire r) {req : request} {op : Nat}
    (hnext : r.next = .enqueue req op) :
    decode_message wire = .ok (.request req) ∧ r.frames = [] := by
  cases h with
  | admitted req' hdecode =>
      cases hnext
      exact ⟨hdecode, rfl⟩
  | replied reply method =>
      unfold server.reply at hnext
      split at hnext <;> cases hnext
  | negotiated req' =>
      unfold server.reply at hnext
      split at hnext <;> cases hnext
  | duplicate req' op' hdecode hserving hopen hmem hsame s' hs' =>
      subst hs'
      split at hnext <;> cases hnext
  | ignored | ready | cancelled => cases hnext

/-- A request that the reader is about to enqueue has been listed. -/
theorem world.Step.lists (hstep : world.Step w a t) {req : request} {op : Nat}
    (h : t.reader = .enqueueing req op) :
    w.reader = .enqueueing req op ∨ listed t.log req op := by
  rcases hstep.reader_cases with
    hsame | hquiet | ⟨answers, wire, -, -, -, hafter, hlog⟩ | ⟨req', op', -, -, hafter, -⟩
  · exact .inl (hsame.symm.trans h)
  · rw [h] at hquiet
    exact hquiet.elim
  · right
    have hnext : (w.server.receive answers wire).next = .enqueue req op := by
      rw [h] at hafter
      cases hnext : (w.server.receive answers wire).next with
      | enqueue req' op' =>
          rw [hnext] at hafter
          cases hafter
          rfl
      | done | stop | cancel =>
          rw [hnext] at hafter
          cases hafter
    obtain ⟨hdecode, hframes⟩ := received_enqueues (w.server.receive_received answers wire) hnext
    refine ⟨wire, w.server.protocol_, hdecode, ?_⟩
    rw [hlog, section_result.events, hframes, hnext]
    exact (List.suffix_append _ _).isInfix
  · rw [h] at hafter
    split at hafter <;> cases hafter

/-- A guarded `emit` passes on what `emit` does, or nothing. -/
theorem answer_source {s : server} {answers : emit_answers} {origin : frame_origin} {op : Nat}
    {reply : response} {method : String} {f : frame} {log : List server_event}
    (hreply : ∀ wire, (emit answers reply method).1 = some wire →
      frame_source made log ⟨origin, wire, answers.send = .accepted⟩)
    (hf : f ∈ (s.answer answers origin op reply method).1) : frame_source made log f := by
  unfold server.answer at hf
  split at hf
  · rw [emitted, Option.mem_toList, Option.map_eq_some_iff] at hf
    obtain ⟨wire, hwire, rfl⟩ := hf
    exact hreply wire hwire
  · cases hf

/-- Where a frame of the state after comes from: it was there before, the reader passed it on,
or it is the refusal of a full queue, or the reply the worker emits. -/
theorem world.Step.frame_cases (hstep : world.Step w a t) {f : frame} (hf : f ∈ t.frames) :
    f ∈ w.frames ∨ (∃ answers wire, f ∈ (w.server.receive answers wire).frames) ∨
      (∃ (req : request) (op : Nat) (answers : emit_answers),
        f ∈ (w.server.answer answers (.rejection op) op (queue_full_reply req.id) "").1) ∨
      ∃ item reply answers, w.run.worker = .calling item ∧ w.call = .replying reply ∧
        f ∈ (w.server.answer answers (.worker item.call.op) item.call.op reply
          item.call.req.method).1 := by
  have hold : ∀ more : List server_event, f ∈ frames_of (w.log ++ more) →
      f ∈ w.frames ∨ f ∈ frames_of more := by
    intro more h
    rw [frames_of_append] at h
    exact List.mem_append.mp h
  rcases hstep.log_cases with
    hlog | ⟨answers, wire, -, -, -, hlog⟩ | ⟨req, op, -, -, hlog⟩ |
      ⟨req, op, answers, -, -, hlog⟩ | ⟨op, -, -, hlog⟩ | ⟨item, -, -, -, -, hlog⟩ |
      ⟨item, reply, answers, -, hworker, hcall, -, hlog⟩
  -- one goal for each way the step can write to the log
  all_goals rw [world.frames, hlog] at hf
  · exact .inl hf
  all_goals
    refine (hold _ hf).imp_right fun hnew => ?_
  · rcases mem_events (mem_frames.mp hnew) with hreceived | ⟨f', hf', hpassed⟩ | ⟨_, _, -, hop⟩
    · cases hreceived
    · cases hpassed
      exact .inl ⟨answers, wire, hf'⟩
    · cases hop
  · cases hnew
  · rw [frames_of_passed] at hnew
    exact .inr (.inl ⟨req, op, answers, hnew⟩)
  · cases hnew
  · cases hnew
  · rw [frames_of_passed] at hnew
    exact .inr (.inr ⟨item, reply, answers, hworker, hcall, hnew⟩)

/-- What one step adds comes from the reader, the full queue or the worker. -/
theorem world.spoken.step (h : w.spoken configured made)
    (hinvokes : invokes configured w made made' a) (hstep : world.Step w a t) :
    t.spoken configured made' := by
  obtain ⟨more, hlog⟩ := hstep.log_grows
  constructor
  · exact hinvokes.met_hook h.configured
  -- a request the reader holds was listed when it was received
  · intro req op hreader
    rcases hstep.lists hreader with hbefore | hlisted
    · rw [hlog]
      exact (h.reader req op hbefore).mono more
    · exact hlisted
  · intro item hitem
    rw [hlog]
    apply listed.mono
    -- the queue gets its works from the reader; the worker's steps add none
    rcases hstep.run_cases with hrun | ⟨req, op, hreader, hrun⟩ | ⟨b, hno, -, hcore⟩
    · rw [hrun] at hitem
      exact h.works item hitem
    · rw [hrun] at hitem
      rcases queued_works_enqueue w.run req.id ⟨req, op⟩ item hitem with hitem | ⟨-, hcall⟩
      · exact h.works item hitem
      · rw [hcall]
        exact h.reader req op hreader
    · exact h.works item (queued_works_step hno hcore item hitem)
  -- a reply the worker holds is that of the handler call it has just made
  · intro item reply hworker hcall
    rcases hstep.replying hworker hcall with ⟨hbefore, hbefore'⟩ | ⟨outcome, rfl, hat, rfl⟩
    · obtain ⟨i, hi, hof⟩ := h.replying item reply hbefore hbefore'
      exact ⟨i, hinvokes.kept hi, hof⟩
    · exact hinvokes.invoked hat
  · intro f hf
    rcases hstep.frame_cases hf with
      hbefore | ⟨answers, wire, hf⟩ | ⟨req, op, answers, hf⟩ |
        ⟨item, reply, answers, hworker, hcall, hf⟩
    · rw [hlog]
      exact (h.frames f hbefore).mono hinvokes.kept more
    · exact .inl (received_texts hf)
    -- the diagnostic of a full queue has no text of the application
    · refine answer_source (fun wire hwire => ?_) hf
      rcases emit_texts hwire with rfl | hnone | ⟨htool, -⟩
      · exact .inl (@frame_texts_of_err (queue_full_reply req.id) _ rfl)
      · exact .inl hnone
      · exact absurd htool (by decide)
    -- the worker's reply: the texts are those of its handler call
    · refine answer_source (fun wire hwire => .inr ?_) hf
      obtain ⟨i, hi, hop, hreq, rfl⟩ := h.replying item reply hworker hcall
      rw [← hreq] at hwire
      refine ⟨i, hinvokes.kept hi, answers, congrArg frame_origin.worker hop.symm, ?_, hwire⟩
      rw [hlog, hop, hreq]
      apply listed.mono
      apply h.works
      simp [queued_works, hworker]

/-- In every reachable state every frame with a text has its source in the record. -/
theorem application_spoken {limit : Nat}
    (h : (application_runs limit configured).Reachable (w, made)) :
    w.spoken configured made := by
  refine h.invariant (P := fun s => s.1.spoken configured s.2) ?_ ?_
  · rintro ⟨w, made⟩ ⟨⟨hlimit, info, resources, prompts, tools, rfl⟩, rfl⟩
    refine ⟨fun _ hi => (by cases hi), fun _ _ hreader => (by cases hreader),
      fun item hitem => ?_, fun _ _ _ hcall => (by cases hcall), fun _ hf => (by cases hf)⟩
    have hne : limit ≠ 0 := by omega
    simp [queued_works, runtime.make, owned_executor.make, hne] at hitem
  · intro s a t _ hspoken hstep
    exact hspoken.step hstep.2 hstep.1

/-- Whatever the record of a run is, it has one. -/
theorem session_spoken {limit : Nat} {w : world}
    (h : ((server_runs limit).restrict (applies configured)).Reachable w) :
    ∃ made, w.spoken configured made := by
  obtain ⟨made, hmade⟩ := session_recorded h
  exact ⟨made, application_spoken hmade⟩

end Session

/-! ### The claim of every reply

An invocation is looked at alone first, for whatever it meets. Then it is placed in a run: the
environment in the statement is the one the run's record has for that operation, so the hook
that let a text out is the hook this server called, in this call. -/

/-- Every text of an answer `emit` passes on is clean. It stands for a rejected output, or
it was let out by the filter for what a handler, or the check of the arguments, said. -/
theorem emitted_clean {s : server} {env : application_answers} {req : request}
    {st : application_state} {a : emit_answers} {wire : json}
    (h : (emit a (invocation s env req st).2 req.method).1 = some wire) :
    ∀ text ∈ frame_texts wire, clean_text text ∧ (text = rejection_text ∨
      spoken env req.method (invocation s env req st).1.calls text) := by
  intro text htext
  rcases emitted_spoken h text htext with rfl | hspoken
  · exact ⟨clean_rejection, .inl rfl⟩
  · obtain ⟨input, bytes, hinput, hsaid, hbytes⟩ := hspoken
    exact ⟨clean_text_of_valid hbytes hsaid.valid, .inr ⟨input, bytes, hinput, hsaid, hbytes⟩⟩

/-- Whatever an invocation meets, every text of what is passed on for it is clean, and it is the
text for a rejected output, or one the filter let out: where a hook is set, a value that hook
returned in this invocation, asked for this method.

So it is in every run, with the invocations of the run and the hooks they met: a frame with a
text answers a request the reader admitted, and the text comes from the invocation the worker
made for it. -/
theorem application_texts :
    (∀ (s : server) (env : application_answers) (req : request) (st : application_state)
      (a : emit_answers) (wire : json),
      (emit a (invocation s env req st).2 req.method).1 = some wire →
      ∀ text ∈ frame_texts wire, clean_text text ∧ (text = rejection_text ∨
        spoken env req.method (invocation s env req st).1.calls text)) ∧
    ∀ (limit : Nat) (configured : Bool) (w : world) (made : List invocation_made),
      (application_runs limit configured).Reachable (w, made) →
      ∀ f ∈ w.frames, ∀ text ∈ frame_texts f.wire, clean_text text ∧
        ∃ i ∈ made, ∃ a, configured_answers configured i.answers ∧ f.origin = .worker i.op ∧
          listed w.log i.req i.op ∧ (emit a i.reply i.req.method).1 = some f.wire ∧
          (text = rejection_text ∨ spoken i.answers i.req.method i.calls text) := by
  refine ⟨fun s env req st a wire => emitted_clean, fun limit configured w made h => ?_⟩
  intro f hf text htext
  have hspoken := application_spoken h
  rcases hspoken.frames f hf with hnone | ⟨i, hi, a, horigin, hlisted, hemit⟩
  · rw [hnone] at htext
    cases htext
  · obtain ⟨hclean, hfrom⟩ := emitted_clean hemit text htext
    exact ⟨hclean, i, hi, a, hspoken.configured i hi, horigin, hlisted, hemit, hfrom⟩

namespace session

/-- A call of a tool, as it comes in. -/
def call_echo : json :=
  json.object_of
    [("jsonrpc", .string "2.0"), ("id", .number_unsigned 1), ("method", .string "tools/call"),
      ("params", .object [("name", .string "echo")])]

/-- The tool says one thing, and the hook says another. -/
def overridden : application_answers :=
  { echo_answers with
    tool := fun _ _ => .returned (.ok ⟨bytes_of "said"⟩)
    filter_output := some fun _ _ _ => .returned (.ok (bytes_of "heard")) }

def heard : response := tool_reply echo_call (bytes_of "heard") false

/-- The session of a server with the tool, after the handshake. -/
def echo_ready : server :=
  { server.started {} [] [] one_tool.tools_ with protocol_ := .ready }

def echo_opened : world := ⟨.started {} [] [] one_tool.tools_, .make 1, .idle, .outside, [], []⟩

def echo_welcome : response where
  id := .uint64 0
  result := some echo_opened.server.initialize_result
  err := none

def echo_handshaken : world :=
  { echo_opened with
    server := echo_ready
    log :=
      [.received hello .await_initialize_, .passed ⟨.received hello, echo_welcome.to_json, true⟩,
        .received ready_note .await_initialized] }

/-- The call is listed, queued, and with the worker. -/
def echo_listed : world :=
  { echo_handshaken with
    server := { echo_ready with operations := [⟨.uint64 1, false⟩], inflight_ := [0] }
    reader := .enqueueing echo_call 0
    log := echo_handshaken.log ++ [.received call_echo .ready, .admitted 0] }

def echo_work : work closure := ⟨0, .uint64 1, ⟨echo_call, 0⟩⟩

def echo_applying : world :=
  { echo_listed with
    run :=
      ((((runtime.make 1).enqueue (.uint64 1) (some ⟨echo_call, 0⟩)).1.dequeue echo_work
        ⟨1, [], some echo_work, false, false⟩).invoke echo_work)
    reader := .idle
    call := .applying
    log := echo_listed.log ++ [.answered 0 none 0] ++ [.applied 0] }

/-- The reply is made and passed on. -/
def echo_replied : world :=
  { echo_applying with
    call := .finished
    log := echo_applying.log ++ [.passed ⟨.worker 0, heard.to_json, true⟩] }

/-- The one invocation, with the hook that has the last word. -/
def echo_made : invocation_made := ⟨0, echo_call, echo_applying.server, .make 1 1, overridden⟩

/-- The handshake, the call, and the worker on its way to the tool. -/
theorem reaches_echo_applying :
    (application_runs 1 true).Reachable (echo_applying, []) := by
  have h0 : (application_runs 1 true).Reachable (echo_opened, []) :=
    .of_init ⟨⟨by decide, {}, [], [], one_tool.tools_, rfl⟩, rfl⟩
  have hquiet : ∀ {w t : world} {a : server_action},
      (application_runs 1 true).Reachable (w, []) → world.Step w a t →
      invokes true w [] [] a → (application_runs 1 true).Reachable (t, []) :=
    fun {w t a} h hstep hrecord => h.step (a := a) (t := (t, [])) ⟨hstep, hrecord⟩
  have h1 := hquiet h0 (.deliver hello rfl) rfl
  have h2 : (application_runs 1 true).Reachable
      ({ echo_opened with
          server := { echo_ready with protocol_ := .await_initialized }
          log := [.received hello .await_initialize_,
            .passed ⟨.received hello, echo_welcome.to_json, true⟩] }, []) :=
    hquiet h1 (@world.Step.receive _ hello calm rfl) rfl
  have h3 := hquiet h2 (.deliver ready_note rfl) rfl
  have h4 : (application_runs 1 true).Reachable (echo_handshaken, []) :=
    hquiet h3 (@world.Step.receive _ ready_note calm rfl) rfl
  have h5 := hquiet h4 (.deliver call_echo rfl) rfl
  have h6 : (application_runs 1 true).Reachable (echo_listed, []) :=
    hquiet h5 (@world.Step.receive _ call_echo calm rfl) rfl
  have h7 := hquiet h6 (@world.Step.enqueue _ echo_call 0 rfl) rfl
  have h8 := hquiet h7 (@world.Step.leave_shared _ 0 false rfl (by decide)) rfl
  have h9 := hquiet h8 (@world.Step.dequeue _ echo_work _ rfl rfl) rfl
  have h10 := hquiet h9 (@world.Step.invoke _ echo_work rfl) rfl
  exact hquiet h10 (@world.Step.apply _ echo_work rfl rfl rfl) rfl

/-- The invocation is put down, and its reply passed on. -/
theorem reaches_echo_made : (application_runs 1 true).Reachable (echo_replied, [echo_made]) := by
  have hinvokes : invokes true echo_applying [] [echo_made] (.application (some heard)) :=
    ⟨echo_work, echo_made, rfl, rfl, rfl, rfl, rfl, rfl, rfl⟩
  have h1 := reaches_echo_applying.step
    (t := (_, [echo_made])) ⟨.application (some heard) rfl rfl, hinvokes⟩
  exact h1.step (t := (echo_replied, [echo_made]))
    ⟨@world.Step.respond _ echo_work heard calm rfl rfl (by decide), rfl⟩

/-- The same run, seen without its record. -/
theorem reaches_echo_replied :
    ((server_runs 1).restrict (applies true)).Reachable echo_replied :=
  application_runs_session reaches_echo_made

end session

/-- The hook's word is what the client hears: it is what the one invocation let out. -/
theorem application_texts_heard :
    clean_text "heard" ∧
      ∃ i ∈ [session.echo_made], ∃ a, configured_answers true i.answers ∧
        frame_origin.worker 0 = .worker i.op ∧ listed session.echo_replied.log i.req i.op ∧
        (emit a i.reply i.req.method).1 = some session.heard.to_json ∧
        ("heard" = rejection_text ∨ spoken i.answers i.req.method i.calls "heard") := by
  refine application_texts.2 1 true _ _ session.reaches_echo_made
    ⟨.worker 0, session.heard.to_json, true⟩ ?_ "heard" ?_
  · exact mem_frames.mpr (List.mem_append_right _ (List.mem_singleton_self _))
  · have htexts : frame_texts session.heard.to_json = ["heard"] := by
      rw [session.heard, frame_texts_tool_reply]
      decide +kernel
    rw [htexts]
    exact List.mem_singleton_self _

end SynapseMcp
