/-
Encoding after decoding, and decoding after encoding.

Two values are the same JSON when objects have the same members, in whatever list
they are kept, and an integer is the same integer in either representation. That is
the equality a decoded message is encoded back under: the code of an error is an
`int`, so it comes back signed, and every other member comes back as it was.

Decoding after encoding rests on the grammar of `decode_message`: a message read
from a shape encodes to a value of that shape, and the members of a value fix the
message that reads it.
-/
import SynapseMcp.MessageGrammar

set_option autoImplicit false

namespace SynapseMcp

/-! ## What is compared

A message cannot come back with every member of the value it was read from: unknown members are
not kept, and those that belong to another kind of message are not either. So the comparison is
with the value restricted to the members of the kind, and within an error to the three that an
error has. Up to the representation of the code, that is an equality of members. -/

/-- The same JSON value: identical, or the same integer in two representations, or objects with
the same keys whose members are the same. -/
inductive json.same : json → json → Prop
  | refl (j : json) : json.same j j
  | integer (a b : json) (number : Int) (ha : a.integer? = some number)
      (hb : b.integer? = some number) : json.same a b
  | object (a b : json) (ha : a.is_object = true) (hb : b.is_object = true)
      (hkeys : ∀ key, a.contains key = b.contains key)
      (hmembers : ∀ key x y, a.find? key = some x → b.find? key = some y → json.same x y) :
      json.same a b

/-- The object with the members under `keys` alone. -/
def json.restrict (keys : List String) : json → json
  | .object members => .object (members.filter fun member => member.1 ∈ keys)
  | j => j

/-- An envelope restricted to the members under `keys`, its error to the three it has. -/
def json.restricted (keys : List String) (w : json) : json :=
  match w.find? "error" with
  | some e => (w.restrict keys).set "error" (e.restrict ["code", "message", "data"])
  | none => w.restrict keys

/-- The members of each kind of message. -/
def incoming_message.keys : incoming_message → List String
  | .request _ | .notification _ => ["jsonrpc", "id", "method", "params"]
  | .response _ => ["jsonrpc", "id", "result", "error"]

/-- The encoder that belongs to each kind of message. -/
def incoming_message.to_json : incoming_message → json
  | .request r => r.to_json
  | .notification n => n.to_json
  | .response r => r.to_json

/-! ## Members

Everything an encoder builds is a literal list of members and then optional ones, so reading a
member back is a chain of comparisons of keys. The lemmas compute that chain once for each form
the encoders use. -/

/-- Under one of the keys a restricted object has what it had, and under any other nothing. A
value that is no object has no members to begin with. -/
theorem json.find?_restrict (keys : List String) (j : json) (key : String) :
    (j.restrict keys).find? key = if key ∈ keys then j.find? key else none := by
  cases j with
  | object members =>
      change (members.filter fun member => member.1 ∈ keys).lookup key =
        if key ∈ keys then members.lookup key else none
      induction members with
      | nil => simp
      | cons member rest ih =>
          obtain ⟨k, value⟩ := member
          rw [List.filter_cons]
          by_cases hk : key = k
          · subst hk
            by_cases hmem : key ∈ keys
            · simp [hmem]
            · rw [if_neg hmem] at ih
              simpa only [hmem, decide_false, Bool.false_eq_true, if_false] using ih
          · have hbeq : (key == k) = false := by simpa using hk
            split
            · rw [List.lookup_cons, List.lookup_cons, hbeq]
              exact ih
            · rw [List.lookup_cons, hbeq]
              exact ih
  | _ => simp [json.restrict, json.find?]

/-- What is restricted stays an object. -/
theorem json.is_object_restrict {keys : List String} {j : json} (h : j.is_object = true) :
    (j.restrict keys).is_object = true := by
  cases j with
  | object members => rfl
  | _ => cases h

/-! An object built from one, two or three members. -/

theorem json.find?_object_of_one (k₁ key : String) (v₁ : json) :
    (json.object_of [(k₁, v₁)]).find? key = if key = k₁ then some v₁ else none := by
  change ((json.object []).set k₁ v₁).find? key = _
  rw [json.find?_set_of_object rfl]
  rfl

/-- Of two members the later is looked at first, since it was set last; with distinct keys the
order is of no account. -/
theorem json.find?_object_of_two (k₁ k₂ key : String) (v₁ v₂ : json) :
    (json.object_of [(k₁, v₁), (k₂, v₂)]).find? key =
      if key = k₂ then some v₂ else if key = k₁ then some v₁ else none := by
  change ((json.object_of [(k₁, v₁)]).set k₂ v₂).find? key = _
  rw [json.find?_set_of_object rfl, json.find?_object_of_one]

/-- The same for the three members that descriptors begin with. -/
theorem json.find?_object_of_three (k₁ k₂ k₃ key : String) (v₁ v₂ v₃ : json) :
    (json.object_of [(k₁, v₁), (k₂, v₂), (k₃, v₃)]).find? key =
      if key = k₃ then some v₃
      else if key = k₂ then some v₂ else if key = k₁ then some v₁ else none := by
  change ((json.object_of [(k₁, v₁), (k₂, v₂)]).set k₃ v₃).find? key = _
  rw [json.find?_set_of_object rfl, json.find?_object_of_two]

/-- `if (value) j[key] = *value`: an optional member, present when there is a value. -/
theorem json.find?_set_optional {j : json} (hj : j.is_object = true) (k key : String)
    (value : Option json) :
    (match value with | some v => j.set k v | none => j).find? key =
      if key = k ∧ value ≠ none then value else j.find? key := by
  cases value with
  | none => simp
  | some v =>
      rw [json.find?_set_of_object hj]
      simp

/-! ## What the encoders write

One lemma for each encoder says what is found under any key, and no proof below unfolds an
encoder again. A response writes exactly one member beside its envelope: the error if it holds
one, else the result, and null where it holds neither. -/

/-- The members of a request's object: the optional parameters, and the three that are always
there. -/
theorem request.find?_to_json (r : request) (key : String) :
    r.to_json.find? key =
      if key = "params" ∧ r.params ≠ none then r.params
      else if key = "id" then some r.id.to_json
      else if key = "method" then some (.string r.method)
      else if key = "jsonrpc" then some (.string r.jsonrpc)
      else none := by
  have hfind := json.find?_set_optional (j := (json.object_of [("jsonrpc", .string r.jsonrpc),
    ("method", .string r.method)]).set "id" r.id.to_json) rfl "params" key r.params
  rw [json.find?_set_of_object rfl, json.find?_object_of_two] at hfind
  exact hfind

/-- The members of a notification's object, which never has an ID. -/
theorem notification.find?_to_json (n : notification) (key : String) :
    n.to_json.find? key =
      if key = "params" ∧ n.params ≠ none then n.params
      else if key = "method" then some (.string n.method)
      else if key = "jsonrpc" then some (.string n.jsonrpc)
      else none := by
  have hfind := json.find?_set_optional (j := json.object_of [("jsonrpc", .string n.jsonrpc),
    ("method", .string n.method)]) rfl "params" key n.params
  rw [json.find?_object_of_two] at hfind
  exact hfind

/-- The members of an error's object. The code goes out as a signed number, whatever it came in
as. -/
theorem error.find?_to_json (e : error) (key : String) :
    e.to_json.find? key =
      if key = "data" ∧ e.data ≠ none then e.data
      else if key = "message" then some (.string e.message)
      else if key = "code" then some (.number_integer e.code.toInt64)
      else none := by
  have hfind := json.find?_set_optional (j := json.object_of
    [("code", .number_integer e.code.toInt64), ("message", .string e.message)]) rfl "data" key
    e.data
  rw [json.find?_object_of_two] at hfind
  exact hfind

/-- The one member of a response beside its envelope. -/
def response.payload (r : response) : String × json :=
  match r.err, r.result with
  | some err, _ => ("error", err.to_json)
  | none, some result => ("result", result)
  | none, none => ("result", .null)

/-- Without an error the result is written. -/
theorem response.payload_of_result {r : response} {result : json} (herr : r.err = none)
    (hresult : r.result = some result) : r.payload = ("result", result) := by
  unfold response.payload
  rw [herr, hresult]

/-- With an error the error is written, and a result that the response also held would be lost.
-/
theorem response.payload_of_error {r : response} {err : error} (herr : r.err = some err) :
    r.payload = ("error", err.to_json) := by
  unfold response.payload
  rw [herr]

/-- The members of a response's object: its payload, its ID and the version. -/
theorem response.find?_to_json (r : response) (key : String) :
    r.to_json.find? key =
      if key = r.payload.1 then some r.payload.2
      else if key = "id" then some r.id.to_json
      else if key = "jsonrpc" then some (.string r.jsonrpc)
      else none := by
  have hset : r.to_json =
      ((json.object_of [("jsonrpc", .string r.jsonrpc)]).set "id" r.id.to_json).set
        r.payload.1 r.payload.2 := by
    unfold response.to_json response.payload
    cases r.err with
    | some err => rfl
    | none => cases r.result <;> rfl
  rw [hset, json.find?_set_of_object rfl, json.find?_set_of_object rfl,
    json.find?_object_of_one]

/-! ## Encoding what was decoded

The message reads the value, so each member the encoder writes is the value's own, and those it
does not write are missing in the value by the shape. Only the error needs more than an equality
of members: its code is compared as an integer, and what else stood in the error object is not
kept. -/

section Encode

variable {w : json}

/-- Two objects are the same when they agree, or hold the same value, under each key. -/
theorem json.same_of_members {a b : json} (ha : a.is_object = true) (hb : b.is_object = true)
    (h : ∀ key, a.find? key = b.find? key ∨
      ∃ x y, a.find? key = some x ∧ b.find? key = some y ∧ json.same x y) : json.same a b := by
  refine .object a b ha hb ?_ ?_
  · intro key
    rw [json.contains_eq_isSome, json.contains_eq_isSome]
    rcases h key with heq | ⟨x, y, hx, hy, -⟩
    · rw [heq]
    · rw [hx, hy]
      rfl
  · intro key x y hx hy
    rcases h key with heq | ⟨x', y', hx', hy', hsame⟩
    · rw [hx, hy, Option.some.injEq] at heq
      rw [heq]
      exact .refl y
    · rw [hx, Option.some.injEq] at hx'
      rw [hy, Option.some.injEq] at hy'
      rw [hx', hy']
      exact hsame

/-- The same objects have the same keys; this is how two values are told apart when a member was
dropped. -/
theorem json.same.contains_eq {a b : json} (h : json.same a b) (ha : a.is_object = true)
    (key : String) : a.contains key = b.contains key := by
  cases h with
  | refl => rfl
  | integer _ _ number hint _ =>
      cases a <;> cases ha
      cases hint
  | object _ _ _ _ hkeys _ => exact hkeys key

/-- A value without an error, restricted to the keys of a message. -/
theorem json.find?_restricted_of_none {keys : List String} (herror : w.find? "error" = none)
    (key : String) :
    (w.restricted keys).find? key = if key ∈ keys then w.find? key else none := by
  unfold json.restricted
  rw [herror]
  exact json.find?_restrict keys w key

/-- A value with an error, which is itself restricted to the members of an error. -/
theorem json.find?_restricted_of_some {keys : List String} {e : json}
    (herror : w.find? "error" = some e) (key : String) :
    (w.restricted keys).find? key =
      if key = "error" then some (e.restrict ["code", "message", "data"])
      else if key ∈ keys then w.find? key else none := by
  unfold json.restricted
  rw [herror]
  dsimp only
  rw [json.find?_set_of_object (json.is_object_restrict (is_object_of_find? herror)),
    json.find?_restrict]

/-- An envelope that is restricted stays an object, with an error in it or without. -/
theorem json.is_object_restricted {keys : List String} (h : w.is_object = true) :
    (w.restricted keys).is_object = true := by
  unfold json.restricted
  cases w.find? "error" with
  | none => exact json.is_object_restrict h
  | some e => exact json.is_object_set _ _ _

/-- The members under `keys` are in `j` as they are in `w`; of the error its text and
its data. -/
structure keeps_members (keys : List String) (w j : json) : Prop where
  envelope : ∀ key ∈ keys, key ≠ "error" → j.find? key = w.find? key
  error : ∀ e, w.find? "error" = some e → ∃ e', j.find? "error" = some e' ∧
    ∀ key ∈ ["message", "data"], e'.find? key = e.find? key

/-- An object with the members of `w` under `keys` and no other is `w` restricted. -/
theorem encode_of_find? {keys : List String} {j : json} (hw : w.is_object = true)
    (hj : j.is_object = true) (herror : w.find? "error" = none)
    (hknown : ∀ key ∈ keys, j.find? key = w.find? key)
    (hother : ∀ key ∉ keys, j.find? key = none) :
    json.same j (w.restricted keys) ∧ keeps_members keys w j := by
  refine ⟨?_, fun key hkey _ => hknown key hkey, ?_⟩
  · refine json.same_of_members hj (json.is_object_restricted hw) fun key => .inl ?_
    rw [json.find?_restricted_of_none herror]
    by_cases hkey : key ∈ keys
    · rw [if_pos hkey, hknown key hkey]
    · rw [if_neg hkey, hother key hkey]
  · intro e he
    rw [herror] at he
    cases he

/-- A request is encoded to the value it was read from, restricted to a request's members, by
going through the four keys. -/
theorem request.encode {r : request} (hshape : request_shape w) (hreads : reads_request w r) :
    json.same r.to_json (w.restricted (incoming_message.request r).keys) ∧
      keeps_members (incoming_message.request r).keys w r.to_json := by
  have hobject : r.to_json.is_object = true :=
    @is_object_of_find? _ _ "id" (by rw [request.find?_to_json]; rfl)
  refine encode_of_find? (is_object_of_find? hshape.version) hobject hshape.no_error ?_ ?_
  · intro key hkey
    rw [request.find?_to_json]
    simp only [incoming_message.keys, List.mem_cons, List.not_mem_nil, or_false] at hkey
    rcases hkey with rfl | rfl | rfl | rfl
    · simp [hreads.version, hshape.version]
    · simp [hreads.id]
    · simp [hreads.method]
    · cases hparams : w.find? "params" <;> simp [hreads.params, hparams]
  · intro key hkey
    rw [request.find?_to_json]
    simp only [incoming_message.keys, List.mem_cons, List.not_mem_nil, or_false, not_or] at hkey
    simp [hkey]

/-- The same for a notification: the key `id` is among its keys, and stands neither in the value
nor in what is encoded. -/
theorem notification.encode {n : notification} (hshape : notification_shape w)
    (hreads : reads_notification w n) :
    json.same n.to_json (w.restricted (incoming_message.notification n).keys) ∧
      keeps_members (incoming_message.notification n).keys w n.to_json := by
  have hobject : n.to_json.is_object = true :=
    @is_object_of_find? _ _ "method" (by rw [notification.find?_to_json]; rfl)
  refine encode_of_find? (is_object_of_find? hshape.version) hobject hshape.no_error ?_ ?_
  · intro key hkey
    rw [notification.find?_to_json]
    simp only [incoming_message.keys, List.mem_cons, List.not_mem_nil, or_false] at hkey
    rcases hkey with rfl | rfl | rfl | rfl
    · simp [hreads.version, hshape.version]
    · simp [hshape.id]
    · simp [hreads.method]
    · cases hparams : w.find? "params" <;> simp [hreads.params, hparams]
  · intro key hkey
    rw [notification.find?_to_json]
    simp only [incoming_message.keys, List.mem_cons, List.not_mem_nil, or_false, not_or] at hkey
    simp [hkey]

/-- An error object comes back under each of its three keys, its code signed. -/
theorem error.encode {e : json} {err : error} (hreads : reads_error e err) :
    json.same err.to_json (e.restrict ["code", "message", "data"]) ∧
      ∀ key ∈ ["message", "data"], err.to_json.find? key = e.find? key := by
  obtain ⟨value, hvalue, hcode⟩ := hreads.code
  refine ⟨?_, ?_⟩
  · have hobject : err.to_json.is_object = true :=
      @is_object_of_find? _ _ "code" (by rw [error.find?_to_json]; rfl)
    refine json.same_of_members hobject
      (json.is_object_restrict (is_object_of_find? hvalue)) fun key => ?_
    rw [error.find?_to_json, json.find?_restrict]
    by_cases hkey : key = "code"
    · subst hkey
      refine .inr ⟨.number_integer err.code.toInt64, value, by simp, by simp [hvalue], ?_⟩
      refine .integer _ _ err.code.toInt ?_ hcode
      rw [json.integer?, Int32.toInt_toInt64]
    · left
      by_cases hmessage : key = "message"
      · subst hmessage
        simp [hreads.message]
      · by_cases hdata : key = "data"
        · subst hdata
          cases hd : e.find? "data" <;> simp [hreads.data, hd]
        · simp [hkey, hmessage, hdata]
  · intro key hkey
    rw [error.find?_to_json]
    simp only [List.mem_cons, List.not_mem_nil, or_false] at hkey
    rcases hkey with rfl | rfl
    · simp [hreads.message]
    · cases hd : e.find? "data" <;> simp [hreads.data, hd]

/-- The same for a response, with a result or with an error. With an error the envelope is
compared key by key, and under `error` the two error objects are the same. -/
theorem response.encode {r : response} (hshape : response_shape w) (hreads : reads_response w r) :
    json.same r.to_json (w.restricted (incoming_message.response r).keys) ∧
      keeps_members (incoming_message.response r).keys w r.to_json := by
  have hobject : r.to_json.is_object = true :=
    @is_object_of_find? _ _ r.payload.1 (by rw [response.find?_to_json, if_pos rfl])
  have hw := is_object_of_find? hshape.version
  cases herror : w.find? "error" with
  -- a result is kept as it is, so each key is compared by value
  | none =>
      have herr : r.err = none := hreads.no_error.mpr herror
      obtain ⟨result, hresult⟩ := Option.ne_none_iff_exists'.mp fun hnone =>
        hshape.one_of.mp hnone herror
      have hpayload := response.payload_of_result herr (hreads.result.trans hresult)
      refine encode_of_find? hw hobject herror ?_ ?_
      · intro key hkey
        rw [response.find?_to_json, hpayload]
        simp only [incoming_message.keys, List.mem_cons, List.not_mem_nil, or_false] at hkey
        rcases hkey with rfl | rfl | rfl | rfl
        · simp [hreads.version, hshape.version]
        · simp [hreads.id]
        · simp [hresult]
        · simp [herror]
      · intro key hkey
        rw [response.find?_to_json, hpayload]
        simp only [incoming_message.keys, List.mem_cons, List.not_mem_nil, or_false, not_or]
          at hkey
        simp [hkey]
  -- the error object is read and written anew; only its own members remain
  | some e =>
      have hresult : w.find? "result" = none :=
        hshape.one_of.mpr (by rw [herror]; exact Option.some_ne_none e)
      obtain ⟨err, herr⟩ := Option.ne_none_iff_exists'.mp fun hnone => by
        have := hreads.no_error.mp hnone
        rw [herror] at this
        cases this
      obtain ⟨e', he', hreads'⟩ := hreads.error err herr
      rw [herror, Option.some.injEq] at he'
      subst he'
      obtain ⟨hsame, hmembers⟩ := error.encode hreads'
      have hpayload := response.payload_of_error herr
      have hfind := response.find?_to_json r
      rw [hpayload] at hfind
      refine ⟨?_, ?_, ?_⟩
      · refine json.same_of_members hobject (json.is_object_restricted hw) fun key => ?_
        rw [hfind, json.find?_restricted_of_some herror]
        -- under `error` the two are the same as objects, elsewhere they are equal
        by_cases hkey : key = "error"
        · subst hkey
          exact .inr ⟨_, _, if_pos rfl, if_pos rfl, hsame⟩
        · left
          rw [if_neg hkey, if_neg hkey]
          by_cases hid : key = "id"
          · subst hid
            simp [incoming_message.keys, hreads.id]
          · by_cases hversion : key = "jsonrpc"
            · subst hversion
              simp [incoming_message.keys, hreads.version, hshape.version]
            · by_cases hres : key = "result"
              · subst hres
                simp [incoming_message.keys, hresult]
              · simp [incoming_message.keys, hkey, hid, hversion, hres]
      · intro key hkey hne
        rw [hfind, if_neg hne]
        simp only [incoming_message.keys, List.mem_cons, List.not_mem_nil, or_false] at hkey
        rcases hkey with rfl | rfl | rfl | rfl
        · simp [hreads.version, hshape.version]
        · simp [hreads.id]
        · simp [hresult]
        · exact absurd rfl hne
      · intro e' he'
        rw [herror, Option.some.injEq] at he'
        subst he'
        exact ⟨_, by rw [hfind, if_pos rfl], hmembers⟩

end Encode

/-! ## Decoding what was encoded

The members of a value fix the message that reads it, for each kind of message, so it is enough
that what was encoded has the shape of its kind and reads as the message did: the decoder
accepts it by the grammar, and what it returns can only be that message. Nothing here goes
through the checks of the decoder again.

In each kind the members are read independently, so it can be said of each member what it fixes:
the version and the method are strings, the ID is a string, an integer or null, and parameters
and results are kept as they are. -/

section Decode

variable {w j : json}

/-- An ID is determined by its value, with the representation: a signed and an unsigned one with
the same number are different values here. -/
theorem json_rpc_id.to_json_inj {a b : json_rpc_id} (h : a.to_json = b.to_json) : a = b := by
  cases a <;> cases b <;> cases h <;> rfl

/-- A value is read as one request only: each field is a member of the value. -/
theorem reads_request.unique {r r' : request} (h : reads_request w r) (h' : reads_request w r') :
    r = r' := by
  have hid : r.id = r'.id :=
    json_rpc_id.to_json_inj (Option.some.inj (h.id.symm.trans h'.id))
  have hmethod : r.method = r'.method :=
    json.string.inj (Option.some.inj (h.method.symm.trans h'.method))
  obtain ⟨v, i, m, p⟩ := r
  obtain ⟨v', i', m', p'⟩ := r'
  rw [request.mk.injEq]
  exact ⟨h.version.trans h'.version.symm, hid, hmethod, h.params.trans h'.params.symm⟩

/-- A value is read as one notification only. -/
theorem reads_notification.unique {n n' : notification} (h : reads_notification w n)
    (h' : reads_notification w n') : n = n' := by
  have hmethod : n.method = n'.method :=
    json.string.inj (Option.some.inj (h.method.symm.trans h'.method))
  obtain ⟨v, m, p⟩ := n
  obtain ⟨v', m', p'⟩ := n'
  rw [notification.mk.injEq]
  exact ⟨h.version.trans h'.version.symm, hmethod, h.params.trans h'.params.symm⟩

/-- An error object is read as one error only. The code is the integer in the value, and an
`int` is determined by its integer. -/
theorem reads_error.unique {err err' : error} (h : reads_error w err) (h' : reads_error w err') :
    err = err' := by
  obtain ⟨value, hvalue, hcode⟩ := h.code
  obtain ⟨value', hvalue', hcode'⟩ := h'.code
  rw [hvalue, Option.some.injEq] at hvalue'
  subst hvalue'
  rw [hcode, Option.some.injEq, Int32.toInt_inj] at hcode'
  have hmessage : err.message = err'.message :=
    json.string.inj (Option.some.inj (h.message.symm.trans h'.message))
  obtain ⟨c, m, d⟩ := err
  obtain ⟨c', m', d'⟩ := err'
  rw [error.mk.injEq]
  exact ⟨hcode', hmessage, h.data.trans h'.data.symm⟩

/-- A value is read as one response only; the errors agree, because both are read from the same
member or there is none. -/
theorem reads_response.unique {r r' : response} (h : reads_response w r)
    (h' : reads_response w r') : r = r' := by
  have hid : r.id = r'.id :=
    json_rpc_id.to_json_inj (Option.some.inj (h.id.symm.trans h'.id))
  have herr : r.err = r'.err := by
    cases hr : r.err with
    | none => exact (h'.no_error.mpr (h.no_error.mp hr)).symm
    | some err =>
        obtain ⟨value, hvalue, hreads⟩ := h.error err hr
        obtain ⟨err', hr'⟩ := Option.ne_none_iff_exists'.mp fun hnone => by
          have := h'.no_error.mp hnone
          rw [hvalue] at this
          cases this
        obtain ⟨value', hvalue', hreads'⟩ := h'.error err' hr'
        rw [hvalue, Option.some.injEq] at hvalue'
        subst hvalue'
        rw [hr', hreads.unique hreads']
  obtain ⟨v, i, res, e⟩ := r
  obtain ⟨v', i', res', e'⟩ := r'
  rw [response.mk.injEq]
  exact ⟨h.version.trans h'.version.symm, hid, h.result.trans h'.result.symm, herr⟩

/-- What a request is encoded to has the shape of a request and reads as it: the ID is of the
kind it had in the value, and the parameters are the value's. -/
theorem request.reencode {r : request} (hshape : request_shape w) (hreads : reads_request w r) :
    decode_message r.to_json = .ok (.request r) := by
  have hfind := request.find?_to_json r
  obtain ⟨name, hname⟩ := hshape.method
  obtain ⟨value, hvalue, hkind⟩ := hshape.id
  have hid : r.id.to_json = value := Option.some.inj (hreads.id.symm.trans hvalue)
  have hparams : r.to_json.find? "params" = r.params := by
    rw [hfind]
    cases r.params <;> simp
  have hreads' : reads_request r.to_json r :=
    ⟨hreads.version, by rw [hfind]; simp, by rw [hfind]; simp, hparams.symm⟩
  have hshape' : request_shape r.to_json := by
    refine ⟨?_, ⟨r.method, hreads'.method⟩, ⟨_, hreads'.id, hid ▸ hkind⟩, ?_, ?_, ?_⟩
    · rw [hfind, hreads.version]
      simp
    · rw [hfind]
      simp
    · rw [hfind]
      simp
    · intro value hvalue
      rw [hparams, hreads.params] at hvalue
      exact hshape.params value hvalue
  obtain ⟨r', hdecode, hread⟩ := decode_of_request_shape hshape'
  rw [hdecode, hread.unique hreads']

/-- The same for a notification; its encoding has no member `id`. -/
theorem notification.reencode {n : notification} (hshape : notification_shape w)
    (hreads : reads_notification w n) :
    decode_message n.to_json = .ok (.notification n) := by
  have hfind := notification.find?_to_json n
  have hparams : n.to_json.find? "params" = n.params := by
    rw [hfind]
    cases n.params <;> simp
  have hreads' : reads_notification n.to_json n :=
    ⟨hreads.version, by rw [hfind]; simp, hparams.symm⟩
  have hshape' : notification_shape n.to_json := by
    refine ⟨?_, ⟨n.method, hreads'.method⟩, ?_, ?_, ?_, ?_⟩
    · rw [hfind, hreads.version]
      simp
    · rw [hfind]
      simp
    · rw [hfind]
      simp
    · rw [hfind]
      simp
    · intro value hvalue
      rw [hparams, hreads.params] at hvalue
      exact hshape.params value hvalue
  obtain ⟨n', hdecode, hread⟩ := decode_of_notification_shape hshape'
  rw [hdecode, hread.unique hreads']

/-- An error's encoding has the shape of an error, whatever the error is: its code comes from an
`int`, so an `int` holds it. -/
theorem error.reads_to_json (err : error) :
    error_shape err.to_json ∧ reads_error err.to_json err := by
  have hfind := error.find?_to_json err
  have hcode : err.to_json.find? "code" = some (.number_integer err.code.toInt64) := by
    rw [hfind]
    simp
  have hint : (json.number_integer err.code.toInt64).integer? = some err.code.toInt := by
    rw [json.integer?, Int32.toInt_toInt64]
  have hmessage : err.to_json.find? "message" = some (.string err.message) := by
    rw [hfind]
    simp
  have hdata : err.data = err.to_json.find? "data" := by
    rw [hfind]
    cases err.data <;> simp
  exact ⟨⟨⟨_, hmessage⟩, ⟨_, _, hcode, hint, err.code.le_toInt, err.code.toInt_lt⟩⟩,
    ⟨⟨_, hcode, hint⟩, hmessage, hdata⟩⟩

/-- The same for a response, separately for a result and for an error; a null ID is accepted
again because the error is there again. -/
theorem response.reencode {r : response} (hshape : response_shape w) (hreads : reads_response w r) :
    decode_message r.to_json = .ok (.response r) := by
  have hfind := response.find?_to_json r
  obtain ⟨value, hvalue, hkind⟩ := hshape.id
  have hid : r.id.to_json = value := Option.some.inj (hreads.id.symm.trans hvalue)
  -- the shape decides what is decoded, and the members read decide the message
  have hread : ∀ hshape' : response_shape r.to_json, reads_response r.to_json r →
      decode_message r.to_json = .ok (.response r) := by
    intro hshape' hreads'
    obtain ⟨r', hdecode, hread⟩ := decode_of_response_shape hshape'
    rw [hdecode, hread.unique hreads']
  cases herr : r.err with
  -- with a result: the encoding has `jsonrpc`, `id` and `result`
  | none =>
      have herror := hreads.no_error.mp herr
      obtain ⟨result, hresult⟩ := Option.ne_none_iff_exists'.mp fun hnone =>
        hshape.one_of.mp hnone herror
      have hpayload := response.payload_of_result herr (hreads.result.trans hresult)
      rw [hpayload] at hfind
      have hnoerror : r.to_json.find? "error" = none := by
        rw [hfind]
        simp
      refine hread ⟨?_, ?_, ?_, ⟨r.id.to_json, ?_, ?_⟩, ?_⟩ ⟨hreads.version, ?_, ?_, ?_, ?_⟩
      · rw [hfind, hreads.version]
        simp
      · rw [hfind]
        simp
      · rw [hnoerror, hfind]
        simp
      · rw [hfind]
        simp
      · rw [hid]
        -- a null ID needs an error, and there is none
        rcases hkind with h | h | ⟨-, h⟩
        · exact .inl h
        · exact .inr (.inl h)
        · exact absurd herror h
      · intro e he
        rw [hnoerror] at he
        cases he
      · rw [hfind]
        simp
      · rw [hfind, hreads.result, hresult]
        simp
      · rw [herr, hnoerror]
        exact iff_of_true rfl rfl
      · intro err herr'
        rw [herr] at herr'
        cases herr'
  -- with an error: `error` in place of `result`
  | some err =>
      obtain ⟨e, he, hreads'⟩ := hreads.error err herr
      have hresult : w.find? "result" = none :=
        hshape.one_of.mpr (by rw [he]; exact Option.some_ne_none e)
      have hpayload := response.payload_of_error herr
      rw [hpayload] at hfind
      have herror : r.to_json.find? "error" = some err.to_json := by
        rw [hfind]
        simp
      have hnoresult : r.to_json.find? "result" = none := by
        rw [hfind]
        simp
      obtain ⟨hshape', hread'⟩ := error.reads_to_json err
      refine hread ⟨?_, ?_, ?_, ⟨r.id.to_json, ?_, ?_⟩, ?_⟩ ⟨hreads.version, ?_, ?_, ?_, ?_⟩
      · rw [hfind, hreads.version]
        simp
      · rw [hfind]
        simp
      · rw [hnoresult, herror]
        simp
      · rw [hfind]
        simp
      · rw [hid, herror]
        -- a null ID is accepted again, since the error is written again
        rcases hkind with h | h | ⟨h, -⟩
        · exact .inl h
        · exact .inr (.inl h)
        · exact .inr (.inr ⟨h, Option.some_ne_none _⟩)
      · intro e' he'
        rw [herror, Option.some.injEq] at he'
        subst he'
        exact hshape'
      · rw [hfind]
        simp
      · rw [hnoresult, hreads.result, hresult]
      · rw [herr, herror]
        simp
      · intro err' herr'
        rw [herr, Option.some.injEq] at herr'
        subst herr'
        exact ⟨_, herror, hread'⟩

end Decode

/-! ## Descriptors

The descriptors of tools, resources and prompts are converted without a grammar: `at` for what
must be there and `value` for what may be missing. A descriptor writes all its required members,
so it comes back as it was; an empty list of arguments is not written, and the missing member is
read as an empty list. -/

/-- A tool comes back from its encoding: all three of its members are always written. -/
theorem tool.from_json_to_json (t : tool) : tool.from_json t.to_json = .ok t := by
  have hfind := fun key => json.find?_object_of_three "name" "description" "inputSchema" key
    (.string t.name) (.string t.description) t.inputSchema
  have hname : t.to_json.at "name" = .ok (.string t.name) := json.at_eq_ok_iff.mpr (by
    rw [tool.to_json, hfind]
    simp)
  have hdescription : t.to_json.find? "description" = some (.string t.description) := by
    rw [tool.to_json, hfind]
    simp
  have hschema : t.to_json.at "inputSchema" = .ok t.inputSchema := json.at_eq_ok_iff.mpr (by
    rw [tool.to_json, hfind]
    simp)
  unfold tool.from_json tool.get_to
  rw [hname, json.value_of_find? hdescription, hschema]
  rfl

/-- A resource comes back from its encoding, with its media type when it has one and without
when it has none. -/
theorem resource.from_json_to_json (r : resource) : resource.from_json r.to_json = .ok r := by
  -- the four members, the last one only where there is a media type
  have hfind : ∀ key, r.to_json.find? key =
      if key = "mimeType" ∧ r.mimeType.map json.string ≠ none then r.mimeType.map json.string
      else if key = "description" then some (.string r.description)
      else if key = "name" then some (.string r.name)
      else if key = "uri" then some (.string r.uri)
      else none := by
    intro key
    have hset : r.to_json = (match r.mimeType.map json.string with
        | some v => (json.object_of [("uri", .string r.uri), ("name", .string r.name),
            ("description", .string r.description)]).set "mimeType" v
        | none => json.object_of [("uri", .string r.uri), ("name", .string r.name),
            ("description", .string r.description)]) := by
      unfold resource.to_json
      cases r.mimeType <;> rfl
    rw [hset, json.find?_set_optional rfl, json.find?_object_of_three]
  have huri : r.to_json.at "uri" = .ok (.string r.uri) := json.at_eq_ok_iff.mpr (by
    rw [hfind]
    simp)
  have hname : r.to_json.at "name" = .ok (.string r.name) := json.at_eq_ok_iff.mpr (by
    rw [hfind]
    simp)
  have hdescription : r.to_json.find? "description" = some (.string r.description) := by
    rw [hfind]
    simp
  have hmime : r.to_json.find? "mimeType" = r.mimeType.map json.string := by
    rw [hfind]
    cases r.mimeType <;> simp
  unfold resource.from_json resource.get_to
  rw [huri, hname, json.value_of_find? hdescription, json.contains_eq_isSome, hmime]
  obtain ⟨uri, name, description, mimeType⟩ := r
  cases mimeType with
  | none => rfl
  | some mimeType =>
      rw [json.at_eq_ok_iff.mpr hmime]
      rfl

/-- An argument of a prompt comes back from its encoding, with the flag that says whether it is
required. -/
theorem prompt_argument.from_json_to_json (a : prompt_argument) :
    prompt_argument.from_json a.to_json = .ok a := by
  have hfind := fun key => json.find?_object_of_three "name" "description" "required" key
    (.string a.name) (.string a.description) (.boolean a.required)
  have hname : a.to_json.at "name" = .ok (.string a.name) := json.at_eq_ok_iff.mpr (by
    rw [prompt_argument.to_json, hfind]
    simp)
  have hdescription : a.to_json.find? "description" = some (.string a.description) := by
    rw [prompt_argument.to_json, hfind]
    simp
  have hrequired : a.to_json.find? "required" = some (.boolean a.required) := by
    rw [prompt_argument.to_json, hfind]
    simp
  unfold prompt_argument.from_json prompt_argument.get_to
  rw [hname, json.value_of_find? hdescription, json.value_of_find? hrequired]
  rfl

/-- The arguments come back one by one, and none of the conversions throws. -/
theorem prompt_arguments_from_json (arguments : List prompt_argument) :
    (arguments.map prompt_argument.to_json).mapM prompt_argument.from_json = .ok arguments := by
  induction arguments with
  | nil => rfl
  | cons a rest ih =>
      rw [List.map_cons, List.mapM_cons, prompt_argument.from_json_to_json, ih]
      rfl

/-- A prompt comes back from its encoding. Without arguments the member is not written, and the
conversion reads its absence as no arguments. -/
theorem prompt.from_json_to_json (p : prompt) : prompt.from_json p.to_json = .ok p := by
  have hbase := fun key => json.find?_object_of_two "name" "description" key (.string p.name)
    (.string p.description)
  obtain ⟨name, description, arguments⟩ := p
  cases arguments with
  | nil =>
      have hname : (prompt.to_json ⟨name, description, []⟩).at "name" = .ok (.string name) :=
        json.at_eq_ok_iff.mpr ((hbase "name").trans (by simp))
      have hdescription : (prompt.to_json ⟨name, description, []⟩).find? "description" =
          some (.string description) := (hbase "description").trans (by simp)
      have hnone : (prompt.to_json ⟨name, description, []⟩).find? "arguments" = none :=
        (hbase "arguments").trans (by simp)
      -- the member is absent, and the default stays
      unfold prompt.from_json prompt.get_to
      rw [hname, json.value_of_find? hdescription, json.contains_eq_isSome, hnone]
      rfl
  | cons a rest =>
      -- the third member is added to the two by an assignment
      have hfind : ∀ key, (prompt.to_json ⟨name, description, a :: rest⟩).find? key =
          if key = "arguments" then some (.array ((a :: rest).map prompt_argument.to_json))
          else (json.object_of
            [("name", .string name), ("description", .string description)]).find? key := by
        intro key
        change ((json.object_of [("name", .string name),
          ("description", .string description)]).set "arguments" _).find? key = _
        rw [json.find?_set_of_object rfl]
      have hname : (prompt.to_json ⟨name, description, a :: rest⟩).at "name" =
          .ok (.string name) := json.at_eq_ok_iff.mpr ((hfind "name").trans (by simp [hbase]))
      have hdescription : (prompt.to_json ⟨name, description, a :: rest⟩).find? "description" =
          some (.string description) := (hfind "description").trans (by simp [hbase])
      have harguments : (prompt.to_json ⟨name, description, a :: rest⟩).find? "arguments" =
          some (.array ((a :: rest).map prompt_argument.to_json)) :=
        (hfind "arguments").trans (by simp)
      unfold prompt.from_json prompt.get_to
      rw [hname, json.value_of_find? hdescription, json.contains_eq_isSome, harguments,
        json.at_eq_ok_iff.mpr harguments]
      change (do
        let arguments ← ((a :: rest).map prompt_argument.to_json).mapM prompt_argument.from_json
        Except.ok (⟨name, description, arguments⟩ : prompt)) = _
      rw [prompt_arguments_from_json]
      rfl

/-! ## The codecs are inverse to each other

For messages the decoder comes first, since not every message can have been decoded: a response
without error and result, or a version other than "2.0", is encoded all the same. A descriptor
comes back from its encoding, whatever it holds. That `get_to` forgets what the object held
before is part of the statement, as the source converts into objects it has at hand.

A response may come with a member `params`. It is accepted, and encoded without it; this is why
the comparison is with the members of a response and not with those of all messages. -/

/-- A message decoded from `w` encodes to `w` restricted to the members of its kind, and
decodes from that again; descriptors come back from their encoding; and what an object
held before does not show in what is converted into it. -/
theorem codecs_inverse :
    (∀ w m, decode_message w = .ok m →
      json.same m.to_json (w.restricted m.keys) ∧ keeps_members m.keys w m.to_json ∧
        decode_message m.to_json = .ok m) ∧
      (∀ t, tool.from_json (tool.to_json t) = .ok t) ∧
      (∀ r, resource.from_json (resource.to_json r) = .ok r) ∧
      (∀ a, prompt_argument.from_json (prompt_argument.to_json a) = .ok a) ∧
      (∀ p, prompt.from_json (prompt.to_json p) = .ok p) ∧
      (∀ j e, error.get_to j e = error.from_json j) ∧
      (∀ j r, request.get_to j r = request.from_json j) ∧
      (∀ j n, notification.get_to j n = notification.from_json j) ∧
      (∀ j r, response.get_to j r = response.from_json j) ∧
      (∀ j t, tool.get_to j t = tool.from_json j) ∧
      (∀ j r, resource.get_to j r = resource.from_json j) ∧
      (∀ j a, prompt_argument.get_to j a = prompt_argument.from_json j) ∧
      ∀ j p, prompt.get_to j p = prompt.from_json j := by
  refine ⟨?_, tool.from_json_to_json, resource.from_json_to_json,
    prompt_argument.from_json_to_json, prompt.from_json_to_json, fun _ _ => rfl, fun _ _ => rfl,
    fun _ _ => rfl, fun _ _ => rfl, fun _ _ => rfl, fun _ _ => rfl, fun _ _ => rfl,
    fun _ _ => rfl⟩
  intro w m hdecode
  have hdecoded := decode_message_decoded w
  rw [hdecode] at hdecoded
  -- one case for each kind of message that can have been decoded
  cases hdecoded with
  | request r hshape hreads =>
      obtain ⟨hsame, hkeeps⟩ := request.encode hshape hreads
      exact ⟨hsame, hkeeps, request.reencode hshape hreads⟩
  | notification n hshape hreads =>
      obtain ⟨hsame, hkeeps⟩ := notification.encode hshape hreads
      exact ⟨hsame, hkeeps, notification.reencode hshape hreads⟩
  | response r hshape hreads =>
      obtain ⟨hsame, hkeeps⟩ := response.encode hshape hreads
      exact ⟨hsame, hkeeps, response.reencode hshape hreads⟩

/-- `{"jsonrpc":"2.0","id":1,"result":null,"params":{}}`. -/
def response_with_params : json :=
  .object [("id", .number_unsigned 1), ("jsonrpc", .string "2.0"), ("params", .object []),
    ("result", .null)]

theorem codecs_inverse_response :
    json.same (response.to_json ⟨"2.0", .uint64 1, some .null, none⟩)
      (response_with_params.restricted ["jsonrpc", "id", "result", "error"]) :=
  (codecs_inverse.1 response_with_params (.response ⟨"2.0", .uint64 1, some .null, none⟩) rfl).1

/-- The members of a response are not those of a request: a response is accepted with a
member `params`, and does not keep it. -/
theorem response_drops_params :
    ∃ m, decode_message response_with_params = .ok m ∧
      ¬json.same m.to_json (response_with_params.restricted
        ["jsonrpc", "id", "method", "params", "result", "error"]) := by
  refine ⟨.response ⟨"2.0", .uint64 1, some .null, none⟩, rfl, fun h => ?_⟩
  have hparams := h.contains_eq rfl "params"
  revert hparams
  decide

end SynapseMcp
