/-
`detail/message_decoder.hpp`: classifying an untrusted JSON value.

`decode_message` is `noexcept`: a conversion that throws after the envelope
checks ends in the same diagnostic as a check that fails. The diagnostic carries
the ID of the offending value when that ID is a string or an integer, and a null
ID otherwise; whether it may be sent is the server's decision.
-/
import SynapseMcp.Protocol

set_option autoImplicit false

namespace SynapseMcp

/-! ## The decoder

The checks come in the order of the source: the version first, then what a method goes with,
then the ID, then the error. A value that passes them is handed to `from_json`, which may still
throw; so a failure has one form, whatever it was that failed. -/

/-- A string or an integer of either representation. -/
def is_request_id (value : json) : Bool := value.is_string || value.is_number_integer

/-- An integer code in the range of `int`, in either representation, and a string message. -/
def is_wire_error (value : json) : Bool :=
  match value.find? "code", value.find? "message" with
  | some code, some message =>
      message.is_string &&
        match code with
        | .number_unsigned number => number.toNat ≤ Int32.maxValue.toInt.toNat
        | .number_integer number =>
            Int32.minValue.toInt ≤ number.toInt && number.toInt ≤ Int32.maxValue.toInt
        | _ => false
  | _, _ => false

/-- The ID `decode_message` puts into its diagnostic. -/
def failure_id (wire : json) : json_rpc_id :=
  match wire.find? "id" with
  | some id => if is_request_id id then read_json_rpc_id id else .null
  | none => .null

/-- The diagnostic: `Invalid Request`, with the ID of the value if it has one. -/
def decode_failure (wire : json) : response where
  id := failure_id wire
  result := none
  err := some
    { code := error_code.invalid_request.value, message := "Invalid Request", data := none }

/-- `wire.get<T>()` inside the `try` block: an exception becomes the diagnostic. -/
def get_or_failure {α : Type} (wire : json) (value : Except json_exception α)
    (wrap : α → incoming_message) : Except response incoming_message :=
  match value with
  | .ok a => .ok (wrap a)
  | .error _ => .error (decode_failure wire)

/-- `params` is absent, an object or an array. -/
def params_ok (wire : json) : Bool :=
  match wire.find? "params" with
  | some params => params.is_object || params.is_array
  | none => true

/-- `jsonrpc` is there and is the string `2.0`. -/
def version_ok (wire : json) : Bool :=
  match wire.find? "jsonrpc" with
  | some (.string version) => version = "2.0"
  | _ => false

/-- `error` is absent or a well-formed error object. -/
def error_ok (wire : json) : Bool :=
  match wire.find? "error" with
  | some error => is_wire_error error
  | none => true

/-- `decode_message`: a request or a notification if there is a method, else a response. -/
def decode_message (wire : json) : Except response incoming_message :=
  if !wire.is_object then .error (decode_failure wire)
  else if !version_ok wire then .error (decode_failure wire)
  else
    match wire.find? "method" with
    | some method =>
        -- with a method: neither a result nor an error beside it, and parameters of the right kind
        if !method.is_string || wire.contains "result" || wire.contains "error" ||
            !params_ok wire then
          .error (decode_failure wire)
        else
          match wire.find? "id" with
          | some id =>
              if !is_request_id id then .error (decode_failure wire)
              else get_or_failure wire (request.from_json wire) .request
          -- no ID at all makes it a notification; a null one does not
          | none => get_or_failure wire (notification.from_json wire) .notification
    | none =>
        match wire.find? "id" with
        | none => .error (decode_failure wire)
        | some id =>
            -- without a method: exactly one of the two, and a null ID only beside an error
            if wire.contains "result" = wire.contains "error" ||
                (!is_request_id id && !(wire.contains "error" && id.is_null)) ||
                !error_ok wire then
              .error (decode_failure wire)
            else get_or_failure wire (response.from_json wire) .response

/-! ## What a decoded message says about its text

The results about sessions speak of the text a request came in. What they need of the decoder is
that the ID and the method of a decoded request are those of the text, read the way the server
reads them, and that the ID is never null. -/

/-- A conversion that did not throw. -/
theorem get_or_failure_eq_ok {α : Type} {wire : json} {value : Except json_exception α}
    {wrap : α → incoming_message} {m : incoming_message}
    (h : get_or_failure wire value wrap = .ok m) : ∃ a, value = .ok a ∧ wrap a = m := by
  cases value with
  | error e => cases h
  | ok a => exact ⟨a, rfl, by simpa [get_or_failure] using h⟩

/-- The members a request is read from: its ID and its method have to be there, and the
parameters are taken as they are, or left out. -/
theorem request.from_json_ok {j : json} {r : request} (h : request.from_json j = .ok r) :
    ∃ id, j.find? "id" = some id ∧ r.id = read_json_rpc_id id ∧
      j.find? "method" = some (.string r.method) ∧ r.params = j.find? "params" := by
  unfold request.from_json request.get_to at h
  obtain ⟨version, -, h⟩ := bind_eq_ok.mp h
  obtain ⟨jsonrpc, -, h⟩ := bind_eq_ok.mp h
  obtain ⟨m, hm, h⟩ := bind_eq_ok.mp h
  obtain ⟨method, hmethod, h⟩ := bind_eq_ok.mp h
  obtain ⟨id, hid, h⟩ := bind_eq_ok.mp h
  rw [json.at_eq_ok_iff] at hm hid
  rw [json.get_string_eq_ok_iff] at hmethod
  refine ⟨id, hid, ?_⟩
  split at h
  · obtain ⟨params, hparams, h⟩ := bind_eq_ok.mp h
    rw [json.at_eq_ok_iff] at hparams
    cases h
    exact ⟨rfl, by rw [hm, hmethod], hparams.symm⟩
  · rename_i hcontains
    cases h
    refine ⟨rfl, by rw [hm, hmethod], ?_⟩
    rw [json.contains_eq_isSome, Option.not_isSome_iff_eq_none] at hcontains
    exact hcontains.symm

/-- What passes for an ID is read as one. -/
theorem is_request_id_read {value : json} (h : is_request_id value = true) :
    read_json_rpc_id value ≠ .null := by
  cases value <;> simp_all [is_request_id, json.is_string, json.is_number_integer, read_json_rpc_id]

/-- A decoded request has an ID, and its ID is a string or an integer. -/
theorem decode_request {wire : json} {req : request}
    (h : decode_message wire = .ok (.request req)) :
    wire.contains "id" = true ∧ req.id ≠ .null ∧
      wire.find? "method" = some (.string req.method) ∧ req.params = wire.find? "params" := by
  unfold decode_message at h
  split at h
  · cases h
  split at h
  · cases h
  split at h
  · split at h
    · cases h
    split at h
    -- the one branch that yields a request: a method and an ID of the right kind
    · rename_i id hid
      split at h
      · cases h
      · rename_i his
        obtain ⟨r, hr, hwrap⟩ := get_or_failure_eq_ok h
        cases hwrap
        obtain ⟨id', hid', hread, hmethod, hparams⟩ := request.from_json_ok hr
        rw [hid, Option.some.injEq] at hid'
        subst hid'
        refine ⟨by rw [json.contains_eq_isSome, hid]; rfl, ?_, hmethod, hparams⟩
        rw [hread]
        exact is_request_id_read (by simpa using his)
    · obtain ⟨n, -, hwrap⟩ := get_or_failure_eq_ok h
      cases hwrap
  · split at h
    · cases h
    split at h
    · cases h
    · obtain ⟨r, -, hwrap⟩ := get_or_failure_eq_ok h
      cases hwrap

end SynapseMcp
