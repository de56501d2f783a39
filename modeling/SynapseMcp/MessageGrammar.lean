/-
What `decode_message` accepts: the grammar of JSON-RPC 2.0 envelopes.

The grammar is stated by members, without the order of the checks: `request_shape`,
`notification_shape` and `response_shape` say which values are which, and
`reads_request` and its siblings what a message read from one holds. That a value of
a shape is never lost to the `catch (...)` is the part that needs the conversions:
each is reached only with a value it does not throw on, and the code of an error
only with an integer that an `int` holds.
-/
import SynapseMcp.MessageDecoder
import Mathlib.Algebra.Ring.Int.Defs

set_option autoImplicit false

namespace SynapseMcp

/-! ## The shapes

A value is a request, a notification or a response by the members it has: no two of the shapes
hold of one value, since the first two need a method and differ in the ID, and the third has
none. The order in which the source makes its checks does not show, because every failed check
gives the same diagnostic. What a message read from a value holds is said by members too, with
the integers as they are: an ID that is an unsigned integer stays one, and the code of an error
is the number in the value, not that number cut to 32 bits. -/

/-- `error` is an object with a string message and an integer code an `int` holds. -/
structure error_shape (e : json) : Prop where
  message : ∃ text, e.find? "message" = some (.string text)
  code : ∃ value number, e.find? "code" = some value ∧ value.integer? = some number ∧
    -2 ^ 31 ≤ number ∧ number < 2 ^ 31

/-- A request: the version, a method, an ID that is a string or an integer, neither a result nor
an error, and parameters that are an object or an array if there are any. -/
structure request_shape (w : json) : Prop where
  version : w.find? "jsonrpc" = some (.string "2.0")
  method : ∃ name, w.find? "method" = some (.string name)
  id : ∃ value, w.find? "id" = some value ∧
    (value.is_string = true ∨ value.is_number_integer = true)
  no_result : w.find? "result" = none
  no_error : w.find? "error" = none
  params : ∀ value, w.find? "params" = some value →
    value.is_object = true ∨ value.is_array = true

/-- A notification: a request without the member `id`. A member `id` with null in it makes the
value neither of the two. -/
structure notification_shape (w : json) : Prop where
  version : w.find? "jsonrpc" = some (.string "2.0")
  method : ∃ name, w.find? "method" = some (.string name)
  id : w.find? "id" = none
  no_result : w.find? "result" = none
  no_error : w.find? "error" = none
  params : ∀ value, w.find? "params" = some value →
    value.is_object = true ∨ value.is_array = true

/-- A response: no method, exactly one of a result and an error, and an ID. Null is an ID only
beside an error, where it says that the request had none that could be read. -/
structure response_shape (w : json) : Prop where
  version : w.find? "jsonrpc" = some (.string "2.0")
  no_method : w.find? "method" = none
  one_of : w.find? "result" = none ↔ w.find? "error" ≠ none
  id : ∃ value, w.find? "id" = some value ∧
    (value.is_string = true ∨ value.is_number_integer = true ∨
      value = .null ∧ w.find? "error" ≠ none)
  error : ∀ value, w.find? "error" = some value → error_shape value

/-- The error holds what the object says, the code as the integer it is. -/
structure reads_error (e : json) (err : error) : Prop where
  code : ∃ value, e.find? "code" = some value ∧ value.integer? = some err.code.toInt
  message : e.find? "message" = some (.string err.message)
  data : err.data = e.find? "data"

/-- The ID is the value of the member, in the representation it has there. -/
structure reads_request (w : json) (r : request) : Prop where
  version : r.jsonrpc = "2.0"
  id : w.find? "id" = some r.id.to_json
  method : w.find? "method" = some (.string r.method)
  params : r.params = w.find? "params"

/-- The method and the parameters are those of the value, and the parameters are there just when
the member is. -/
structure reads_notification (w : json) (n : notification) : Prop where
  version : n.jsonrpc = "2.0"
  method : w.find? "method" = some (.string n.method)
  params : n.params = w.find? "params"

/-- The ID, the result and the error are the members of the value; an error is held just when
the member is there. -/
structure reads_response (w : json) (r : response) : Prop where
  version : r.jsonrpc = "2.0"
  id : w.find? "id" = some r.id.to_json
  result : r.result = w.find? "result"
  no_error : r.err = none ↔ w.find? "error" = none
  error : ∀ err, r.err = some err → ∃ value, w.find? "error" = some value ∧ reads_error value err

/-- The diagnostic: -32600 without data, under the ID of the value if that is a string
or an integer, and under null otherwise. -/
structure reads_failure (w : json) (f : response) : Prop where
  result : f.result = none
  err : f.err = some { code := -32600, message := "Invalid Request", data := none }
  id : ∀ value, w.find? "id" = some value →
    value.is_string = true ∨ value.is_number_integer = true → f.id.to_json = value
  no_id : (∀ value, w.find? "id" = some value →
    ¬(value.is_string = true ∨ value.is_number_integer = true)) → f.id = .null

/-! ## IDs and codes are not narrowed

Each predicate of the source is compared with what the shapes say in its place. The only one
with arithmetic in it is the range of an error code: the source compares a signed or an unsigned
64-bit number with the limits of `int`, before the conversion that would cut it. -/

/-- An ID that was read and is written again is the value it was read from, in the same
representation. -/
theorem read_json_rpc_id_to_json {value : json}
    (h : value.is_string = true ∨ value.is_number_integer = true) :
    (read_json_rpc_id value).to_json = value := by
  cases value with
  | string | number_integer | number_unsigned => rfl
  | _ =>
      rcases h with h | h
      · cases h
      · cases h

theorem is_request_id_iff {value : json} :
    is_request_id value = true ↔ value.is_string = true ∨ value.is_number_integer = true := by
  rw [is_request_id, Bool.or_eq_true]

/-- `get<int>` of an integer in the range of `int` is that integer, for the signed and for the
unsigned representation. Outside the range it would be another number. -/
theorem json.get_int_of_integer {value : json} {number : Int}
    (hint : value.integer? = some number) (hlow : -2 ^ 31 ≤ number) (hhigh : number < 2 ^ 31) :
    ∃ code, value.get_int = .ok code ∧ code.toInt = number := by
  cases value with
  | number_integer v =>
      have hv : v.toInt = number := Option.some.inj hint
      refine ⟨v.toInt32, rfl, ?_⟩
      rw [Int64.toInt_toInt32, hv]
      exact Int.bmod_eq_of_le (by omega) (by omega)
  | number_unsigned v =>
      have hv : (v.toNat : Int) = number := Option.some.inj hint
      have hsmall : v.toInt64.toInt = number := by
        rw [← hv, Int64.toInt, UInt64.toBitVec_toInt64, BitVec.toInt_eq_toNat_of_lt] <;>
          rw [UInt64.toNat_toBitVec]
        omega
      refine ⟨v.toInt64.toInt32, rfl, ?_⟩
      rw [Int64.toInt_toInt32, hsmall]
      exact Int.bmod_eq_of_le (by omega) (by omega)
  | _ => cases hint

/-- The version is the string "2.0" and nothing else; a number 2.0 is refused. -/
theorem version_ok_iff {w : json} :
    version_ok w = true ↔ w.find? "jsonrpc" = some (.string "2.0") := by
  unfold version_ok
  split
  · rename_i version hversion
    rw [hversion, decide_eq_true_eq, Option.some.injEq, json.string.injEq]
  · rename_i hother
    constructor
    · intro h
      cases h
    · intro h
      exact absurd h (hother "2.0")

/-- Parameters may be left out. If they are there they are an object or an array, so that null
is not the same as none. -/
theorem params_ok_iff {w : json} :
    params_ok w = true ↔ ∀ value, w.find? "params" = some value →
      value.is_object = true ∨ value.is_array = true := by
  unfold params_ok
  cases w.find? "params" with
  | none =>
      constructor
      · intro _ value hvalue
        cases hvalue
      · intro _
        rfl
  | some params =>
      rw [Bool.or_eq_true]
      constructor
      · rintro h value hvalue
        cases hvalue
        exact h
      · intro h
        exact h params rfl

/-- The check of the source is the shape of an error: the two members are there, the message is
a string, and the code is an integer that an `int` holds. -/
theorem is_wire_error_iff {e : json} : is_wire_error e = true ↔ error_shape e := by
  unfold is_wire_error
  cases hcode : e.find? "code" with
  | none =>
      constructor
      · intro h
        cases h
      · rintro ⟨-, value, number, hvalue, -⟩
        rw [hcode] at hvalue
        cases hvalue
  | some code =>
      cases hmessage : e.find? "message" with
      | none =>
          constructor
          · intro h
            cases h
          · rintro ⟨⟨text, htext⟩, -⟩
            rw [hmessage] at htext
            cases htext
      | some message =>
          -- the bounds of an `int`, which the source compares with
          have hlow : Int32.minValue.toInt = -2 ^ 31 := by decide
          have hhigh : Int32.maxValue.toInt = 2 ^ 31 - 1 := by decide
          constructor
          · intro h
            rw [Bool.and_eq_true] at h
            obtain ⟨hstring, hrange⟩ := h
            refine ⟨?_, code, ?_⟩
            · cases message with
              | string text => exact ⟨text, hmessage⟩
              | _ => cases hstring
            · cases code with
              | number_integer v =>
                  simp only [Bool.and_eq_true, decide_eq_true_eq, hlow, hhigh] at hrange
                  exact ⟨v.toInt, hcode, rfl, hrange.1, by omega⟩
              -- an unsigned number has no lower bound to meet
              | number_unsigned v =>
                  simp only [decide_eq_true_eq, hhigh] at hrange
                  exact ⟨v.toNat, hcode, rfl, by omega, by omega⟩
              | _ => cases hrange
          · rintro ⟨⟨text, htext⟩, value, number, hvalue, hint, hmin, hmax⟩
            rw [hmessage, Option.some.injEq] at htext
            rw [hcode, Option.some.injEq] at hvalue
            subst htext hvalue
            rw [Bool.and_eq_true]
            refine ⟨rfl, ?_⟩
            cases code with
            | number_integer v =>
                have hv : v.toInt = number := Option.some.inj hint
                simp only [Bool.and_eq_true, decide_eq_true_eq, hlow, hhigh]
                omega
            | number_unsigned v =>
                have hv : (v.toNat : Int) = number := Option.some.inj hint
                simp only [decide_eq_true_eq, hhigh]
                omega
            | _ => cases hint

/-! ## What the conversions read

Each is reached with the members it needs, and then it cannot throw.

The library's `at` throws where a member is missing, `get` where it is of another type, and both
are looked up in order; each lemma gives the members that make all of them succeed, and the
message that results. -/

/-- An error of the right shape is converted, with the code as the number it is. The data is
taken as it stands, when there is one. -/
theorem error.from_json_eq {e : json} (h : error_shape e) :
    ∃ err, error.from_json e = .ok err ∧ reads_error e err := by
  obtain ⟨⟨text, htext⟩, value, number, hvalue, hint, hlow, hhigh⟩ := h
  obtain ⟨code, hcode, hnumber⟩ := json.get_int_of_integer hint hlow hhigh
  have hat : e.at "code" = .ok value := json.at_eq_ok_iff.mpr hvalue
  have hat' : e.at "message" = .ok (.string text) := json.at_eq_ok_iff.mpr htext
  refine ⟨⟨code, text, e.find? "data"⟩, ?_, ⟨value, hvalue, by rw [hint, hnumber]⟩, htext, rfl⟩
  unfold error.from_json error.get_to
  rw [hat, hat', json.contains_eq_isSome]
  cases hdata : e.find? "data" with
  | none => simp [bind, Except.bind, hcode, json.get_string, pure, Except.pure]
  | some data =>
      have hat'' : e.at "data" = .ok data := json.at_eq_ok_iff.mpr hdata
      simp [bind, Except.bind, hcode, json.get_string, pure, Except.pure, hat'']

/-- The conversion of a request reads four members, of which the parameters may be missing. It
makes no check of its own beyond the types. -/
theorem request.from_json_eq {w id : json} {version method : String}
    (hversion : w.find? "jsonrpc" = some (.string version)) (hid : w.find? "id" = some id)
    (hmethod : w.find? "method" = some (.string method)) :
    request.from_json w =
      .ok { jsonrpc := version, id := read_json_rpc_id id, method,
            params := w.find? "params" } := by
  rw [← json.at_eq_ok_iff] at hversion hid hmethod
  unfold request.from_json request.get_to
  rw [hversion, hid, hmethod, json.contains_eq_isSome]
  cases hparams : w.find? "params" with
  | none => rfl
  | some params =>
      rw [json.at_eq_ok_iff.mpr hparams]
      rfl

/-- The conversion of a notification reads the version, the method and the parameters, and does
not look at an ID. -/
theorem notification.from_json_eq {w : json} {version method : String}
    (hversion : w.find? "jsonrpc" = some (.string version))
    (hmethod : w.find? "method" = some (.string method)) :
    notification.from_json w =
      .ok { jsonrpc := version, method, params := w.find? "params" } := by
  rw [← json.at_eq_ok_iff] at hversion hmethod
  unfold notification.from_json notification.get_to
  rw [hversion, hmethod, json.contains_eq_isSome]
  cases hparams : w.find? "params" with
  | none => rfl
  | some params =>
      rw [json.at_eq_ok_iff.mpr hparams]
      rfl

/-- Without an error the conversion reads the version, the ID and the result. -/
theorem response.from_json_eq_result {w id : json} {version : String}
    (hversion : w.find? "jsonrpc" = some (.string version)) (hid : w.find? "id" = some id)
    (herror : w.find? "error" = none) :
    response.from_json w =
      .ok
        { jsonrpc := version, id := read_json_rpc_id id, result := w.find? "result"
          err := none } := by
  rw [← json.at_eq_ok_iff] at hversion hid
  unfold response.from_json response.get_to
  rw [hversion, hid, json.contains_eq_isSome, herror, json.contains_eq_isSome]
  cases hresult : w.find? "result" with
  | none => rfl
  | some result =>
      rw [json.at_eq_ok_iff.mpr hresult]
      rfl

/-- With an error the result is not read, even if the value has one; the checks have refused
such a value before. -/
theorem response.from_json_eq_error {w id value : json} {version : String} {err : error}
    (hversion : w.find? "jsonrpc" = some (.string version)) (hid : w.find? "id" = some id)
    (herror : w.find? "error" = some value) (hread : error.from_json value = .ok err) :
    response.from_json w =
      .ok { jsonrpc := version, id := read_json_rpc_id id, result := none, err := some err } := by
  rw [← json.at_eq_ok_iff] at hversion hid
  unfold response.from_json response.get_to
  rw [hversion, hid, json.contains_eq_isSome, herror, json.at_eq_ok_iff.mpr herror]
  simp [bind, Except.bind, json.get_string, hread, pure, Except.pure]

/-! ## The shapes are what is accepted

In one direction a value of a shape passes every check, and the conversion behind the checks
does not throw, so nothing of a shape ends in the `catch (...)`. In the other the checks that
were passed on the way to a message are the members of its shape. Every other way out of the
function is the one diagnostic.

The shapes exclude each other: a request and a notification differ in the ID, and a response has
no method. So the outcome for a value is determined by its shape, and what the message holds is
read off the value by the same lookups that the shape names. -/

section Shapes

variable {w : json}

/-- Only an object has members, so a value with one has passed the first check. -/
theorem is_object_of_find? {value : json} {key : String} (h : w.find? key = some value) :
    w.is_object = true := by
  cases w with
  | object members => rfl
  | _ => cases h

theorem contains_eq_false {key : String} : w.contains key = false ↔ w.find? key = none := by
  rw [json.contains_eq_isSome, Option.isSome_eq_false_iff, Option.isNone_iff_eq_none]

theorem contains_eq_true {key : String} : w.contains key = true ↔ w.find? key ≠ none := by
  rw [json.contains_eq_isSome, Option.isSome_iff_ne_none]

/-- A value of the shape of a request is decoded to a request that holds its members: each check
on the way is one of the fields of the shape. -/
theorem decode_of_request_shape (h : request_shape w) :
    ∃ r, decode_message w = .ok (.request r) ∧ reads_request w r := by
  obtain ⟨name, hname⟩ := h.method
  obtain ⟨id, hid, hkind⟩ := h.id
  have hread := request.from_json_eq h.version hid hname
  refine ⟨⟨"2.0", read_json_rpc_id id, name, w.find? "params"⟩, ?_, ⟨rfl, ?_, hname, rfl⟩⟩
  · unfold decode_message
    rw [is_object_of_find? hid, version_ok_iff.mpr h.version, hname, hid,
      contains_eq_false.mpr h.no_result, contains_eq_false.mpr h.no_error,
      params_ok_iff.mpr h.params, hread]
    change (if (!is_request_id id) = true then _ else _) = _
    rw [is_request_id_iff.mpr hkind]
    rfl
  · rw [hid, read_json_rpc_id_to_json hkind]

/-- The same without an ID, where the branch of the source is the one that finds none. -/
theorem decode_of_notification_shape (h : notification_shape w) :
    ∃ n, decode_message w = .ok (.notification n) ∧ reads_notification w n := by
  obtain ⟨name, hname⟩ := h.method
  have hread := notification.from_json_eq h.version hname
  refine ⟨⟨"2.0", name, w.find? "params"⟩, ?_, ⟨rfl, hname, rfl⟩⟩
  unfold decode_message
  rw [is_object_of_find? hname, version_ok_iff.mpr h.version, hname, h.id,
    contains_eq_false.mpr h.no_result, contains_eq_false.mpr h.no_error,
    params_ok_iff.mpr h.params, hread]
  rfl

/-- The ID of a response is a request's ID, or null beside an error. -/
theorem response_id_ok {id : json} (h : id.is_string = true ∨ id.is_number_integer = true ∨
      id = .null ∧ w.find? "error" ≠ none) :
    (!is_request_id id && !(w.contains "error" && id.is_null)) = false ∧
      (read_json_rpc_id id).to_json = id := by
  rcases h with h | h | ⟨rfl, herror⟩
  · exact ⟨by rw [is_request_id_iff.mpr (.inl h)]; rfl, read_json_rpc_id_to_json (.inl h)⟩
  · exact ⟨by rw [is_request_id_iff.mpr (.inr h)]; rfl, read_json_rpc_id_to_json (.inr h)⟩
  · exact ⟨by rw [contains_eq_true.mpr herror]; rfl, rfl⟩

/-- A value of the shape of a response is decoded to a response. The two cases are the result
and the error; in each the other member is missing, as the check on both asks. -/
theorem decode_of_response_shape (h : response_shape w) :
    ∃ r, decode_message w = .ok (.response r) ∧ reads_response w r := by
  obtain ⟨id, hid, hkind⟩ := h.id
  obtain ⟨hidok, hidread⟩ := response_id_ok hkind
  -- the checks, made once for both cases
  have hdecode : ∀ r, w.contains "result" ≠ w.contains "error" → error_ok w = true →
      response.from_json w = .ok r → decode_message w = .ok (.response r) := by
    intro r hone herr hread
    have hchecks : (w.contains "result" = w.contains "error" ||
        (!is_request_id id && !(w.contains "error" && id.is_null)) || !error_ok w) = false := by
      rw [hidok, herr, decide_eq_false hone]
      rfl
    unfold decode_message
    rw [is_object_of_find? hid, version_ok_iff.mpr h.version, h.no_method, hid, hread]
    dsimp only
    rw [hchecks]
    rfl
  cases herror : w.find? "error" with
  | none =>
      have hresult : w.find? "result" ≠ none := by
        intro hnone
        exact h.one_of.mp hnone herror
      have hread := response.from_json_eq_result h.version hid herror
      refine ⟨_, hdecode _ ?_ ?_ hread, ⟨rfl, ?_, rfl, ?_, ?_⟩⟩
      · rw [contains_eq_true.mpr hresult, contains_eq_false.mpr herror]
        decide
      · unfold error_ok
        rw [herror]
      · rw [hid, hidread]
      · simp [herror]
      · intro err herr
        cases herr
  | some value =>
      have hshape := h.error value herror
      obtain ⟨err, herr, hreads⟩ := error.from_json_eq hshape
      have hresult : w.find? "result" = none := h.one_of.mpr (by rw [herror]; exact nofun)
      have hread := response.from_json_eq_error h.version hid herror herr
      have hsome : w.find? "error" ≠ none := by
        rw [herror]
        exact Option.some_ne_none value
      refine ⟨_, hdecode _ ?_ ?_ hread, ⟨rfl, ?_, ?_, ?_, ?_⟩⟩
      · rw [contains_eq_false.mpr hresult, contains_eq_true.mpr hsome]
        decide
      · unfold error_ok
        rw [herror]
        exact is_wire_error_iff.mpr hshape
      · rw [hid, hidread]
      · exact hresult.symm
      · simp [herror]
      · rintro err' heq
        cases heq
        exact ⟨value, herror, hreads⟩

/-- What passed every check is of one of the shapes. -/
theorem shape_of_decode {m : incoming_message} (h : decode_message w = .ok m) :
    request_shape w ∨ notification_shape w ∨ response_shape w := by
  unfold decode_message at h
  -- the checks in the order of the source; each that fails is the `cases h` of its branch
  split at h
  · cases h
  split at h
  · cases h
  rename_i hversion
  rw [Bool.not_eq_true', Bool.not_eq_false, version_ok_iff] at hversion
  split at h
  · rename_i method hmethod
    split at h
    · cases h
    rename_i hchecks
    simp only [Bool.or_eq_true, Bool.not_eq_true', not_or, Bool.not_eq_true,
      Bool.not_eq_false] at hchecks
    obtain ⟨⟨⟨hstring, hresult⟩, herror⟩, hparams⟩ := hchecks
    rw [contains_eq_false] at hresult herror
    rw [params_ok_iff] at hparams
    have hname : ∃ name, w.find? "method" = some (.string name) := by
      cases method with
      | string name => exact ⟨name, hmethod⟩
      | _ => cases hstring
    split at h
    -- an ID makes it a request, and without one it is a notification
    · rename_i id hid
      split at h
      · cases h
      rename_i hkind
      rw [Bool.not_eq_true', Bool.not_eq_false, is_request_id_iff] at hkind
      exact .inl ⟨hversion, hname, ⟨id, hid, hkind⟩, hresult, herror, hparams⟩
    · rename_i hid
      exact .inr (.inl ⟨hversion, hname, hid, hresult, herror, hparams⟩)
  -- without a method it is a response: exactly one of result and error
  · rename_i hmethod
    split at h
    · cases h
    rename_i id hid
    split at h
    · cases h
    rename_i hchecks
    simp only [Bool.or_eq_true, decide_eq_true_eq, Bool.not_eq_true', not_or,
      Bool.not_eq_true, Bool.not_eq_false] at hchecks
    obtain ⟨⟨hone, hkind⟩, herror⟩ := hchecks
    refine .inr (.inr ⟨hversion, hmethod, ?_, ⟨id, hid, ?_⟩, ?_⟩)
    · rw [json.contains_eq_isSome, json.contains_eq_isSome] at hone
      cases hr : w.find? "result" <;> cases he : w.find? "error" <;> simp_all
    -- an ID of a response is a string or an integer, or null beside an error
    · rw [Bool.and_eq_false_iff, Bool.not_eq_false', Bool.not_eq_false', is_request_id_iff,
        Bool.and_eq_true, contains_eq_true] at hkind
      rcases hkind with (hs | hi) | ⟨he, hn⟩
      · exact .inl hs
      · exact .inr (.inl hi)
      · refine .inr (.inr ⟨?_, he⟩)
        cases id with
        | null => rfl
        | _ => cases hn
    · intro value hvalue
      unfold error_ok at herror
      rw [hvalue] at herror
      exact is_wire_error_iff.mp herror

/-- Whatever check fails, and also when a conversion throws, the answer is the same diagnostic,
made from the value alone. -/
theorem decode_failure_of_error {f : response} (h : decode_message w = .error f) :
    f = decode_failure w := by
  have hget : ∀ {α : Type} (value : Except json_exception α) (wrap : α → incoming_message),
      get_or_failure w value wrap = .error f → f = decode_failure w := by
    intro α value wrap heq
    cases value with
    | error e => exact (Except.error.inj heq).symm
    | ok a => cases heq
  unfold decode_message at h
  repeat' split at h
  all_goals first
    | exact (Except.error.inj h).symm
    | exact hget _ _ h

/-- The diagnostic carries the ID of the value when that is a string or an integer, also where
the value was refused for another reason, and null otherwise. -/
theorem decode_failure_reads (w : json) : reads_failure w (decode_failure w) := by
  refine ⟨rfl, rfl, ?_, ?_⟩
  · intro value hvalue hkind
    have hid : (decode_failure w).id = read_json_rpc_id value := by
      unfold decode_failure failure_id
      rw [hvalue]
      exact if_pos (is_request_id_iff.mpr hkind)
    rw [hid, read_json_rpc_id_to_json hkind]
  · intro hnone
    unfold decode_failure failure_id
    cases hvalue : w.find? "id" with
    | none => rfl
    | some value =>
        refine if_neg ?_
        rw [is_request_id_iff]
        exact hnone value hvalue

/-- The outcomes of `decode_message`, each with the shape it stands for. -/
inductive decoded (w : json) : Except response incoming_message → Prop
  | request (r : request) (hshape : request_shape w) (hreads : reads_request w r) :
      decoded w (.ok (.request r))
  | notification (n : notification) (hshape : notification_shape w)
      (hreads : reads_notification w n) : decoded w (.ok (.notification n))
  | response (r : response) (hshape : response_shape w) (hreads : reads_response w r) :
      decoded w (.ok (.response r))
  | failure (f : response) (hrequest : ¬request_shape w) (hnotification : ¬notification_shape w)
      (hresponse : ¬response_shape w) (hreads : reads_failure w f) : decoded w (.error f)

/-- Every value has one of the four outcomes, with its shape or without any. The shapes are
tried in turn, and a value of none of them cannot have been accepted. -/
theorem decode_message_decoded (w : json) : decoded w (decode_message w) := by
  by_cases hrequest : request_shape w
  · obtain ⟨r, hdecode, hreads⟩ := decode_of_request_shape hrequest
    rw [hdecode]
    exact .request r hrequest hreads
  by_cases hnotification : notification_shape w
  · obtain ⟨n, hdecode, hreads⟩ := decode_of_notification_shape hnotification
    rw [hdecode]
    exact .notification n hnotification hreads
  by_cases hresponse : response_shape w
  · obtain ⟨r, hdecode, hreads⟩ := decode_of_response_shape hresponse
    rw [hdecode]
    exact .response r hresponse hreads
  cases hdecode : decode_message w with
  | error f =>
      have hf := decode_failure_of_error hdecode
      subst hf
      exact .failure _ hrequest hnotification hresponse (decode_failure_reads w)
  | ok m =>
      rcases shape_of_decode hdecode with h | h | h
      · exact absurd h hrequest
      · exact absurd h hnotification
      · exact absurd h hresponse

end Shapes

/-- `decode_message` accepts exactly the grammar and classifies by shape; a message
holds what its members say, and the diagnostic holds the ID it was given or none. -/
theorem decode_message_grammar (w : json) :
    ((∃ r, decode_message w = .ok (.request r)) ↔ request_shape w) ∧
      ((∃ n, decode_message w = .ok (.notification n)) ↔ notification_shape w) ∧
      ((∃ r, decode_message w = .ok (.response r)) ↔ response_shape w) ∧
      ((∃ f, decode_message w = .error f) ↔
        ¬request_shape w ∧ ¬notification_shape w ∧ ¬response_shape w) ∧
      (∀ r, decode_message w = .ok (.request r) → reads_request w r) ∧
      (∀ n, decode_message w = .ok (.notification n) → reads_notification w n) ∧
      (∀ r, decode_message w = .ok (.response r) → reads_response w r) ∧
      ∀ f, decode_message w = .error f → reads_failure w f := by
  have hdecoded := decode_message_decoded w
  refine ⟨⟨?_, fun h => ?_⟩, ⟨?_, fun h => ?_⟩, ⟨?_, fun h => ?_⟩, ⟨?_, ?_⟩, ?_, ?_, ?_, ?_⟩
  · rintro ⟨r, hr⟩
    rw [hr] at hdecoded
    cases hdecoded
    assumption
  · obtain ⟨r, hr, -⟩ := decode_of_request_shape h
    exact ⟨r, hr⟩
  · rintro ⟨n, hn⟩
    rw [hn] at hdecoded
    cases hdecoded
    assumption
  · obtain ⟨n, hn, -⟩ := decode_of_notification_shape h
    exact ⟨n, hn⟩
  · rintro ⟨r, hr⟩
    rw [hr] at hdecoded
    cases hdecoded
    assumption
  · obtain ⟨r, hr, -⟩ := decode_of_response_shape h
    exact ⟨r, hr⟩
  · rintro ⟨f, hf⟩
    rw [hf] at hdecoded
    cases hdecoded with
    | failure _ hrequest hnotification hresponse _ => exact ⟨hrequest, hnotification, hresponse⟩
  -- what is accepted has a shape, so without one it is refused
  · rintro ⟨hrequest, hnotification, hresponse⟩
    cases hdecode : decode_message w with
    | error f => exact ⟨f, rfl⟩
    | ok m =>
        rcases shape_of_decode hdecode with h | h | h
        · exact absurd h hrequest
        · exact absurd h hnotification
        · exact absurd h hresponse
  -- the members read are part of what was shown of the decoding
  all_goals
    intro m hm
    rw [hm] at hdecoded
    cases hdecoded
    assumption

end SynapseMcp
