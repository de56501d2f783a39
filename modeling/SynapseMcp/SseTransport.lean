/-
`sse_transport.hpp`: `handle_client_message`, next to `frame` of `transport.hpp`.

Both parse a text, hand the value to the message callback and answer a text that is no JSON with
the same error. They differ in what stands inside their `try`: `handle_client_message` calls the
callback there, and it catches `parse_error` only. The procedures below change the list of what was
done so far, and what they leave with is an exception that nobody caught.
-/
import SynapseMcp.Procedures
import SynapseMcp.Protocol
import SynapseMcp.StdioFraming

set_option autoImplicit false

namespace SynapseMcp.client_text

open Procedures

/-- An exception, as far as the handlers tell them apart. -/
inductive json_throw where
  | parse_error
  | out_of_range (id : Nat)
  | other
  deriving DecidableEq

/-- What decoding a JSON text throws: a syntax error, or a number it has no type for. -/
def json_throw.decoding (e : json_throw) : Prop := e = .parse_error ∨ e = .out_of_range 406

/-- What was done so far, and an exception where nobody catches it. -/
abbrev act_procedure (α : Type) := Procedure (List read_act) json_throw α

/-- One thing is done. -/
def act (a : read_act) : act_procedure Unit := call fun acts => ((), acts ++ [a])

/-- `std::function` of a message; what it throws is up to the application. -/
abbrev message_callback := json → Option json_throw

/-- `if (callback) callback(value)`. -/
def invoke (callback : Option message_callback) (value : json) : act_procedure Unit :=
  match callback with
  | none => pure ()
  | some callback => do
      act (.message value)
      match callback value with
      | none => pure ()
      | some e => throw e

/-- `nlohmann::json::parse`. -/
def decode (lib : json_library) (text : List UInt8) : act_procedure json :=
  match lib.parse text with
  | .value v => pure v
  | .parse_error => throw .parse_error
  | .out_of_range id => throw (.out_of_range id)
  | .other => throw .other

/-! ## `sse_transport`

The `try` goes round the callback as well as round the parser. A parse error that the callback
lets out is therefore answered as if the text had been at fault, and any other exception leaves
the function. -/

/-- The response that `handle_client_message` sends. -/
def sse_parse_error : response where
  id := .null
  result := none
  err := some { code := error_code.parse_error.value, message := "Parse error", data := none }

/-- `handle_client_message`: parse, call, and answer a parse error from either. -/
def handle_client_message (lib : json_library)
    (message_callback_ : Option message_callback) (payload : List UInt8) : act_procedure Unit :=
  tryCatch
    (do
      let j ← decode lib payload
      invoke message_callback_ j)
    (fun e =>
      match e with
      | .parse_error => act (.send sse_parse_error.to_json)
      | e => throw e)

/-! ## `stdio_transport`

Here the parser has a `try` of its own. Its catches are for parse errors and for `out_of_range`,
of which all but 406 are thrown on. The callback has another one, which catches everything and
closes the transport. The decision about the line is `StdioFraming`'s; this carries it out. -/

/-- `frame` carries out its decision about a line; `accepts` is what `send` answers. -/
def carry_out (lib : json_library) (line : List UInt8) (message_ : Option message_callback)
    (accepts : Bool) : frame_next → act_procedure Bool
  | .skip => pure true
  | .close reason => do
      act (.close reason)
      pure false
  | .diagnose => do
      act (.send parse_error_frame)
      if accepts then pure true
      else do
        act (.close .protocol_limit)
        pure false
  | .call value =>
      tryCatch
        (do
          invoke message_ value
          pure true)
        (fun _ => do
          act (.close .io_error)
          pure false)
  | .throw => do
      -- what `parse` threw goes on
      let _ ← decode lib line
      pure false

/-- `frame`: the decision, carried out. -/
def frame (lib : json_library) (o : stdio_options)
    (message_ : Option message_callback) (accepts : Bool) (line : List UInt8) :
    act_procedure Bool :=
  carry_out lib line message_ accepts (stdio_transport.frame lib o line)

/-- The two transports answer a text that is no JSON with the same message. -/
theorem sse_parse_error_frame : sse_parse_error.to_json = parse_error_frame := rfl

/-! ## What a text comes to

Only what leaves the transport is compared: the values the callback was handed and the messages
that were sent, from the list of what was done. The lemmas go through what a parse can come to,
for each of the two functions; the agreement is then read off, and fails in the two cases that
the difference between the `try` blocks makes. -/

/-- The values that were handed to the callback. -/
def deliveries (acts : List read_act) : List json :=
  acts.filterMap fun a =>
    match a with
    | .message value => some value
    | _ => none

/-- The messages that were sent. -/
def sent (acts : List read_act) : List json :=
  acts.filterMap fun a =>
    match a with
    | .send message => some message
    | _ => none

/-- One value is delivered, once, and nothing is sent. -/
def delivers (value : json) (acts : List read_act) : Prop :=
  deliveries acts = [value] ∧ sent acts = []

/-- Nothing is delivered, and the parse error is sent once. -/
def rejects (acts : List read_act) : Prop := deliveries acts = [] ∧ sent acts = [parse_error_frame]

/-- The two decoders classify the text alike. -/
def classified_alike (sse stdio : List read_act) : Prop :=
  (∃ value, delivers value sse ∧ delivers value stdio) ∨ rejects sse ∧ rejects stdio

/-- No exception of a JSON decoder leaves the procedure. -/
def contained {α : Type} (result : Except json_throw α) : Prop :=
  ∀ e, json_throw.decoding e → result ≠ .error e

/-- What both make of a text, starting with nothing done. -/
structure agreement (lib : json_library) (o : stdio_options) (callback : message_callback)
    (accepts : Bool) (text : List UInt8) : Prop where
  alike : classified_alike (outcome (handle_client_message lib (some callback) text) []).2
    (outcome (frame lib o (some callback) accepts text) []).2
  sse : contained (outcome (handle_client_message lib (some callback) text) []).1
  stdio : contained (outcome (frame lib o (some callback) accepts text) []).1

section runs

variable {lib : json_library} {o : stdio_options} {callback : message_callback} {accepts : Bool}
  {text : List UInt8} {value : json} {acts : List read_act}

/-- What is done is added to the list. -/
@[simp] theorem outcome_act (a : read_act) (acts : List read_act) :
    outcome (act a) acts = (.ok (), acts ++ [a]) := rfl

/-- A text that parses leaves the list alone. -/
theorem outcome_decode_value (h : lib.parse text = .value value) (acts : List read_act) :
    outcome (decode lib text) acts = (.ok value, acts) := by
  unfold decode
  rw [h]
  rfl

/-- What the callback does counts as delivered, whatever it throws. -/
theorem outcome_invoke (callback : message_callback) (value : json) (acts : List read_act) :
    outcome (invoke (some callback) value) acts =
      ((match callback value with
        | none => .ok ()
        | some e => .error e), acts ++ [.message value]) := by
  unfold invoke
  rw [outcome_bind, outcome_act]
  cases callback value with
  | none => rfl
  | some e => rfl

/-- A value: `handle_client_message` takes a parse error of the callback for one of the text. -/
theorem handle_value (h : lib.parse text = .value value) :
    outcome (handle_client_message lib (some callback) text) [] =
      match callback value with
      | none => (.ok (), [.message value])
      | some .parse_error => (.ok (), [.message value, .send parse_error_frame])
      | some e => (.error e, [.message value]) := by
  unfold handle_client_message
  rw [outcome_tryCatch, outcome_bind, outcome_decode_value h]
  dsimp only
  rw [outcome_invoke]
  cases callback value with
  | none => rfl
  | some e => cases e <;> rfl

/-- A text that is no JSON is answered, and nobody is called. -/
theorem handle_parse_error (h : lib.parse text = .parse_error) :
    outcome (handle_client_message lib (some callback) text) [] =
      (.ok (), [.send parse_error_frame]) := by
  unfold handle_client_message decode
  rw [outcome_tryCatch, outcome_bind, h]
  rfl

/-- A number without a type is not caught. -/
theorem handle_out_of_range {id : Nat} (h : lib.parse text = .out_of_range id) :
    outcome (handle_client_message lib (some callback) text) [] =
      (.error (.out_of_range id), []) := by
  unfold handle_client_message decode
  rw [outcome_tryCatch, outcome_bind, h]
  rfl

/-- A value within the depth: `frame` calls back and goes on, or closes where the callback
throws. -/
theorem frame_value (htext : text ≠ []) (hdepth : excessive_depth o text = false)
    (h : lib.parse text = .value value) :
    outcome (frame lib o (some callback) accepts text) [] =
      match callback value with
      | none => (.ok true, [.message value])
      | some _ => (.ok false, [.message value, .close .io_error]) := by
  have hnext : stdio_transport.frame lib o text = .call value := by
    unfold stdio_transport.frame
    rw [if_neg htext, hdepth, h]
    rfl
  unfold frame
  rw [hnext]
  unfold carry_out
  rw [outcome_tryCatch, outcome_bind, outcome_invoke]
  cases callback value with
  | none => rfl
  | some e => rfl

/-- `frame` rejects a number without a type like any other text that is no JSON. -/
theorem frame_rejects (htext : text ≠ []) (hdepth : excessive_depth o text = false)
    (h : lib.parse text = .parse_error ∨ lib.parse text = .out_of_range 406) :
    rejects (outcome (frame lib o (some callback) accepts text) []).2 ∧
      contained (outcome (frame lib o (some callback) accepts text) []).1 := by
  have hnext : stdio_transport.frame lib o text = .diagnose := by
    unfold stdio_transport.frame
    rw [if_neg htext, hdepth]
    rcases h with h | h <;> rw [h] <;> rfl
  unfold frame
  rw [hnext]
  unfold carry_out
  rw [outcome_bind, outcome_act]
  cases accepts with
  | true => exact ⟨⟨rfl, rfl⟩, fun e _ => by simp⟩
  | false => exact ⟨⟨rfl, rfl⟩, fun e _ hresult => by cases hresult⟩

/-- A procedure that returns lets nothing out. -/
theorem ok_contained {α : Type} (a : α) : contained (.ok a) := by
  intro e _ hresult
  cases hresult

/-- A callback that throws a parse error makes `handle_client_message` answer a text that it has
delivered. -/
theorem alike_value (htext : text ≠ []) (hdepth : excessive_depth o text = false)
    (h : lib.parse text = .value value) :
    classified_alike (outcome (handle_client_message lib (some callback) text) []).2
      (outcome (frame lib o (some callback) accepts text) []).2 ↔
      callback value ≠ some .parse_error := by
  have hdelivers : delivers value
      (outcome (frame lib o (some callback) accepts text) []).2 := by
    rw [frame_value htext hdepth h]
    cases callback value with
    | none => exact ⟨rfl, rfl⟩
    | some e => exact ⟨rfl, rfl⟩
  rw [handle_value h]
  cases callback value with
  | none => simpa using .inl ⟨value, ⟨rfl, rfl⟩, hdelivers⟩
  | some e =>
      cases e with
      | parse_error =>
          simp only [ne_eq, not_true_eq_false, iff_false]
          -- it was delivered and answered as well
          rintro (⟨v, hdelivered, _⟩ | ⟨hrejects, _⟩)
          · cases hdelivered.2
          · cases hrejects.1
      | out_of_range id => simpa using .inl ⟨value, ⟨rfl, rfl⟩, hdelivers⟩
      | other => simpa using .inl ⟨value, ⟨rfl, rfl⟩, hdelivers⟩

/-- The two classify a text alike unless it holds a number that has no type, or the callback throws
a parse error for the value. -/
theorem alike_iff (htext : text ≠ []) (hdepth : excessive_depth o text = false)
    (hparse : (∃ v, lib.parse text = .value v) ∨ lib.parse text = .parse_error ∨
      lib.parse text = .out_of_range 406) :
    classified_alike (outcome (handle_client_message lib (some callback) text) []).2
      (outcome (frame lib o (some callback) accepts text) []).2 ↔
      lib.parse text ≠ .out_of_range 406 ∧
        ∀ v, lib.parse text = .value v → callback v ≠ some .parse_error := by
  rcases hparse with ⟨v, hv⟩ | herror | hrange
  · rw [alike_value htext hdepth hv, hv]
    simp
  · have hrejects : rejects (outcome (frame lib o (some callback) accepts text) []).2 :=
      (frame_rejects htext hdepth (.inl herror)).1
    rw [handle_parse_error herror, herror]
    simpa using .inr ⟨⟨rfl, rfl⟩, hrejects⟩
  · rw [handle_out_of_range hrange, hrange]
    simp only [ne_eq, not_true_eq_false, false_and, iff_false]
    -- nothing was delivered and nothing was sent
    rintro (⟨v, hdelivered, _⟩ | ⟨hrejects, _⟩)
    · cases hdelivered.1
    · cases hrejects.2

/-- Only a number without a type leaves `handle_client_message`, of the text or of a text that the
callback decodes. -/
theorem handle_contained_iff
    (hparse : (∃ v, lib.parse text = .value v) ∨ lib.parse text = .parse_error ∨
      lib.parse text = .out_of_range 406) :
    contained (outcome (handle_client_message lib (some callback) text) []).1 ↔
      lib.parse text ≠ .out_of_range 406 ∧
        ∀ v, lib.parse text = .value v → callback v ≠ some (.out_of_range 406) := by
  -- by what the parser makes of the text
  rcases hparse with ⟨v, hv⟩ | herror | hrange
  · rw [handle_value hv, hv]
    cases hcall : callback v with
    | none => simpa [hcall] using ok_contained ()
    | some e =>
        cases e with
        | parse_error => simpa [hcall] using ok_contained ()
        | out_of_range id => simp [hcall, contained, json_throw.decoding]
        | other => simp [hcall, contained, json_throw.decoding]
  · rw [handle_parse_error herror, herror]
    simpa using ok_contained ()
  · rw [handle_out_of_range hrange, hrange]
    simp [contained, json_throw.decoding]

/-- `frame` lets nothing out of a line whose parse it has a catch for, whatever the callback
throws. -/
theorem frame_contained (htext : text ≠ []) (hdepth : excessive_depth o text = false)
    (hparse : (∃ v, lib.parse text = .value v) ∨ lib.parse text = .parse_error ∨
      lib.parse text = .out_of_range 406) :
    contained (outcome (frame lib o (some callback) accepts text) []).1 := by
  rcases hparse with ⟨v, hv⟩ | hrejected
  · rw [frame_value htext hdepth hv]
    cases callback v with
    | none => exact ok_contained true
    | some e => exact ok_contained false
  · exact (frame_rejects htext hdepth hrejected).2

/-- The decoders agree on a text unless it holds a number that has no type, or the callback throws
an exception of a decoder of its own for the value. -/
theorem decoders_agree (htext : text ≠ []) (hdepth : excessive_depth o text = false)
    (hparse : (∃ v, lib.parse text = .value v) ∨ lib.parse text = .parse_error ∨
      lib.parse text = .out_of_range 406) :
    agreement lib o callback accepts text ↔
      lib.parse text ≠ .out_of_range 406 ∧
        ∀ v, lib.parse text = .value v → ∀ e, callback v = some e → ¬e.decoding := by
  constructor
  · intro hagree
    obtain ⟨hrange, hparse_error⟩ := (alike_iff htext hdepth hparse).mp hagree.alike
    have hout := ((handle_contained_iff hparse).mp hagree.sse).2
    refine ⟨hrange, ?_⟩
    -- a parse error of the callback shows in what is sent, the other exception leaves
    rintro v hv e he (herror | herror)
    · exact hparse_error v hv (he.trans (congrArg some herror))
    · exact hout v hv (he.trans (congrArg some herror))
  · rintro ⟨hrange, hcallback⟩
    refine ⟨?_, ?_, frame_contained htext hdepth hparse⟩
    · apply (alike_iff htext hdepth hparse).mpr
      exact ⟨hrange, fun v hv he => hcallback v hv _ he (.inl rfl)⟩
    · apply (handle_contained_iff hparse).mpr
      exact ⟨hrange, fun v hv he => hcallback v hv _ he (.inr rfl)⟩

end runs

/-! ## A number without a type

The parser reports a number that is too large as `out_of_range` with the identifier 406, and not
as a parse error. One transport lets it out, the other sends the parse error. -/

/-- `1e1000` -/
def overflow_text : List UInt8 := [0x31, 0x65, 0x31, 0x30, 0x30, 0x30]

/-- `{}` -/
def empty_object_text : List UInt8 := [0x7b, 0x7d]

/-- The library on these two texts. -/
def overflow_library : json_library where
  parse text :=
    if text = overflow_text then .out_of_range 406
    else if text = empty_object_text then .value (json.object_of [])
    else .parse_error
  dump _ := []

/-- A callback that returns. -/
def quiet_callback : message_callback := fun _ => none

/-- On a text that parses, with a callback that returns, the two agree. -/
theorem decoders_agree_empty_object :
    agreement overflow_library {} quiet_callback true empty_object_text := by
  apply (decoders_agree (by decide) (by decide) (.inl ⟨json.object_of [], rfl⟩)).mpr
  refine ⟨by simp [overflow_library, overflow_text, empty_object_text], ?_⟩
  intro v _ e he
  cases he

/-- On a number that is too large they do not: one is left with an exception, and no answer was
sent. -/
theorem overflow_parts :
    ¬agreement overflow_library {} quiet_callback true overflow_text := by
  intro hagree
  have hsse : outcome (handle_client_message overflow_library (some quiet_callback) overflow_text)
      [] = (.error (.out_of_range 406), []) := handle_out_of_range rfl
  have hcontained := hagree.sse
  rw [hsse] at hcontained
  exact hcontained _ (.inr rfl) rfl

end SynapseMcp.client_text
