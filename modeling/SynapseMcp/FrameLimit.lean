/-
The server's frame check and the transport's encoder.

`emit` measures a frame with one buffer and `send` encodes it into another, and the
serializer need not split the text in the same pieces for both. With the limit that the
transport gives out, what the one finds to fit the other encodes. The newline is charged
to the queue alone, and the limit leaves a byte for it.
-/
import SynapseMcp.StdioAccounting
import SynapseMcp.Server

set_option autoImplicit false

namespace SynapseMcp

open Transition

/-! ## A running transport has valid limits

The largest frame leaves one byte of `max_outbound_bytes` for its newline, which a limit of zero
does not have. `start` looks at the limits before it sets `started_`, and they never change. -/

namespace stdio_transport

/-- `start` sets the flag behind its check of the limits. -/
theorem start_started {t : stdio_transport} (a : start_answers)
    (h : (t.start a).1.started_ = true) : t.started_ = true ∨ t.options_.valid = true := by
  unfold start at h
  split at h
  · exact .inl h
  split at h
  · exact .inl h
  rename_i hvalid
  exact .inr (by simpa using hvalid)

end stdio_transport

namespace close_view

/-- The limits stay as they are, and only a start that found them valid sets `started_`. -/
theorem step.started {v v' : close_view} (hstep : v.step v') :
    v'.shared.options_ = v.shared.options_ ∧
      (v'.shared.started_ = true → v.shared.started_ = true ∨ v.shared.options_.valid = true) := by
  have hbegin : ∀ reason, (v.shared.begin_close reason).1.options_ = v.shared.options_ ∧
      ((v.shared.begin_close reason).1.started_ = true → v.shared.started_ = true) := by
    intro reason
    rcases v.shared.begin_close_cases reason with ⟨-, heq⟩ | ⟨-, heq⟩ <;> rw [heq] <;>
      exact ⟨rfl, id⟩
  have hdone : ∀ reading, (v.shared.worker_done reading).options_ = v.shared.options_ ∧
      ((v.shared.worker_done reading).started_ = true → v.shared.started_ = true) := by
    intro reading
    cases reading <;> exact ⟨rfl, id⟩
  cases hstep with
  | start a hfresh =>
      exact ⟨(v.shared.start_keeps_queue a).options, stdio_transport.start_started a⟩
  | start_again a hstarting =>
      exact ⟨(v.shared.start_keeps_queue a).options, stdio_transport.start_started a⟩
  | stop => exact ⟨(hbegin _).1, fun h => .inl ((hbegin _).2 h)⟩
  | tail_begins htail => exact ⟨(hbegin _).1, fun h => .inl ((hbegin _).2 h)⟩
  | tail_claims htail =>
      exact ⟨v.shared.claim_close_keeps_queue.options,
        fun h => .inl (v.shared.claim_close_started ▸ h)⟩
  | wake_unstarted hwriter hstarted => exact ⟨(hdone _).1, fun h => .inl ((hdone _).2 h)⟩
  | tail_ends htail => exact ⟨(hdone _).1, fun h => .inl ((hdone _).2 h)⟩
  | _ => exact ⟨rfl, .inl⟩

end close_view

section Limits

variable {lib : json_library} {o : stdio_options} {stream : List UInt8} {w : stdio_world}

/-- In every run: a transport that has started has limits that `start` accepts. -/
theorem stdio_started_valid (h : (stdio_runs lib o stream).Reachable w)
    (hstarted : w.shared.started_ = true) : w.shared.options_.valid = true := by
  have hview := (stdio_view_simulation lib o stream).reachable h
  have hvalid : w.view.shared.started_ = true → w.view.shared.options_.valid = true := by
    refine hview.invariant
      (P := fun v => v.shared.started_ = true → v.shared.options_.valid = true) ?_ ?_
    · rintro v rfl hfalse
      cases hfalse
    · intro v _ v' _ hv hstep hstarted'
      obtain ⟨hoptions, hcases⟩ := close_view.step.started hstep
      rw [hoptions]
      rcases hcases hstarted' with hbefore | hnow
      · exact hv hbefore
      · exact hnow
  exact hvalid hstarted

end Limits

/-! ## What `emit` passes on

`emit` asks `frame_fits` about the reply, and about its replacement if the reply does not fit.
What is handed to the transport has therefore been measured, with a serializer that may have cut
the text in other pieces than the one `send` will use; the length of a text does not depend on
that. -/

/-- `frame_fits` of `emit` measures with the limit, whatever the serializer does on the
way: a text it does not get through with does not fit. -/
def emit_answers.measures (a : emit_answers) (lib : json_library) (limit : Nat) : Prop :=
  ∀ wire, ∃ m : serialized, (m.throws = none → m.encoding = lib.encoding wire) ∧
    a.frame_fits wire = server_policy.frame_fits m limit

/-- A frame that is passed on was found to fit. -/
theorem emit_fits {a : emit_answers} {reply : response} {method : String} {wire : json}
    (h : (emit a reply method).1 = some wire) : a.frame_fits wire = true := by
  unfold emit at h
  by_cases hthrows : a.encode_throws = true
  · rw [if_pos hthrows] at h
    cases h
  rw [if_neg hthrows] at h
  by_cases hfits : a.frame_fits reply.to_json = true
  · rw [if_pos hfits] at h
    cases h
    exact hfits
  rw [if_neg hfits] at h
  dsimp only at h
  by_cases hreplaced : a.frame_fits (replacement reply method).to_json = true
  · rw [if_pos hreplaced] at h
    cases h
    exact hreplaced
  · rw [if_neg hreplaced] at h
    cases h

/-- A frame that fits is encodable, however it is split. -/
theorem emit_answers.measures.length_le {a : emit_answers} {lib : json_library} {limit : Nat}
    {wire : json} (h : a.measures lib limit) (hfits : a.frame_fits wire = true) :
    (lib.encoding wire).length ≤ limit := by
  obtain ⟨m, hm, heq⟩ := h wire
  rw [heq, server_policy.frame_fits_iff] at hfits
  rw [← hm hfits.1]
  exact hfits.2

/-- The check and the encoder agree.

For every way the serializer splits a text and for every limit, both buffers accept it
exactly when it is no longer than the limit; the bounded one then holds it, and on the
way neither is ever above its limit. So whatever `emit` passes to a transport whose limit
it measures with is within that limit, and the transport refuses it only if it is not
running or if the text and its newline do not fit what is left of the queue. -/
theorem frame_checks_agree (lib : json_library) :
    (∀ (puts : List put) (limit : Nat),
      (server_policy.frame_fits ⟨puts, none⟩ limit = true ↔
        (puts.flatMap put.bytes).length ≤ limit) ∧
      (((bounded_buffer.empty limit).insert puts).2 = true ↔
        (puts.flatMap put.bytes).length ≤ limit) ∧
      ((puts.flatMap put.bytes).length ≤ limit →
        ((bounded_buffer.empty limit).insert puts).1.bytes_ = puts.flatMap put.bytes) ∧
      ∀ before, before <+: puts →
        ((stream_insert counting_buffer.put (.empty limit) before).1.limit_ = limit ∧
          (stream_insert counting_buffer.put (.empty limit) before).1.size_ ≤ limit) ∧
        ((bounded_buffer.empty limit).insert before).1.limit_ = limit ∧
          ((bounded_buffer.empty limit).insert before).1.bytes_.length ≤ limit) ∧
    ∀ (o : stdio_options) (stream : List UInt8) (w : stdio_world),
      (stdio_runs lib o stream).Reachable w →
      (w.shared.started_ = true → w.shared.options_.max_outbound_bytes ≠ 0) ∧
      ∀ (a : emit_answers) (reply : response) (method : String) (wire : json),
        a.measures lib w.shared.max_encoded_frame_bytes →
        (emit a reply method).1 = some wire →
        (lib.encoding wire).length ≤ w.shared.max_encoded_frame_bytes ∧
        ∀ m : serialized, m.throws = none → m.encoding = lib.encoding wire →
          ((∃ err, w.shared.send m = .error err) ↔
            w.shared.started_ = false ∨ w.shared.closing_ = true ∨
              w.shared.options_.max_outbound_bytes - w.shared.queued_bytes_ <
                (lib.encoding wire).length + 1) := by
  refine ⟨fun puts limit => ⟨?_, ?_, fun hfits => ?_, fun before _ => ⟨?_, ?_⟩⟩, ?_⟩
  · rw [server_policy.frame_fits_iff]
    exact and_iff_right rfl
  · exact bounded_buffer.insert_iff limit puts
  · have hgood := (bounded_buffer.insert_iff limit puts).mpr hfits
    exact (bounded_buffer.insert_good (b := .empty limit) (Nat.zero_le _) hgood).1
  · exact (counting_buffer.metered limit).keeps_insert ⟨rfl, Nat.zero_le _⟩ before
  · rw [bounded_buffer.insert_eq]
    exact (bounded_buffer.metered limit).keeps_insert ⟨rfl, Nat.zero_le _⟩ before
  · intro o stream w h
    refine ⟨fun hstarted => ?_, fun a reply method wire hmeasures hemit => ?_⟩
    · have hvalid := stdio_started_valid h hstarted
      simp only [stdio_options.valid, Bool.and_eq_true, decide_eq_true_eq] at hvalid
      exact hvalid.1.1.2
    have hlength := hmeasures.length_le (emit_fits hemit)
    refine ⟨hlength, fun m hthrows hencoding => ?_⟩
    rw [← hencoding] at hlength ⊢
    -- a transport that runs refuses for room alone, any other one always
    by_cases hstarted : w.shared.started_ = true
    · by_cases hclosing : w.shared.closing_ = true
      · have hrefused : ∃ err, w.shared.send m = .error err := by
          unfold stdio_transport.send
          rw [if_pos (by simp [hclosing])]
          exact ⟨_, rfl⟩
        exact iff_of_true hrefused (.inr (.inl hclosing))
      · have hopen : w.shared.closing_ = false := by simpa using hclosing
        rw [stdio_transport.send_of_fits hstarted hopen hthrows hlength, hstarted, hopen]
        simp
    · have hidle : w.shared.started_ = false := by simpa using hstarted
      have hrefused : ∃ err, w.shared.send m = .error err := by
        unfold stdio_transport.send
        rw [if_pos (by simp [hidle])]
        exact ⟨_, rfl⟩
      exact iff_of_true hrefused (.inl hidle)

namespace stdio_session

/-- A reply that fits, on the transport of the session. -/
def fitting : emit_answers where
  encode_throws := false
  frame_fits _ := true
  send := .accepted

/-- It measures with the limit of that transport. -/
theorem fitting_measures : fitting.measures lib started.shared.max_encoded_frame_bytes :=
  fun wire => ⟨⟨lib.dump wire, none⟩, fun _ => rfl, rfl⟩

end stdio_session

theorem frame_checks_agree_fitting :
    (emit stdio_session.fitting (tool_failure .null) "tools/call").1 =
        some (tool_failure .null).to_json ∧
      (stdio_session.lib.encoding (tool_failure .null).to_json).length ≤
        stdio_session.started.shared.max_encoded_frame_bytes := by
  have hreach : (stdio_runs stdio_session.lib {} [0x30, newline]).Reachable
      stdio_session.started :=
    System.restrict_reachable (stdio_session.reaches_started (C := fun _ _ => True) trivial)
  have hemit : (emit stdio_session.fitting (tool_failure .null) "tools/call").1 =
      some (tool_failure .null).to_json := rfl
  exact ⟨hemit, (((frame_checks_agree stdio_session.lib).2 _ _ _ hreach).2 _ _ _ _
    stdio_session.fitting_measures hemit).1⟩

end SynapseMcp
