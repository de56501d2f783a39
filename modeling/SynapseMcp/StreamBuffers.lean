/-
The two stream buffers a frame is measured by: `counting_buffer` of `server_policy.hpp`,
which only counts, and `bounded_buffer` of `transport.hpp`, which keeps the bytes.

The serializer puts single characters and texts on the stream, in whatever pieces it
likes. A text that does not fit fills the counting buffer and leaves the bounded one as it
was; in both cases the put fails, the stream throws, and the outcome depends on nothing
but how long the whole encoding is.
-/
import SynapseMcp.StdioTransport

set_option autoImplicit false

namespace SynapseMcp

/-! ## Inserting into a buffer

`metered` is what the two buffers have in common. The serializer may cut a text in any pieces,
and a buffer may fill up in the middle of one; as long as a single put succeeds exactly when
there is room for it, whether all of them do depends on the sum. The induction is on the list of
puts, with the size so far taken off the limit. -/

section Insert

variable {β : Type}

/-- `stream << message` over a buffer: the first put that fails throws. -/
def stream_insert (put : β → SynapseMcp.put → β × Bool) (b : β) :
    List SynapseMcp.put → β × Bool
  | [] => (b, true)
  | p :: rest =>
      if (put b p).2 then stream_insert put (put b p).1 rest else ((put b p).1, false)

/-- A buffer within a limit that takes a put exactly when there is room for all of it. -/
structure metered (put : β → SynapseMcp.put → β × Bool) (size : β → Nat) (limit : Nat)
    (I : β → Prop) : Prop where
  within : ∀ b, I b → size b ≤ limit
  keeps : ∀ b p, I b → I (put b p).1
  takes : ∀ b p, I b → ((put b p).2 = true ↔ size b + p.bytes.length ≤ limit)
  grows : ∀ b p, I b → (put b p).2 = true → size (put b p).1 = size b + p.bytes.length

variable {put : β → SynapseMcp.put → β × Bool} {size : β → Nat} {limit : Nat} {I : β → Prop}

/-- What a single put keeps, the insertion keeps, whether it gets through or not. -/
theorem metered.keeps_insert (h : metered put size limit I) {b : β} (hb : I b)
    (puts : List SynapseMcp.put) : I (stream_insert put b puts).1 := by
  induction puts generalizing b with
  | nil => exact hb
  | cons p rest ih =>
      rw [stream_insert]
      split
      · exact ih (h.keeps b p hb)
      · exact h.keeps b p hb

/-- Only the length of the whole text decides whether a series of puts goes through, however the
text is cut into puts. -/
theorem metered.insert (h : metered put size limit I) {b : β} (hb : I b)
    (puts : List SynapseMcp.put) :
    (stream_insert put b puts).2 = true ↔
      size b + (puts.flatMap SynapseMcp.put.bytes).length ≤ limit := by
  induction puts generalizing b with
  | nil =>
      have hwithin := h.within b hb
      simpa [stream_insert] using hwithin
  | cons p rest ih =>
      rw [stream_insert, List.flatMap_cons, List.length_append]
      by_cases hp : (put b p).2 = true
      · rw [if_pos hp, ih (h.keeps b p hb), h.grows b p hb hp]
        omega
      · have hfull := mt (h.takes b p hb).mpr hp
        rw [if_neg hp]
        constructor
        · intro hfalse
          cases hfalse
        · omega

end Insert

/-! ## `counting_buffer`

It takes as much of a text as there is room for and says so; the stream fails because that was
less than it was given. What it has counted by then is never used. -/

/-- `counting_buffer`: how many bytes were taken, of how many it may take. -/
structure counting_buffer where
  size_ : Nat
  limit_ : Nat

namespace counting_buffer

/-- The constructor. -/
def empty (limit : Nat) : counting_buffer := ⟨0, limit⟩

/-- `xsputn`: counts as much as there is room for, and says how much that was. -/
def xsputn (b : counting_buffer) (count : Nat) : counting_buffer × Nat :=
  let available := b.limit_ - b.size_
  let accepted := min available count
  ({ b with size_ := b.size_ + accepted }, accepted)

/-- `overflow` of a character that is not end-of-file, with whether it was taken. -/
def overflow (b : counting_buffer) : counting_buffer × Bool :=
  if b.size_ = b.limit_ then (b, false) else ({ b with size_ := b.size_ + 1 }, true)

/-- One put, with whether the stream stays good. -/
def put (b : counting_buffer) : SynapseMcp.put → counting_buffer × Bool
  | .character _ => b.overflow
  | .text data => ((b.xsputn data.length).1, (b.xsputn data.length).2 = data.length)

/-- The counting buffer is metered by its count: a put goes through exactly if the count and its
length are within the limit. -/
theorem metered (limit : Nat) :
    metered put size_ limit (fun b => b.limit_ = limit ∧ b.size_ ≤ limit) where
  within _ hb := hb.2
  keeps b p hb := by
    obtain ⟨hlimit, hsize⟩ := hb
    cases p with
    | character ch =>
        rw [put, overflow]
        split
        · exact ⟨hlimit, hsize⟩
        · refine ⟨hlimit, ?_⟩
          dsimp only
          omega
    | text data =>
        refine ⟨hlimit, ?_⟩
        simp only [put, xsputn]
        omega
  takes b p hb := by
    obtain ⟨hlimit, hsize⟩ := hb
    cases p with
    | character ch =>
        rw [put, overflow]
        by_cases hfull : b.size_ = b.limit_
        · simp only [if_pos hfull, put.bytes, List.length_singleton, Bool.false_eq_true, false_iff]
          omega
        · simp only [if_neg hfull, put.bytes, List.length_singleton, true_iff]
          omega
    | text data =>
        simp only [put, decide_eq_true_eq]
        simp only [xsputn, put.bytes]
        omega
  grows b p hb htaken := by
    cases p with
    | character ch =>
        rw [put, overflow] at htaken ⊢
        by_cases hfull : b.size_ = b.limit_
        · rw [if_pos hfull] at htaken
          cases htaken
        · rw [if_neg hfull]
          rfl
    | text data =>
        simp only [put, decide_eq_true_eq] at htaken ⊢
        simp only [xsputn, put.bytes] at htaken ⊢
        rw [htaken]

end counting_buffer

/-- `server_policy::frame_fits`: whatever throws, the frame does not fit. -/
def server_policy.frame_fits (m : serialized) (limit : Nat) : Bool :=
  (stream_insert counting_buffer.put (.empty limit) m.puts).2 && m.throws.isNone

/-- The check finds out whether the text is within the limit, unless something throws. -/
theorem server_policy.frame_fits_iff (m : serialized) (limit : Nat) :
    frame_fits m limit = true ↔ m.throws = none ∧ m.encoding.length ≤ limit := by
  have hinsert := (counting_buffer.metered limit).insert (b := .empty limit)
    ⟨rfl, Nat.zero_le _⟩ m.puts
  rw [frame_fits, Bool.and_eq_true, hinsert, Option.isNone_iff_eq_none, and_comm]
  simp [counting_buffer.empty, serialized.encoding]

/-! ## `bounded_buffer`

It takes a text as a whole or not at all, and holds what it took. For the outcome that makes no
difference, so it is metered too. -/

namespace bounded_buffer

/-- Its own insertion is that of any stream buffer. -/
theorem insert_eq (b : bounded_buffer) (puts : List SynapseMcp.put) :
    b.insert puts = stream_insert bounded_buffer.put b puts := by
  induction puts generalizing b with
  | nil => rfl
  | cons p rest ih => rw [insert, stream_insert, ih]

/-- The bounded buffer is metered by the length of what it holds. -/
theorem metered (limit : Nat) :
    metered bounded_buffer.put (fun b => b.bytes_.length) limit
      (fun b => b.limit_ = limit ∧ b.bytes_.length ≤ limit) := by
  -- what one `xsputn` does, a character being a text of one
  have htext : ∀ (b : bounded_buffer) (data : List UInt8),
      b.limit_ = limit ∧ b.bytes_.length ≤ limit →
      ((b.xsputn data).1.limit_ = limit ∧ (b.xsputn data).1.bytes_.length ≤ limit) ∧
        ((b.xsputn data).2 = data.length ↔ b.bytes_.length + data.length ≤ limit) ∧
        ((b.xsputn data).2 = data.length →
          (b.xsputn data).1.bytes_.length = b.bytes_.length + data.length) := by
    rintro b data ⟨hlimit, hsize⟩
    subst hlimit
    by_cases hfull : b.limit_ - b.bytes_.length < data.length
    · simp only [xsputn, if_pos hfull, true_and]
      exact ⟨hsize, by omega, by omega⟩
    · simp only [xsputn, if_neg hfull, List.length_append, true_and]
      have hroom : b.bytes_.length + data.length ≤ b.limit_ := by omega
      exact ⟨hroom, iff_of_true trivial hroom, fun _ => trivial⟩
  refine ⟨fun _ hb => hb.2, ?_, ?_, ?_⟩
  · intro b p hb
    cases p with
    | character ch => exact (htext b [ch] hb).1
    | text data => exact (htext b data hb).1
  · intro b p hb
    cases p with
    | character ch => simpa [put, overflow, put.bytes] using (htext b [ch] hb).2.1
    | text data => simpa [put, put.bytes] using (htext b data hb).2.1
  · intro b p hb htaken
    cases p with
    | character ch =>
        exact (htext b [ch] hb).2.2 (by simpa [put, overflow] using htaken)
    | text data =>
        exact (htext b data hb).2.2 (by simpa [put] using htaken)

/-- It takes the encoding exactly when that fits, and then holds it. -/
theorem insert_iff (limit : Nat) (puts : List SynapseMcp.put) :
    ((empty limit).insert puts).2 = true ↔ (puts.flatMap put.bytes).length ≤ limit := by
  have hinsert := (metered limit).insert (b := .empty limit) ⟨rfl, Nat.zero_le _⟩ puts
  rw [insert_eq, hinsert]
  simp [empty]

end bounded_buffer

namespace stdio_transport

/-- What can be encoded is what fits. -/
theorem encode_of_fits {m : serialized} {limit : Nat} (hthrows : m.throws = none)
    (hfits : m.encoding.length ≤ limit) : encode m limit = .ok m.encoding := by
  have hgood := (bounded_buffer.insert_iff limit m.puts).mpr hfits
  have hbytes := (bounded_buffer.insert_good (b := .empty limit) (Nat.zero_le _) hgood).1
  unfold encode
  simp only [hgood, hthrows, hbytes, Bool.not_true, Bool.false_eq_true, if_false]
  rfl

/-- What a running transport makes of a message that can be encoded: it is queued, or the
queue is full. -/
theorem send_of_fits {t : stdio_transport} {m : serialized} (hstarted : t.started_ = true)
    (hclosing : t.closing_ = false) (hthrows : m.throws = none)
    (hfits : m.encoding.length ≤ t.max_encoded_frame_bytes) :
    (∃ err, t.send m = .error err) ↔
      t.options_.max_outbound_bytes - t.queued_bytes_ < m.encoding.length + 1 := by
  have hencode : encode m (min t.options_.max_frame_bytes (t.options_.max_outbound_bytes - 1)) =
      .ok m.encoding := by
    apply encode_of_fits hthrows
    -- a limit that leaves no byte for the newline encodes the empty text only
    unfold max_encoded_frame_bytes at hfits
    split at hfits
    · omega
    · exact hfits
  unfold send
  rw [hstarted, hclosing, hencode]
  simp only [Bool.not_true, Bool.or_self, Bool.false_eq_true, if_false, List.length_append,
    List.length_singleton]
  split
  · rename_i hfull
    exact ⟨fun _ => hfull, fun _ => ⟨_, rfl⟩⟩
  · rename_i hroom
    constructor
    · rintro ⟨err, herr⟩
      cases herr
    · exact fun hfull => absurd hfull hroom

end stdio_transport

end SynapseMcp
