/-
What the depth guard in front of the parser lets through.

The guard keeps a count and two flags. Where a reader of JSON goes on, the count is the
number of containers the reader has open and the flags say whether it is in a string and in
an escape; so over a run of the reader the guard fires exactly if too many containers are
open somewhere in it.
-/
import SynapseMcp.StdioFraming
import SynapseMcp.JsonText

set_option autoImplicit false

namespace SynapseMcp

open JsonText

/-- `quoted`, as the reader has it. -/
def place_quoted : place → Bool
  | .string _ _ => true
  | _ => false

/-- `escaped`, as the reader has it. -/
def place_escaped : place → Bool
  | .string _ .begun => true
  | _ => false

/-- The guard goes on from where the reader is. -/
def guard_from (max_json_depth : Nat) (st : state) (line : List UInt8) : Bool :=
  excessive_depth_from max_json_depth st.containers.length (place_quoted st.place)
    (place_escaped st.place) line

/-! ## One byte

A byte outside a string is one of five that the guard looks at, or none of them. `moves` sorts
what the reader may do with it accordingly: a quotation mark begins a string, an opener pushes a
container, a closer pops one, and with any other byte the containers stay. Each state of the
reader is gone through once, in `step_moves`; the guard is then compared with four cases instead
of the reader's places.

Inside a string the guard looks at a backslash and a quotation mark only, and there the reader's
places are the guard's own: in an escape that has begun `escaped` is set, and in the four digits
of a `\u` it is not, for a digit is neither of the two. -/

/-- The bytes outside a string that the guard looks at. -/
abbrev MARKS : List UInt8 := [0x22, 0x7b, 0x5b, 0x7d, 0x5d]

/-- What the reader makes of a byte outside a string, with what the guard looks at. -/
inductive moves (open_ : List container) (b : UInt8) : state → Prop
  | quotes (name) : b = 0x22 → moves open_ b ⟨open_, .string name .none⟩
  | opens {c P} : b = 0x7b ∨ b = 0x5b → place_quoted P = false → moves open_ b ⟨c :: open_, P⟩
  | closes {P} : b = 0x7d ∨ b = 0x5d → place_quoted P = false → moves open_ b ⟨open_.tail, P⟩
  | stays {P} : b ∉ MARKS → place_quoted P = false → moves open_ b ⟨open_, P⟩

/-- A byte with a property that none of the marks has is no mark. -/
theorem not_mem_marks (p : UInt8 → Prop) [DecidablePred p] {b : UInt8} (hb : p b)
    (h : (MARKS.any fun c => decide (p c)) = false) : b ∉ MARKS := by
  intro hmem
  have hany := List.any_eq_false.mp h b hmem
  rw [decide_eq_true hb] at hany
  exact hany rfl

/-- White space is passed over. -/
theorem ws_not_mem_marks {b : UInt8} (hb : WS b) : b ∉ MARKS := not_mem_marks WS hb (by decide)

/-- What the reader does at the first byte of a value: a string begins, a container is opened,
or the byte is none that the guard looks at. -/
theorem begin_value_moves {open_ : List container} {b : UInt8} {st' : state}
    (h : begin_value open_ b = some st') : moves open_ b st' := by
  unfold begin_value at h
  by_cases hquote : b = 0x22
  · rw [if_pos hquote] at h
    cases h
    exact .quotes false hquote
  rw [if_neg hquote] at h
  -- the two openers, of which each takes the depth up by one
  by_cases hobject : b = 0x7b
  · rw [if_pos hobject] at h
    cases h
    exact .opens (.inl hobject) rfl
  rw [if_neg hobject] at h
  by_cases harray : b = 0x5b
  · rw [if_pos harray] at h
    cases h
    exact .opens (.inr harray) rfl
  rw [if_neg harray] at h
  -- numbers and the three literals: their bytes are no marks
  by_cases hminus : b = 0x2d
  · rw [if_pos hminus] at h
    cases h
    exact .stays (not_mem_marks (· = 0x2d) hminus (by decide)) rfl
  rw [if_neg hminus] at h
  by_cases hzero : b = 0x30
  · rw [if_pos hzero] at h
    cases h
    exact .stays (not_mem_marks (· = 0x30) hzero (by decide)) rfl
  rw [if_neg hzero] at h
  by_cases hdigit : DIGIT b
  · rw [if_pos hdigit] at h
    cases h
    exact .stays (not_mem_marks DIGIT hdigit (by decide)) rfl
  rw [if_neg hdigit] at h
  by_cases hfalse : b = 0x66
  · rw [if_pos hfalse] at h
    cases h
    exact .stays (not_mem_marks (· = 0x66) hfalse (by decide)) rfl
  rw [if_neg hfalse] at h
  by_cases hnull : b = 0x6e
  · rw [if_pos hnull] at h
    cases h
    exact .stays (not_mem_marks (· = 0x6e) hnull (by decide)) rfl
  rw [if_neg hnull] at h
  by_cases htrue : b = 0x74
  · rw [if_pos htrue] at h
    cases h
    exact .stays (not_mem_marks (· = 0x74) htrue (by decide)) rfl
  rw [if_neg htrue] at h
  cases h

/-- After a value: what is open decides which closer may come. -/
theorem after_value_moves {open_ : List container} {b : UInt8} {st' : state}
    (h : after_value open_ b = some st') : moves open_ b st' := by
  unfold after_value at h
  by_cases hws : WS b
  · rw [if_pos hws] at h
    cases h
    exact .stays (ws_not_mem_marks hws) rfl
  rw [if_neg hws] at h
  -- outside of every container no byte but whitespace may follow
  match open_ with
  | [] => cases h
  | .array :: outer =>
      dsimp only at h
      by_cases hcomma : b = 0x2c
      · rw [if_pos hcomma] at h
        cases h
        exact .stays (not_mem_marks (· = 0x2c) hcomma (by decide)) rfl
      rw [if_neg hcomma] at h
      by_cases hclose : b = 0x5d
      · rw [if_pos hclose] at h
        cases h
        exact .closes (.inr hclose) rfl
      rw [if_neg hclose] at h
      cases h
  | .object :: outer =>
      dsimp only at h
      by_cases hcomma : b = 0x2c
      · rw [if_pos hcomma] at h
        cases h
        exact .stays (not_mem_marks (· = 0x2c) hcomma (by decide)) rfl
      rw [if_neg hcomma] at h
      by_cases hclose : b = 0x7d
      · rw [if_pos hclose] at h
        cases h
        exact .closes (.inl hclose) rfl
      rw [if_neg hclose] at h
      cases h

/-- A byte that goes on with a number is no mark. -/
theorem numeral_not_mem_marks {n m : numeral} {b : UInt8} (h : n.next b = some m) :
    b ∉ MARKS := by
  apply not_mem_marks (fun c => (n.next c).isSome = true) (by rw [h]; rfl)
  cases n <;> decide

/-- Whatever the reader does with a byte outside a string, the containers change as the guard
counts them. -/
theorem step_moves {st st' : state} {b : UInt8} (hst : place_quoted st.place = false)
    (h : st.step b = some st') : moves st.containers b st' := by
  obtain ⟨open_, P⟩ := st
  cases P with
  | start =>
      simp only [state.step] at h
      by_cases hmark : b = 0xef
      · rw [if_pos hmark] at h
        cases h
        exact .stays (not_mem_marks (· = 0xef) hmark (by decide)) rfl
      rw [if_neg hmark] at h
      by_cases hws : WS b
      · rw [if_pos hws] at h
        cases h
        exact .stays (ws_not_mem_marks hws) rfl
      rw [if_neg hws] at h
      exact begin_value_moves h
  | mark read =>
      simp only [state.step] at h
      by_cases hread : byte_order_mark[read]? = some b
      · rw [if_pos hread] at h
        cases h
        have hmem : b ∈ byte_order_mark := List.mem_of_getElem? hread
        refine .stays (not_mem_marks (· ∈ byte_order_mark) hmem (by decide)) ?_
        split <;> rfl
      · rw [if_neg hread] at h
        cases h
  | value first =>
      simp only [state.step] at h
      by_cases hws : WS b
      · rw [if_pos hws] at h
        cases h
        exact .stays (ws_not_mem_marks hws) rfl
      rw [if_neg hws] at h
      by_cases hclose : first = true ∧ b = 0x5d
      · rw [if_pos hclose] at h
        cases h
        exact .closes (.inr hclose.2) rfl
      rw [if_neg hclose] at h
      exact begin_value_moves h
  | name first =>
      simp only [state.step] at h
      by_cases hws : WS b
      · rw [if_pos hws] at h
        cases h
        exact .stays (ws_not_mem_marks hws) rfl
      rw [if_neg hws] at h
      by_cases hclose : first = true ∧ b = 0x7d
      · rw [if_pos hclose] at h
        cases h
        exact .closes (.inl hclose.2) rfl
      rw [if_neg hclose] at h
      by_cases hquote : b = 0x22
      · rw [if_pos hquote] at h
        cases h
        exact .quotes true hquote
      rw [if_neg hquote] at h
      cases h
  | colon =>
      simp only [state.step] at h
      by_cases hws : WS b
      · rw [if_pos hws] at h
        cases h
        exact .stays (ws_not_mem_marks hws) rfl
      rw [if_neg hws] at h
      by_cases hcolon : b = 0x3a
      · rw [if_pos hcolon] at h
        cases h
        exact .stays (not_mem_marks (· = 0x3a) hcolon (by decide)) rfl
      rw [if_neg hcolon] at h
      cases h
  -- what follows depends on the innermost container
  | after => exact after_value_moves h
  | string name e => cases hst
  | number n =>
      simp only [state.step] at h
      cases hnext : n.next b with
      | some m =>
          rw [hnext] at h
          cases h
          exact .stays (numeral_not_mem_marks hnext) rfl
      | none =>
          -- the byte ends the number, and is read as the one after a value
          rw [hnext] at h
          dsimp only at h
          cases hcomplete : n.complete with
          | true =>
              rw [hcomplete, if_pos rfl] at h
              exact after_value_moves h
          | false =>
              rw [hcomplete] at h
              cases h
  | literal word read =>
      simp only [state.step] at h
      by_cases hread : word.val[read]? = some b
      · rw [if_pos hread] at h
        cases h
        have hmem : b ∈ literals.flatten :=
          List.mem_flatten_of_mem word.property (List.mem_of_getElem? hread)
        refine .stays (not_mem_marks (· ∈ literals.flatten) hmem (by decide)) ?_
        split <;> rfl
      · rw [if_neg hread] at h
        cases h

/-- In a string the containers stay, and the flags of the guard follow. -/
theorem in_string_moves {name : Bool} {e : escape} {b : UInt8} {P : place}
    (h : in_string name e b = some P) (max_json_depth depth : Nat) (rest : List UInt8) :
    excessive_depth_from max_json_depth depth true (place_escaped (.string name e)) (b :: rest) =
      excessive_depth_from max_json_depth depth (place_quoted P) (place_escaped P) rest := by
  cases e with
  | none =>
      simp only [in_string] at h
      by_cases hquote : b = 0x22
      · rw [if_pos hquote] at h
        cases h
        subst hquote
        cases name <;> rfl
      rw [if_neg hquote] at h
      by_cases hsolidus : b = 0x5c
      · rw [if_pos hsolidus] at h
        cases h
        subst hsolidus
        rfl
      rw [if_neg hsolidus] at h
      by_cases hcontrol : b < 0x20
      · rw [if_pos hcontrol] at h
        cases h
      · rw [if_neg hcontrol] at h
        cases h
        simp [excessive_depth_from, place_escaped, place_quoted, hquote, hsolidus]
  | begun =>
      simp only [in_string] at h
      by_cases hunicode : b = 0x75
      · rw [if_pos hunicode] at h
        cases h
        rfl
      rw [if_neg hunicode] at h
      by_cases hescaped : ESCAPED b
      · rw [if_pos hescaped] at h
        cases h
        rfl
      · rw [if_neg hescaped] at h
        cases h
  | hex due =>
      simp only [in_string] at h
      by_cases hhex : HEXDIG b
      · rw [if_pos hhex] at h
        cases h
        have hplain : b ≠ 0x22 ∧ b ≠ 0x5c := by
          refine ⟨?_, ?_⟩ <;> rintro rfl <;> exact absurd hhex (by decide)
        -- a digit is neither the quotation mark nor the reverse solidus
        have hstays : place_escaped (.string name (if due = 1 then .none else .hex (due - 1))) =
            false := by
          split <;> rfl
        rw [hstays]
        simp [excessive_depth_from, place_escaped, place_quoted, hplain]
      · rw [if_neg hhex] at h
        cases h

/-- An escape is inside a string. -/
theorem not_escaped {P : place} (h : place_quoted P = false) : place_escaped P = false := by
  cases P with
  | string name e => cases h
  | _ => rfl

/-- The guard takes the byte as the reader does, unless it fires. -/
theorem guard_step {max_json_depth : Nat} {st st' : state} {b : UInt8}
    (hle : st.containers.length ≤ max_json_depth) (h : st.step b = some st')
    (rest : List UInt8) : guard_from max_json_depth st (b :: rest) =
      if st'.containers.length ≤ max_json_depth then guard_from max_json_depth st' rest
      else true := by
  obtain ⟨open_, P⟩ := st
  cases hquoted : place_quoted P with
  | true =>
      cases P with
      | string name e =>
          simp only [state.step] at h
          obtain ⟨Q, hin, rfl⟩ := Option.map_eq_some_iff.mp h
          rw [if_pos hle]
          exact in_string_moves hin ..
      | _ => cases hquoted
  | false =>
      have hmoves := step_moves hquoted h
      simp only [guard_from, hquoted, not_escaped hquoted]
      cases hmoves with
      | quotes name hb =>
          subst hb
          rw [if_pos hle]
          rfl
      | @opens c Q hb hQ =>
          have hquote : b ≠ 0x22 := by
            rcases hb with rfl | rfl <;> decide
          have hopen : (b = 0x7b || b = 0x5b) = true := by simpa using hb
          rw [excessive_depth_from, if_neg hquote, if_pos hopen, hQ, not_escaped hQ]
          dsimp only [List.length_cons] at hle ⊢
          by_cases hfull : open_.length = max_json_depth
          · rw [if_pos hfull, if_neg (by omega)]
          · rw [if_neg hfull, if_pos (by omega)]
      | @closes Q hb hQ =>
          have hquote : b ≠ 0x22 := by
            rcases hb with rfl | rfl <;> decide
          have hopen : ¬ (b = 0x7b || b = 0x5b) = true := by
            rcases hb with rfl | rfl <;> decide
          have hclose : (b = 0x7d || b = 0x5d) = true := by simpa using hb
          rw [excessive_depth_from, if_neg hquote, if_neg hopen, hclose, hQ, not_escaped hQ,
            List.length_tail]
          dsimp only at hle
          rw [if_pos (show open_.length - 1 ≤ max_json_depth by omega)]
          -- a surplus closer leaves the count at zero
          by_cases hzero : open_.length = 0
          · rw [if_neg (by simpa using hzero), hzero]
          · rw [if_pos (by simpa using hzero)]
      | @stays Q hb hQ =>
          have hnot : b ≠ 0x22 ∧ b ≠ 0x7b ∧ b ≠ 0x5b ∧ b ≠ 0x7d ∧ b ≠ 0x5d := by
            simpa using hb
          obtain ⟨hquote, hobject, harray, hobject', harray'⟩ := hnot
          rw [if_pos hle, hQ, not_escaped hQ]
          simp [excessive_depth_from, hquote, hobject, harray, hobject', harray']

/-! ## Runs

The reader's runs carry the largest number of containers that were open on the way. As long as
it is within the limit, guard and reader go together byte by byte; at the first byte that goes
over it the guard fires, whatever follows. On a whole text this makes the guard exact; on a line
that is no text it still bounds every state the reader comes to before it stops.

The third part of the theorem says what the second is worth. A line is cut off by the guard
before it is parsed, so what matters is any start of the line that a reader could get to,
whether or not the whole is a text; and every start of a text is one. -/

/-- The guard fires in a run of the reader exactly if too much is open somewhere in it. -/
theorem guard_reads {max_json_depth : Nat} {st st' : state} {s : List UInt8} {d : Nat}
    (h : reads st s st' d) (hle : st.containers.length ≤ max_json_depth) (rest : List UInt8) :
    guard_from max_json_depth st (s ++ rest) =
      if d ≤ max_json_depth then guard_from max_json_depth st' rest else true := by
  induction h with
  | nil st => rw [if_pos hle, List.nil_append]
  | @cons st st₁ st' b s d hstep h ih =>
      rw [List.cons_append, guard_step hle hstep]
      -- after this byte the reader may have too much open, and then the guard has fired
      by_cases hle₁ : st₁.containers.length ≤ max_json_depth
      · have hmax : max st.containers.length d ≤ max_json_depth ↔ d ≤ max_json_depth := by
          omega
        rw [if_pos hle₁, ih hle₁]
        simp only [hmax]
      · have hstart := h.le_start
        rw [if_neg hle₁, if_neg (by omega)]

/-- The guard of a line starts where the reader does. -/
theorem guard_initial (o : stdio_options) (line : List UInt8) :
    excessive_depth o line = guard_from o.max_json_depth .initial line := rfl

/-- From the start to a place after a value: such a text is whole, so what the guard says at its
end is only whether its depth went over the limit. -/
theorem guard_text {o : stdio_options} {s : List UInt8} {d : Nat} {P : place} (hP : P.done)
    (h : reads .initial s ⟨[], P⟩ d) : excessive_depth o s = true ↔ o.max_json_depth < d := by
  have hend : guard_from o.max_json_depth ⟨[], P⟩ [] = false := by
    cases P with
    | string name e => cases hP
    | _ => rfl
  have hguard := guard_reads h (Nat.zero_le o.max_json_depth) []
  rw [List.append_nil, ← guard_initial] at hguard
  rw [hguard, hend]
  by_cases hle : d ≤ o.max_json_depth
  · rw [if_pos hle]
    simpa using hle
  · rw [if_neg hle]
    simpa using hle

/-- The guard is exact on JSON texts, with a byte order mark or without, and lets no line
through of which the reader could have more containers open, wherever it stands. The reader
goes on with everything that some text starts with. -/
theorem depth_guard (o : stdio_options) :
    (∀ d s, text d s → (excessive_depth o s = true ↔ o.max_json_depth < d) ∧
      (excessive_depth o (byte_order_mark ++ s) = true ↔ o.max_json_depth < d)) ∧
    (∀ line, excessive_depth o line = false → ∀ p, p <+: line →
      ∀ st, state.run .initial p = some st → st.containers.length ≤ o.max_json_depth) ∧
    ∀ d s, text d s → ∀ p, p <+: s ∨ p <+: byte_order_mark ++ s →
      ∃ st, state.run .initial p = some st := by
  refine ⟨fun d s h => ⟨?_, ?_⟩, ?_, fun d s h p => run_of_text_start h⟩
  · obtain ⟨P, hP, hread⟩ := reads_text h
    exact guard_text hP hread
  · obtain ⟨P, hP, hread⟩ := reads_mark_text h
    exact guard_text hP hread
  · rintro _ hguard p ⟨rest, rfl⟩ st hrun
    obtain ⟨d, hread⟩ := reads_of_run hrun
    rw [guard_initial, guard_reads hread (Nat.zero_le o.max_json_depth)] at hguard
    by_cases hle : d ≤ o.max_json_depth
    · exact hread.le_end.trans hle
    · rw [if_neg hle] at hguard
      cases hguard

end SynapseMcp
