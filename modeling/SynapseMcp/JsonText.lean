/-
JSON texts of RFC 8259 with their depth, and a reader that goes through them byte by byte.

The grammar is the one of the RFC, over UTF-8. A value carries how deep its containers
nest. The reader keeps the stack of the containers that are open and what may come next; it
refuses a byte as soon as no text has it there, except inside a string, where it leaves the
encoding of a character unchecked. `reads` is a run with the most containers that were ever
open in it, and what the rest of the file proves is that the reader goes through every text
and that this number is the depth.
-/
import SynapseMcp.Abnf

set_option autoImplicit false

namespace JsonText

open Abnf Computability

/-! ## The grammar

The rules have the names and the order of the RFC. Tokens are languages over bytes; the rules
that nest are one inductive relation, because a depth has to be carried through them: a scalar
has none, a container one more than the deepest of what stands in it. Nothing is said about
numbers that are too large or names that occur twice, which are no matter of the grammar. -/

/-- One byte. -/
def byte (b : UInt8) : Language UInt8 := letter (· = b)

/-- Space, tab, line feed or carriage return. -/
abbrev WS (b : UInt8) : Prop := b = 0x20 ∨ b = 0x09 ∨ b = 0x0a ∨ b = 0x0d

/-- The digits. -/
abbrev DIGIT (b : UInt8) : Prop := 0x30 ≤ b ∧ b ≤ 0x39

/-- The hexadecimal digits, in either case. -/
abbrev HEXDIG (b : UInt8) : Prop :=
  DIGIT b ∨ (0x41 ≤ b ∧ b ≤ 0x46) ∨ (0x61 ≤ b ∧ b ≤ 0x66)

/-- `ws = *( %x20 / %x09 / %x0A / %x0D )`. -/
def ws : Language UInt8 := (letter WS)∗

/-- A structural character with the whitespace around it. -/
def structural (b : UInt8) : Language UInt8 := ws * byte b * ws

/-- An opening bracket. -/
def begin_array : Language UInt8 := structural 0x5b

/-- A closing bracket. -/
def end_array : Language UInt8 := structural 0x5d

/-- An opening brace. -/
def begin_object : Language UInt8 := structural 0x7b

/-- A closing brace. -/
def end_object : Language UInt8 := structural 0x7d

/-- A colon. -/
def name_separator : Language UInt8 := structural 0x3a

/-- A comma. -/
def value_separator : Language UInt8 := structural 0x2c

/-- `false`, `null` and `true`. -/
def literals : List (List UInt8) :=
  [[0x66, 0x61, 0x6c, 0x73, 0x65], [0x6e, 0x75, 0x6c, 0x6c], [0x74, 0x72, 0x75, 0x65]]

/-- `int = zero / ( digit1-9 *DIGIT )`. -/
def int : Language UInt8 :=
  byte 0x30 + letter (fun b => 0x31 ≤ b ∧ b ≤ 0x39) * (letter DIGIT)∗

/-- `frac = decimal-point 1*DIGIT`. -/
def frac : Language UInt8 := byte 0x2e * plus (letter DIGIT)

/-- `exp = e [ minus / plus ] 1*DIGIT`. -/
def exp : Language UInt8 :=
  letter (fun b => b = 0x65 ∨ b = 0x45) * opt (letter fun b => b = 0x2d ∨ b = 0x2b) *
    plus (letter DIGIT)

/-- `number = [ minus ] int [ frac ] [ exp ]`. -/
def number : Language UInt8 := opt (byte 0x2d) * int * opt frac * opt exp

/-- A character other than a control, the quotation mark and the reverse solidus. -/
def unescaped : Language UInt8 :=
  {s | ∃ c : Char, 0x20 ≤ c.toNat ∧ c.toNat ≠ 0x22 ∧ c.toNat ≠ 0x5c ∧
    s = String.utf8EncodeChar c}

/-- The characters that an escape may name. -/
abbrev ESCAPED (b : UInt8) : Prop :=
  b ∈ ([0x22, 0x5c, 0x2f, 0x62, 0x66, 0x6e, 0x72, 0x74] : List UInt8)

/-- A reverse solidus and what may follow it. -/
def escaped : Language UInt8 :=
  byte 0x5c * (letter ESCAPED + byte 0x75 * letter HEXDIG ^ 4)

/-- `string = quotation-mark *char quotation-mark`. -/
def string : Language UInt8 := byte 0x22 * (unescaped + escaped)∗ * byte 0x22

/-- What has a depth: a value, the elements of an array, the members of an object. -/
inductive rule where
  | value | elements | members

/-- `derives rule depth s`. -/
inductive derives : rule → ℕ → List UInt8 → Prop
  | literal {s} : s ∈ literals → derives .value 0 s
  | number {s} : s ∈ number → derives .value 0 s
  | string {s} : s ∈ string → derives .value 0 s
  | empty_array {a b} : a ∈ begin_array → b ∈ end_array → derives .value 1 (a ++ b)
  | array {a s b d} : a ∈ begin_array → derives .elements d s → b ∈ end_array →
      derives .value (d + 1) (a ++ s ++ b)
  | empty_object {a b} : a ∈ begin_object → b ∈ end_object → derives .value 1 (a ++ b)
  | object {a s b d} : a ∈ begin_object → derives .members d s → b ∈ end_object →
      derives .value (d + 1) (a ++ s ++ b)
  | element {s d} : derives .value d s → derives .elements d s
  | elements {s a t d e} : derives .value d s → a ∈ value_separator → derives .elements e t →
      derives .elements (max d e) (s ++ a ++ t)
  | member {k c s d} : k ∈ string → c ∈ name_separator → derives .value d s →
      derives .members d (k ++ c ++ s)
  | members {k c s a t d e} : k ∈ string → c ∈ name_separator → derives .value d s →
      a ∈ value_separator → derives .members e t →
      derives .members (max d e) (k ++ c ++ s ++ a ++ t)

/-- `JSON-text`, with its depth: none for a scalar, one for a container of scalars. -/
def text (d : ℕ) (s : List UInt8) : Prop :=
  ∃ a ∈ ws, ∃ v, derives .value d v ∧ ∃ b ∈ ws, s = a ++ v ++ b

/-- The UTF-8 byte order mark. -/
def byte_order_mark : List UInt8 := [0xef, 0xbb, 0xbf]

/-! ## The reader

The reader knows two things: which containers are open, and what may come next. A byte takes it
to the next state or is refused, and there is no looking ahead: a number, which has no end of
its own, is ended by the byte that cannot belong to it, and that byte is then read as the one
after a value. A byte order mark is accepted at the very start. -/

/-- What is open: an array or an object. Only this decides which closing character fits and what
follows a comma. -/
inductive container where
  | array | object
  deriving DecidableEq

/-- How far a number is. -/
inductive numeral where
  | minus | zero | int | point | frac | e | sign | exp
  deriving DecidableEq

/-- How far an escape is: not in one, after the reverse solidus, or so many digits due. -/
inductive escape where
  | none | begun
  | hex (due : ℕ)
  deriving DecidableEq

/-- What may come next. -/
inductive place where
  | start
  /-- In a byte order mark, after so many of its bytes. -/
  | mark (read : ℕ)
  /-- A value; right after `[` also the end of the array. -/
  | value (first : Bool)
  /-- A name; right after `{` also the end of the object. -/
  | name (first : Bool)
  | colon
  /-- What may follow a value. -/
  | after
  | string (name : Bool) (escape : escape)
  | number (numeral : numeral)
  /-- In a literal, after so many of its letters. -/
  | literal (word : {word // word ∈ literals}) (read : ℕ)
  deriving DecidableEq

/-- Where the reader is: what is open, and what may come. -/
structure state where
  /-- The innermost first. -/
  containers : List container
  place : place
  deriving DecidableEq

/-- Nothing is open, and nothing was read. -/
def state.initial : state := ⟨[], .start⟩

/-- After the integer a point or an exponent may come. -/
def numeral.after_int (b : UInt8) : Option numeral :=
  if b = 0x2e then some .point else if b = 0x65 ∨ b = 0x45 then some .e else none

/-- Only a digit may come. -/
def numeral.digit (next : numeral) (b : UInt8) : Option numeral :=
  if DIGIT b then some next else none

/-- How a byte goes on with a number, following the diagram of the RFC: no digit after a leading
zero, and at least one after a point, an `e` or a sign. -/
def numeral.next : numeral → UInt8 → Option numeral
  | .minus, b => if b = 0x30 then some .zero else numeral.int.digit b
  | .zero, b => numeral.after_int b
  | .int, b => (numeral.int.digit b).or (numeral.after_int b)
  | .point, b => numeral.frac.digit b
  | .frac, b => (numeral.frac.digit b).or (if b = 0x65 ∨ b = 0x45 then some .e else none)
  | .e, b => if b = 0x2d ∨ b = 0x2b then some .sign else numeral.exp.digit b
  | .sign, b => numeral.exp.digit b
  | .exp, b => numeral.exp.digit b

/-- The number may end here. -/
def numeral.complete : numeral → Bool
  | .zero | .int | .frac | .exp => true
  | .minus | .point | .e | .sign => false

/-- The first byte of a value says what kind it is, and opens its container if it is one. -/
def begin_value (open_ : List container) (b : UInt8) : Option state :=
  if b = 0x22 then some ⟨open_, .string false .none⟩
  else if b = 0x7b then some ⟨.object :: open_, .name true⟩
  else if b = 0x5b then some ⟨.array :: open_, .value true⟩
  else if b = 0x2d then some ⟨open_, .number .minus⟩
  else if b = 0x30 then some ⟨open_, .number .zero⟩
  else if DIGIT b then some ⟨open_, .number .int⟩
  else if b = 0x66 then
    some ⟨open_, .literal ⟨[0x66, 0x61, 0x6c, 0x73, 0x65], by decide⟩ 1⟩
  else if b = 0x6e then some ⟨open_, .literal ⟨[0x6e, 0x75, 0x6c, 0x6c], by decide⟩ 1⟩
  else if b = 0x74 then some ⟨open_, .literal ⟨[0x74, 0x72, 0x75, 0x65], by decide⟩ 1⟩
  else none

/-- After a value comes whitespace, a comma, or the end of the container, each as the innermost
container has it; outside of all containers only whitespace comes. -/
def after_value (open_ : List container) (b : UInt8) : Option state :=
  if WS b then some ⟨open_, .after⟩
  else
    match open_ with
    | [] => none
    | .array :: outer =>
        if b = 0x2c then some ⟨open_, .value false⟩
        else if b = 0x5d then some ⟨outer, .after⟩
        else none
    | .object :: outer =>
        if b = 0x2c then some ⟨open_, .name false⟩
        else if b = 0x7d then some ⟨outer, .after⟩
        else none

/-- Within a string only the quotation mark ends it and only the reverse solidus begins an
escape. Controls are refused; bytes of a longer character are not looked into. -/
def in_string (name : Bool) : escape → UInt8 → Option place
  | .none, b =>
      if b = 0x22 then some (if name then .colon else .after)
      else if b = 0x5c then some (.string name .begun)
      else if b < 0x20 then none
      else some (.string name .none)
  | .begun, b =>
      if b = 0x75 then some (.string name (.hex 4))
      else if ESCAPED b then some (.string name .none)
      else none
  | .hex due, b =>
      if HEXDIG b then some (.string name (if due = 1 then .none else .hex (due - 1)))
      else none

/-- One byte, or `none` where no text goes on with it. -/
def state.step (st : state) (b : UInt8) : Option state :=
  match st.place with
  | .start =>
      if b = 0xef then some ⟨st.containers, .mark 1⟩
      else if WS b then some ⟨st.containers, .value false⟩
      else begin_value st.containers b
  | .mark read =>
      if byte_order_mark[read]? = some b then
        some ⟨st.containers,
          if read + 1 = byte_order_mark.length then .value false else .mark (read + 1)⟩
      else none
  | .value first =>
      if WS b then some ⟨st.containers, .value first⟩
      else if first = true ∧ b = 0x5d then some ⟨st.containers.tail, .after⟩
      else begin_value st.containers b
  | .name first =>
      if WS b then some ⟨st.containers, .name first⟩
      else if first = true ∧ b = 0x7d then some ⟨st.containers.tail, .after⟩
      else if b = 0x22 then some ⟨st.containers, .string true .none⟩
      else none
  | .colon =>
      if WS b then some ⟨st.containers, .colon⟩
      else if b = 0x3a then some ⟨st.containers, .value false⟩
      else none
  | .after => after_value st.containers b
  | .string name escape => (in_string name escape b).map (⟨st.containers, ·⟩)
  | .number numeral =>
      match numeral.next b with
      | some numeral => some ⟨st.containers, .number numeral⟩
      | none => if numeral.complete then after_value st.containers b else none
  | .literal word read =>
      if word.val[read]? = some b then
        some ⟨st.containers,
          if read + 1 = word.val.length then .after else .literal word (read + 1)⟩
      else none

/-- A run is one step after another, until a byte is refused. -/
def state.run (st : state) (s : List UInt8) : Option state := s.foldlM state.step st

/-- A run, with the most containers that are open in it. -/
inductive reads : state → List UInt8 → state → ℕ → Prop
  | nil (st) : reads st [] st st.containers.length
  | cons {st st' st'' b s d} : st.step b = some st' → reads st' s st'' d →
      reads st (b :: s) st'' (max st.containers.length d)

/-! ## Runs

A run and its number are determined by the bytes, runs are put together with the larger of their
numbers, and a run never has fewer containers than at either of its ends. These are the facts by
which the depth of a whole is computed from the depths of its parts. -/

/-- The containers open at the start of a run are among those that are counted. -/
theorem reads.le_start {st st' : state} {s : List UInt8} {d : ℕ} (h : reads st s st' d) :
    st.containers.length ≤ d := by
  cases h with
  | nil => exact le_rfl
  | cons => exact le_max_left ..

/-- So are the ones open at its end. -/
theorem reads.le_end {st st' : state} {s : List UInt8} {d : ℕ} (h : reads st s st' d) :
    st'.containers.length ≤ d := by
  induction h with
  | nil => exact le_rfl
  | cons hstep h ih => omega

/-- Two runs, one from where the other ends, are a run over both words, with the larger of the
two numbers. -/
theorem reads.append {st st' st'' : state} {s t : List UInt8} {d e : ℕ}
    (h : reads st s st' d) (h' : reads st' t st'' e) : reads st (s ++ t) st'' (max d e) := by
  induction h with
  | nil =>
      rwa [max_eq_right h'.le_start]
  | cons hstep h ih =>
      rw [max_assoc]
      exact .cons hstep (ih h')

/-- A run of one byte. -/
theorem reads.one {st st' : state} {b : UInt8} (h : st.step b = some st') :
    reads st [b] st' (max st.containers.length st'.containers.length) :=
  .cons h (.nil st')

/-- What a run says about the states is what the reader does. -/
theorem reads.run {st st' : state} {s : List UInt8} {d : ℕ} (h : reads st s st' d) :
    st.run s = some st' := by
  induction h with
  | nil => rfl
  | cons hstep h ih =>
      rw [state.run, List.foldlM_cons, hstep]
      exact ih

/-- Whenever the reader gets through a word there is a run, with some number of containers. -/
theorem reads_of_run {st st' : state} {s : List UInt8} (h : st.run s = some st') :
    ∃ d, reads st s st' d := by
  induction s generalizing st with
  | nil =>
      cases h
      exact ⟨_, .nil _⟩
  | cons b s ih =>
      rw [state.run, List.foldlM_cons] at h
      obtain ⟨st₁, hstep, hrest⟩ := Option.bind_eq_some_iff.mp h
      obtain ⟨d, hreads⟩ := ih hrest
      exact ⟨_, .cons hstep hreads⟩

/-- A run is the only one: the reader has no choice, so the word determines where it ends and
how many containers it has open on the way. -/
theorem reads.unique {st st₁ st₂ : state} {s : List UInt8} {d e : ℕ} (h₁ : reads st s st₁ d)
    (h₂ : reads st s st₂ e) : st₁ = st₂ ∧ d = e := by
  induction h₁ generalizing st₂ e with
  | nil =>
      cases h₂
      exact ⟨rfl, rfl⟩
  | cons hstep h ih =>
      cases h₂ with
      | cons hstep' h' =>
          rw [hstep] at hstep'
          cases hstep'
          obtain ⟨rfl, rfl⟩ := ih h'
          exact ⟨rfl, rfl⟩

/-- A run reads what comes first on its way. -/
theorem state.run_of_append {st st' : state} {s t : List UInt8} (h : st.run (s ++ t) = some st') :
    ∃ st'', st.run s = some st'' ∧ st''.run t = some st' := by
  rw [state.run, List.foldlM_append] at h
  exact Option.bind_eq_some_iff.mp h

/-! ## Whitespace and separators

Whitespace may stand on either side of a structural character, and the reader skips it in the
places where one may come. After a number the first whitespace also ends the number; that is why
a place where a value is done is not one place, and why the lemmas about it only speak of the
bytes that can follow. -/

/-- Whitespace changes nothing here. -/
def state.skips (st : state) : Prop := ∀ b, WS b → st.step b = some st

/-- A word of whitespace leaves such a state as it is, byte by byte. -/
theorem state.skips.reads {st : state} (h : st.skips) {s : List UInt8} (hs : s ∈ ws) :
    reads st s st st.containers.length := by
  have hws := mem_star_letter.mp hs
  clear hs
  induction s with
  | nil => exact .nil st
  | cons b s ih =>
      rw [List.forall_mem_cons] at hws
      have hread := reads.cons (h b hws.1) (ih hws.2)
      rwa [max_self] at hread

/-- Before a value whitespace is skipped, also right after the character that opens an array. -/
theorem skips_value (open_ : List container) (first : Bool) : state.skips ⟨open_, .value first⟩ :=
  fun _ hb => if_pos hb

/-- Before a name, in an object. -/
theorem skips_name (open_ : List container) (first : Bool) : state.skips ⟨open_, .name first⟩ :=
  fun _ hb => if_pos hb

/-- Between a name and its colon. -/
theorem skips_colon (open_ : List container) : state.skips ⟨open_, .colon⟩ :=
  fun _ hb => if_pos hb

/-- After a value, wherever it stands. -/
theorem skips_after (open_ : List container) : state.skips ⟨open_, .after⟩ :=
  fun _ hb => if_pos hb

/-- A structural character, between places that skip whitespace. -/
theorem reads_structural {st st' : state} {b : UInt8} {s : List UInt8} (hs : s ∈ structural b)
    (hskips : st.skips) (hstep : st.step b = some st') (hskips' : st'.skips) :
    reads st s st' (max st.containers.length st'.containers.length) := by
  obtain ⟨_, ⟨a, ha, _, ⟨c, rfl, rfl⟩, rfl⟩, e, he, rfl⟩ := hs
  have hread := ((hskips.reads ha).append (reads.one hstep)).append (hskips'.reads he)
  have hmax : max (max st.containers.length (max st.containers.length st'.containers.length))
      st'.containers.length = max st.containers.length st'.containers.length := by
    omega
  rwa [hmax] at hread

/-- A value has been read: the place after it, or a number that may end. -/
def place.done : place → Prop
  | .after => True
  | .number numeral => numeral.complete = true
  | _ => False

/-- What ends a number. -/
abbrev ENDS (b : UInt8) : Prop := WS b ∨ b = 0x2c ∨ b = 0x5d ∨ b = 0x7d

/-- No byte that can follow a number belongs to one, so there is no doubt where a number ends.
-/
theorem numeral.next_of_ends {b : UInt8} (h : ENDS b) (n : numeral) : n.next b = none := by
  rcases h with (rfl | rfl | rfl | rfl) | rfl | rfl | rfl <;> cases n <;> rfl

/-- Where a value is done, a byte that can follow it is read as one that does, also when the
value was a number and is ended by it. -/
theorem step_of_done {P : place} (h : P.done) (open_ : List container) {b : UInt8}
    (hb : ENDS b) : state.step ⟨open_, P⟩ b = after_value open_ b := by
  cases P with
  | after => rfl
  | number n =>
      have hcomplete : n.complete = true := h
      simp only [state.step, numeral.next_of_ends hb n, hcomplete, if_true]
  | _ => cases h

/-- Whitespace behind a value leaves it done, and after the first of it the value is no longer a
number. -/
theorem reads_ws_of_done {P : place} (h : P.done) (open_ : List container) {s : List UInt8}
    (hs : s ∈ ws) : ∃ P' : place, P'.done ∧ reads ⟨open_, P⟩ s ⟨open_, P'⟩ open_.length := by
  cases s with
  | nil => exact ⟨P, h, .nil _⟩
  | cons b s =>
      have hws := mem_star_letter.mp hs
      rw [List.forall_mem_cons] at hws
      have hstep : state.step ⟨open_, P⟩ b = some ⟨open_, .after⟩ := by
        rw [step_of_done h open_ (.inl hws.1)]
        exact if_pos hws.1
      have hread := reads.cons hstep ((skips_after open_).reads (mem_star_letter.mpr hws.2))
      rw [max_self] at hread
      exact ⟨.after, trivial, hread⟩

/-- A structural character after a value, with the whitespace on both sides of it. -/
theorem reads_structural_of_done {P : place} (h : P.done) (open_ : List container) {st' : state}
    {b : UInt8} {s : List UInt8} (hs : s ∈ structural b) (hb : ENDS b)
    (hstep : after_value open_ b = some st') (hskips : st'.skips) :
    reads ⟨open_, P⟩ s st' (max open_.length st'.containers.length) := by
  obtain ⟨_, ⟨a, ha, _, ⟨c, rfl, rfl⟩, rfl⟩, e, he, rfl⟩ := hs
  obtain ⟨P', hdone, hread⟩ := reads_ws_of_done h open_ ha
  rw [← step_of_done hdone open_ hb] at hstep
  have hread := (hread.append (reads.one hstep)).append (hskips.reads he)
  have hmax : max (max open_.length (max open_.length st'.containers.length))
      st'.containers.length = max open_.length st'.containers.length := by
    omega
  rwa [hmax] at hread

/-! ## Tokens

A token leaves the containers as they are, so that its number is how many are open where it
stands. `passes` is a run of that kind, and has the rules of a run without the numbers. -/

/-- `reads` between two places with the same containers. -/
def passes (open_ : List container) (P : place) (s : List UInt8) (Q : place) : Prop :=
  reads ⟨open_, P⟩ s ⟨open_, Q⟩ open_.length

/-- A run of none. -/
theorem passes.nil (open_ : List container) (P : place) : passes open_ P [] P := reads.nil _

/-- A step that opens and closes nothing, and a token behind it. -/
theorem passes.cons {open_ : List container} {P Q R : place} {b : UInt8} {s : List UInt8}
    (hstep : state.step ⟨open_, P⟩ b = some ⟨open_, Q⟩) (h : passes open_ Q s R) :
    passes open_ P (b :: s) R := by
  have hread := reads.cons hstep h
  rwa [max_self] at hread

/-- Two tokens one after the other. -/
theorem passes.append {open_ : List container} {P Q R : place} {s t : List UInt8}
    (h : passes open_ P s Q) (h' : passes open_ Q t R) : passes open_ P (s ++ t) R := by
  have hread := reads.append h h'
  rwa [max_self] at hread

/-- A repetition of words that come back to one place comes back to it. -/
theorem passes_star {open_ : List container} {P : place} {L : Language UInt8}
    (h : ∀ s ∈ L, passes open_ P s P) {s : List UInt8} (hs : s ∈ L∗) : passes open_ P s P := by
  obtain ⟨words, rfl, hwords⟩ := hs
  induction words with
  | nil => exact .nil open_ P
  | cons word words ih =>
      rw [List.forall_mem_cons] at hwords
      rw [List.flatten_cons]
      exact (h word hwords.1).append (ih hwords.2)

/-- The start of a value, wherever one is due: such a byte is neither whitespace nor the end of
an array. -/
theorem step_value {open_ : List container} {b : UInt8} {st' : state}
    (h : begin_value open_ b = some st') (first : Bool) :
    state.step ⟨open_, .value first⟩ b = some st' := by
  have hws : ¬ WS b := by
    rintro (rfl | rfl | rfl | rfl) <;> cases h
  have hclose : ¬ (first = true ∧ b = 0x5d) := by
    rintro ⟨-, rfl⟩
    cases h
  simp only [state.step, if_neg hws, if_neg hclose, h]

/-- The three literals are read letter by letter, and the first letter says which it is. -/
theorem passes_literal (open_ : List container) (first : Bool) {s : List UInt8}
    (h : s ∈ literals) : passes open_ (.value first) s .after := by
  have hletters : s = [0x66, 0x61, 0x6c, 0x73, 0x65] ∨ s = [0x6e, 0x75, 0x6c, 0x6c] ∨
      s = [0x74, 0x72, 0x75, 0x65] := by simpa [literals] using h
  rcases hletters with rfl | rfl | rfl
  · refine .cons (step_value rfl first) ?_
    exact .cons rfl (.cons rfl (.cons rfl (.cons rfl (.nil ..))))
  · refine .cons (step_value rfl first) ?_
    exact .cons rfl (.cons rfl (.cons rfl (.nil ..)))
  · refine .cons (step_value rfl first) ?_
    exact .cons rfl (.cons rfl (.cons rfl (.nil ..)))

/-! ### Strings

A character beyond ASCII is several bytes, none of which looks like a quotation mark, a reverse
solidus or a control; so the reader gets through any character without decoding it. An escape is
one character, or `u` and four digits, which are counted down. -/

/-- A byte that is not special keeps the reader inside the string. -/
theorem step_string {b : UInt8} (hquote : b ≠ 0x22) (hsolidus : b ≠ 0x5c) (hcontrol : 0x20 ≤ b)
    (open_ : List container) (name : Bool) :
    state.step ⟨open_, .string name .none⟩ b = some ⟨open_, .string name .none⟩ := by
  simp only [state.step, in_string, if_neg hquote, if_neg hsolidus,
    if_neg (UInt8.not_lt.mpr hcontrol), Option.map_some]

/-- The bytes of a character beyond ASCII are no ASCII, and that of any other character is the
character. -/
theorem le_of_mem_utf8EncodeChar {c : Char} {b : UInt8} (hb : b ∈ String.utf8EncodeChar c) :
    (b.toNat = c.toNat ∧ c.toNat < 0x80) ∨ 0x80 ≤ b.toNat := by
  have hval : c.val.toNat = c.toNat := rfl
  unfold String.utf8EncodeChar at hb
  dsimp only at hb
  split at hb
  · rw [List.mem_singleton.mp hb, UInt8.toNat_ofNat']
    omega
  · right
    split at hb
    · simp only [List.mem_cons, List.not_mem_nil, or_false] at hb
      rcases hb with rfl | rfl <;> rw [UInt8.toNat_ofNat'] <;> omega
    · split at hb
      · simp only [List.mem_cons, List.not_mem_nil, or_false] at hb
        rcases hb with rfl | rfl | rfl <;> rw [UInt8.toNat_ofNat'] <;> omega
      · simp only [List.mem_cons, List.not_mem_nil, or_false] at hb
        rcases hb with rfl | rfl | rfl | rfl <;> rw [UInt8.toNat_ofNat'] <;> omega

/-- An unescaped character is read byte by byte and leaves the reader where it was. -/
theorem passes_unescaped (open_ : List container) (name : Bool) {s : List UInt8}
    (h : s ∈ unescaped) : passes open_ (.string name .none) s (.string name .none) := by
  obtain ⟨c, hcontrol, hquote, hsolidus, rfl⟩ := h
  have hbytes : ∀ b ∈ String.utf8EncodeChar c, b ≠ 0x22 ∧ b ≠ 0x5c ∧ 0x20 ≤ b := by
    intro b hb
    have hb := le_of_mem_utf8EncodeChar hb
    refine ⟨?_, ?_, ?_⟩
    · rintro rfl
      have hnat : (0x22 : UInt8).toNat = 0x22 := rfl
      omega
    · rintro rfl
      have hnat : (0x5c : UInt8).toNat = 0x5c := rfl
      omega
    · rw [UInt8.le_iff_toNat_le]
      have hnat : (0x20 : UInt8).toNat = 0x20 := rfl
      omega
  generalize String.utf8EncodeChar c = s at hbytes
  induction s with
  | nil => exact .nil ..
  | cons b s ih =>
      rw [List.forall_mem_cons] at hbytes
      obtain ⟨⟨hquote, hsolidus, hcontrol⟩, hrest⟩ := hbytes
      exact .cons (step_string hquote hsolidus hcontrol open_ name) (ih hrest)

/-- The digits of an escape, by induction on how many are due. -/
theorem passes_hex (open_ : List container) (name : Bool) {due : ℕ} {s : List UInt8}
    (hs : s ∈ letter HEXDIG ^ (due + 1)) :
    passes open_ (.string name (.hex (due + 1))) s (.string name .none) := by
  induction due generalizing s with
  | zero =>
      rw [zero_add, pow_one] at hs
      obtain ⟨b, hb, rfl⟩ := hs
      refine .cons ?_ (.nil ..)
      simp only [state.step, in_string, if_pos hb]
      rfl
  | succ due ih =>
      rw [pow_succ'] at hs
      obtain ⟨_, ⟨b, hb, rfl⟩, t, ht, rfl⟩ := hs
      refine .cons ?_ (ih ht)
      have hmore : due + 1 + 1 ≠ 1 := by omega
      simp only [state.step, in_string, if_pos hb, if_neg hmore]
      rfl

/-- An escape ends where it began, within the string. -/
theorem passes_escaped (open_ : List container) (name : Bool) {s : List UInt8}
    (h : s ∈ escaped) : passes open_ (.string name .none) s (.string name .none) := by
  obtain ⟨_, ⟨_, rfl, rfl⟩, t, (⟨b, hb, rfl⟩ | ⟨_, ⟨_, rfl, rfl⟩, digits, hdigits, rfl⟩), rfl⟩ := h
  · refine .cons rfl (.cons ?_ (.nil ..))
    have hunicode : b ≠ 0x75 := by
      rintro rfl
      exact absurd hb (by decide)
    simp only [state.step, in_string, if_neg hunicode, if_pos hb]
    rfl
  · exact .cons rfl (.cons rfl (passes_hex open_ name hdigits))

/-- After the opening quotation mark: the characters and escapes in any order, and the closing
mark. What follows depends on whether the string was a name. -/
theorem passes_string (open_ : List container) (name : Bool) {P : place}
    (hstep : state.step ⟨open_, P⟩ 0x22 = some ⟨open_, .string name .none⟩) {s : List UInt8}
    (h : s ∈ string) : passes open_ P s (if name then .colon else .after) := by
  obtain ⟨_, ⟨_, ⟨_, rfl, rfl⟩, chars, hchars, rfl⟩, _, ⟨_, rfl, rfl⟩, rfl⟩ := h
  have hbody : passes open_ (.string name .none) chars (.string name .none) := by
    apply passes_star _ hchars
    rintro word (hword | hword)
    · exact passes_unescaped open_ name hword
    · exact passes_escaped open_ name hword
  refine .append (.append (.cons hstep (.nil ..)) hbody) (.cons ?_ (.nil ..))
  rfl

/-! ### Numbers

The grammar of a number is four parts, of which all but the integer may be missing; each lemma
says where the reader can be after its part. A number that is read is one that may end there. -/

/-- A byte that goes on with a number leaves the containers alone. -/
theorem step_number {open_ : List container} {n m : numeral} {b : UInt8} (h : n.next b = some m) :
    state.step ⟨open_, .number n⟩ b = some ⟨open_, .number m⟩ := by
  simp only [state.step, h]

/-- Digits after digits, in a part of the number where another digit may come. -/
theorem passes_digits {open_ : List container} {n : numeral}
    (hdigit : ∀ b, DIGIT b → n.next b = some n) {s : List UInt8} (hs : s ∈ (letter DIGIT)∗) :
    passes open_ (.number n) s (.number n) := by
  apply passes_star _ hs
  rintro _ ⟨b, hb, rfl⟩
  exact .cons (step_number (hdigit b hb)) (.nil ..)

/-- At least one digit, where the first may lead from one part of the number to another. -/
theorem passes_plus {open_ : List container} {n m : numeral}
    (hfirst : ∀ b, DIGIT b → n.next b = some m) (hdigit : ∀ b, DIGIT b → m.next b = some m)
    {s : List UInt8} (hs : s ∈ plus (letter DIGIT)) :
    passes open_ (.number n) s (.number m) := by
  obtain ⟨_, ⟨b, hb, rfl⟩, t, ht, rfl⟩ := hs
  exact .cons (step_number (hfirst b hb)) (passes_digits hdigit ht)

/-- In the integer part another digit may come. -/
theorem digit_int {b : UInt8} (hb : DIGIT b) : numeral.int.next b = some .int := by
  simp only [numeral.next, numeral.digit, if_pos hb, Option.some_or]

/-- And in the fraction. -/
theorem digit_frac {b : UInt8} (hb : DIGIT b) : numeral.frac.next b = some .frac := by
  simp only [numeral.next, numeral.digit, if_pos hb, Option.some_or]

/-- And in the exponent. -/
theorem digit_exp {b : UInt8} (hb : DIGIT b) : numeral.exp.next b = some .exp := if_pos hb

/-- The integer: a zero alone, or digits of which the first is not zero. -/
theorem passes_int {open_ : List container} {P : place}
    (hzero : state.step ⟨open_, P⟩ 0x30 = some ⟨open_, .number .zero⟩)
    (hdigit : ∀ b : UInt8, 0x31 ≤ b ∧ b ≤ 0x39 →
      state.step ⟨open_, P⟩ b = some ⟨open_, .number .int⟩) {s : List UInt8} (hs : s ∈ int) :
    ∃ n, (n = numeral.zero ∨ n = .int) ∧ passes open_ P s (.number n) := by
  rcases hs with ⟨_, rfl, rfl⟩ | ⟨_, ⟨b, hb, rfl⟩, t, ht, rfl⟩
  · exact ⟨.zero, .inl rfl, .cons hzero (.nil ..)⟩
  · exact ⟨.int, .inr rfl, .cons (hdigit b hb) (passes_digits (fun _ => digit_int) ht)⟩

/-- The fraction, or none; a zero and an integer may both have one. -/
theorem passes_frac {open_ : List container} {n : numeral} (hn : n = .zero ∨ n = .int)
    {s : List UInt8} (hs : s ∈ opt frac) :
    ∃ m, (m = .zero ∨ m = .int ∨ m = .frac) ∧ passes open_ (.number n) s (.number m) := by
  rcases mem_opt.mp hs with rfl | ⟨_, ⟨_, rfl, rfl⟩, digits, hdigits, rfl⟩
  · refine ⟨n, ?_, .nil ..⟩
    rcases hn with rfl | rfl <;> decide
  · have hstep : n.next 0x2e = some .point := by
      rcases hn with rfl | rfl <;> rfl
    have hpoint : ∀ b, DIGIT b → numeral.point.next b = some .frac := fun b hb => if_pos hb
    refine ⟨.frac, .inr (.inr rfl), ?_⟩
    exact .cons (step_number hstep) (passes_plus hpoint (fun _ => digit_frac) hdigits)

/-- The exponent, or none, with a sign or without. Where it ends the number may end. -/
theorem passes_exp {open_ : List container} {n : numeral}
    (hn : n = .zero ∨ n = .int ∨ n = .frac) {s : List UInt8} (hs : s ∈ opt exp) :
    ∃ m : numeral, m.complete = true ∧ passes open_ (.number n) s (.number m) := by
  rcases mem_opt.mp hs with rfl | ⟨_, ⟨_, ⟨e, he, rfl⟩, sign, hsign, rfl⟩, digits, hdigits, rfl⟩
  · refine ⟨n, ?_, .nil ..⟩
    rcases hn with rfl | rfl | rfl <;> rfl
  · have hstep : n.next e = some .e := by
      rcases he with rfl | rfl <;> rcases hn with rfl | rfl | rfl <;> rfl
    refine ⟨.exp, rfl, ?_⟩
    apply passes.cons (step_number hstep)
    rcases mem_opt.mp hsign with rfl | ⟨b, hb, rfl⟩
    · apply passes_plus _ (fun _ => digit_exp) hdigits
      intro b hb
      have hsign : ¬ (b = 0x2d ∨ b = 0x2b) := by
        rintro (rfl | rfl) <;> exact absurd hb (by decide)
      simp only [numeral.next, numeral.digit, if_neg hsign, if_pos hb]
    · have hsign : numeral.e.next b = some .sign := if_pos hb
      have hfirst : ∀ b, DIGIT b → numeral.sign.next b = some .exp := fun b hb => if_pos hb
      exact .cons (step_number hsign) (passes_plus hfirst (fun _ => digit_exp) hdigits)

/-- A number is read to a place where it may end, and no earlier than its last byte. -/
theorem passes_number (open_ : List container) (first : Bool) {s : List UInt8}
    (h : s ∈ number) :
    ∃ n : numeral, n.complete = true ∧ passes open_ (.value first) s (.number n) := by
  obtain ⟨_, ⟨_, ⟨sign, hsign, int, hint, rfl⟩, frac, hfrac, rfl⟩, exp, hexp, rfl⟩ := h
  -- with the sign or without, the digits of the integer come next
  have hread : ∃ n, (n = numeral.zero ∨ n = .int) ∧
      passes open_ (.value first) (sign ++ int) (.number n) := by
    rcases mem_opt.mp hsign with rfl | ⟨_, rfl, rfl⟩
    · apply passes_int (step_value rfl first) _ hint
      intro b hb
      apply step_value
      have hdigit : DIGIT b := ⟨UInt8.le_trans (by decide) hb.1, hb.2⟩
      have hne : b ≠ 0x22 ∧ b ≠ 0x7b ∧ b ≠ 0x5b ∧ b ≠ 0x2d ∧ b ≠ 0x30 := by
        refine ⟨?_, ?_, ?_, ?_, ?_⟩ <;> rintro rfl <;> exact absurd hb (by decide)
      simp only [begin_value, if_neg hne.1, if_neg hne.2.1, if_neg hne.2.2.1,
        if_neg hne.2.2.2.1, if_neg hne.2.2.2.2, if_pos hdigit]
    · have hminus : ∀ b : UInt8, 0x31 ≤ b ∧ b ≤ 0x39 →
          state.step ⟨open_, .number .minus⟩ b = some ⟨open_, .number .int⟩ := by
        intro b hb
        apply step_number
        have hdigit : DIGIT b := ⟨UInt8.le_trans (by decide) hb.1, hb.2⟩
        have hzero : b ≠ 0x30 := by
          rintro rfl
          exact absurd hb (by decide)
        simp only [numeral.next, numeral.digit, if_neg hzero, if_pos hdigit]
      obtain ⟨n, hn, hread⟩ := passes_int (P := .number .minus) rfl hminus hint
      exact ⟨n, hn, .cons (step_value rfl first) hread⟩
  obtain ⟨n, hn, hread⟩ := hread
  obtain ⟨m, hm, hread'⟩ := passes_frac hn hfrac
  obtain ⟨l, hl, hread''⟩ := passes_exp hm hexp
  exact ⟨l, hl, (hread.append hread').append hread''⟩

/-! ## Values

The induction is over the derivation: each rule of the grammar says which runs make up the one
of the whole, and the numbers add up because a container counts once for everything inside it.
The statement is made for any containers already open, which the members and elements need. -/

/-- Where each rule starts, and what it has open then. -/
def rule.start (open_ : List container) (first : Bool) : rule → state
  | .value => ⟨open_, .value first⟩
  | .elements => ⟨.array :: open_, .value first⟩
  | .members => ⟨.object :: open_, .name first⟩

/-- A run with its number written another way. -/
theorem reads.cast {st st' : state} {s : List UInt8} {d e : ℕ} (h : reads st s st' d)
    (hd : d = e) : reads st s st' e := hd ▸ h

/-- A name begins with a quotation mark, first in the object or not. -/
theorem step_name (open_ : List container) (first : Bool) :
    state.step ⟨open_, .name first⟩ 0x22 = some ⟨open_, .string true .none⟩ := by
  cases first <;> rfl

/-- What stands between the structural characters of a container: the run inside has one
container more open throughout. -/
theorem reads_container {open_ : List container} {c : container} {first : Bool} {P : place}
    {a s b : List UInt8} {ch closing : UInt8} {Q : place} {d : ℕ} (ha : a ∈ structural ch)
    (hopen : begin_value open_ ch = some ⟨c :: open_, P⟩) (hskips : state.skips ⟨c :: open_, P⟩)
    (hread : reads ⟨c :: open_, P⟩ s ⟨c :: open_, Q⟩ (open_.length + 1 + d)) (hdone : Q.done)
    (hb : b ∈ structural closing) (hends : ENDS closing)
    (hclose : after_value (c :: open_) closing = some ⟨open_, .after⟩) :
    reads ⟨open_, .value first⟩ (a ++ s ++ b) ⟨open_, .after⟩ (open_.length + (d + 1)) := by
  -- outside, inside, outside: the numbers are those of the three runs
  have hfirst := reads_structural ha (skips_value open_ first) (step_value hopen first) hskips
  have hlast := reads_structural_of_done hdone (c :: open_) hb hends hclose (skips_after open_)
  apply ((hfirst.append hread).append hlast).cast
  simp only [List.length_cons]
  omega

/-- A value is read wherever one is due, and what was open is open again. -/
theorem derives.read {r : rule} {d : ℕ} {s : List UInt8} (h : derives r d s)
    (open_ : List container) (first : Bool) :
    ∃ P : place, P.done ∧ reads (r.start open_ first) s ⟨(r.start open_ first).containers, P⟩
      ((r.start open_ first).containers.length + d) := by
  induction h generalizing open_ first with
  | literal hs => exact ⟨.after, trivial, passes_literal open_ first hs⟩
  | number hs =>
      obtain ⟨n, hn, hread⟩ := passes_number open_ first hs
      exact ⟨.number n, hn, hread⟩
  | string hs =>
      have hread := passes_string open_ false (step_value rfl first) hs
      exact ⟨.after, trivial, hread⟩
  -- both structural characters touch the container, which is counted once
  | empty_array ha hb =>
      have hfirst := reads_structural ha (skips_value open_ first) (step_value rfl first)
        (skips_value (.array :: open_) true)
      have hlast := reads_structural hb (skips_value (.array :: open_) true) rfl
        (skips_after open_)
      refine ⟨.after, trivial, (hfirst.append hlast).cast ?_⟩
      simp only [rule.start, List.length_cons, List.tail_cons]
      omega
  | array ha h hb ih =>
      obtain ⟨P, hdone, hread⟩ := ih open_ true
      exact ⟨.after, trivial, reads_container ha rfl (skips_value _ true) hread hdone hb
        (by decide) rfl⟩
  | empty_object ha hb =>
      have hfirst := reads_structural ha (skips_value open_ first) (step_value rfl first)
        (skips_name (.object :: open_) true)
      have hlast := reads_structural hb (skips_name (.object :: open_) true) rfl
        (skips_after open_)
      refine ⟨.after, trivial, (hfirst.append hlast).cast ?_⟩
      simp only [rule.start, List.length_cons, List.tail_cons]
      omega
  | object ha h hb ih =>
      obtain ⟨P, hdone, hread⟩ := ih open_ true
      exact ⟨.after, trivial, reads_container ha rfl (skips_name _ true) hread hdone hb
        (by decide) rfl⟩
  | element h ih => exact ih (.array :: open_) first
  -- the separator leaves the containers alone, so the larger number is that of an element
  | elements h ha h' ih ih' =>
      obtain ⟨P, hdone, hread⟩ := ih (.array :: open_) first
      obtain ⟨Q, hdone', hread'⟩ := ih' open_ false
      have hsep := reads_structural_of_done hdone (.array :: open_) ha (by decide) rfl
        (skips_value (.array :: open_) false)
      refine ⟨Q, hdone', ((hread.append hsep).append hread').cast ?_⟩
      simp only [rule.start, List.length_cons]
      omega
  | member hk hc h ih =>
      obtain ⟨P, hdone, hread⟩ := ih (.object :: open_) false
      have hname := passes_string (.object :: open_) true (step_name _ first) hk
      have hcolon := reads_structural hc (skips_colon (.object :: open_)) rfl
        (skips_value (.object :: open_) false)
      refine ⟨P, hdone, ((reads.append hname hcolon).append hread).cast ?_⟩
      simp only [rule.start, List.length_cons]
      omega
  | members hk hc h ha h' ih ih' =>
      obtain ⟨P, hdone, hread⟩ := ih (.object :: open_) false
      obtain ⟨Q, hdone', hread'⟩ := ih' open_ false
      have hname := passes_string (.object :: open_) true (step_name _ first) hk
      have hcolon := reads_structural hc (skips_colon (.object :: open_)) rfl
        (skips_value (.object :: open_) false)
      have hsep := reads_structural_of_done hdone (.object :: open_) ha (by decide) rfl
        (skips_name (.object :: open_) false)
      refine ⟨Q, hdone', ((((reads.append hname hcolon).append hread).append hsep).append
        hread').cast ?_⟩
      simp only [rule.start, List.length_cons]
      omega

/-! ## Texts

A text is a value with whitespace around it, and the reader starts with nothing open; what
remains is the start, where a byte order mark is possible as well. -/

/-- A byte order mark may come where nothing has come yet; else a value is due there. -/
theorem step_start {open_ : List container} {b : UInt8} {st' : state}
    (h : state.step ⟨open_, .value false⟩ b = some st') :
    state.step ⟨open_, .start⟩ b = some st' := by
  have hmark : b ≠ 0xef := by
    rintro rfl
    cases h
  have hfirst : ¬ (false = true ∧ b = 0x5d) := fun h => Bool.false_ne_true h.1
  simp only [state.step, if_neg hmark, if_neg hfirst] at h ⊢
  exact h

/-- A run from where a value is due is one from the start, unless it is empty. -/
theorem reads_start {open_ : List container} {st' : state} {s : List UInt8} {d : ℕ}
    (h : reads ⟨open_, .value false⟩ s st' d) (hs : s ≠ []) :
    reads ⟨open_, .start⟩ s st' d := by
  cases h with
  | nil => exact absurd rfl hs
  | cons hstep h => exact .cons (step_start hstep) h

/-- A text without the start: whitespace, the value, whitespace. -/
theorem reads_text_value {d : ℕ} {s : List UInt8} (h : text d s) :
    ∃ P : place, P.done ∧ reads ⟨[], .value false⟩ s ⟨[], P⟩ d := by
  obtain ⟨a, ha, v, hv, b, hb, rfl⟩ := h
  obtain ⟨P, hdone, hread⟩ := hv.read [] false
  obtain ⟨Q, hdone', hread'⟩ := reads_ws_of_done hdone [] hb
  have hblank := (skips_value [] false).reads ha
  refine ⟨Q, hdone', ((hblank.append hread).append hread').cast ?_⟩
  simp only [rule.start, List.length_nil]
  omega

/-- A text is read to its end, with as many containers open on the way as it is deep. -/
theorem reads_text {d : ℕ} {s : List UInt8} (h : text d s) :
    ∃ P : place, P.done ∧ reads .initial s ⟨[], P⟩ d := by
  obtain ⟨P, hdone, hread⟩ := reads_text_value h
  refine ⟨P, hdone, reads_start hread ?_⟩
  rintro rfl
  cases hread
  exact hdone

/-- The same behind a byte order mark, which opens nothing and so changes no number. -/
theorem reads_mark_text {d : ℕ} {s : List UInt8} (h : text d s) :
    ∃ P : place, P.done ∧ reads .initial (byte_order_mark ++ s) ⟨[], P⟩ d := by
  obtain ⟨P, hdone, hread⟩ := reads_text_value h
  have hmark : passes [] .start byte_order_mark (.value false) :=
    .cons rfl (.cons rfl (.cons rfl (.nil ..)))
  refine ⟨P, hdone, (reads.append hmark hread).cast ?_⟩
  exact max_eq_right (Nat.zero_le d)

/-- The reader refuses nothing that a text starts with, since it gets through the whole of it.
-/
theorem run_of_text_start {d : ℕ} {s p : List UInt8} (h : text d s)
    (hp : p <+: s ∨ p <+: byte_order_mark ++ s) : ∃ st, state.run .initial p = some st := by
  rcases hp with ⟨rest, rfl⟩ | ⟨rest, hrest⟩
  · obtain ⟨P, -, hread⟩ := reads_text h
    obtain ⟨st, hrun, -⟩ := state.run_of_append hread.run
    exact ⟨st, hrun⟩
  · obtain ⟨P, -, hread⟩ := reads_mark_text h
    rw [← hrest] at hread
    obtain ⟨st, hrun, -⟩ := state.run_of_append hread.run
    exact ⟨st, hrun⟩

/-- A text has one depth. -/
theorem text_depth {d e : ℕ} {s : List UInt8} (h : text d s) (h' : text e s) : d = e := by
  obtain ⟨P, -, hread⟩ := reads_text h
  obtain ⟨Q, -, hread'⟩ := reads_text h'
  exact (hread.unique hread').2

end JsonText
