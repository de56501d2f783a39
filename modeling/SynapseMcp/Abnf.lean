/-
Grammars in augmented BNF, as languages.

A rule is a `Language`: concatenation is `*`, alternatives are `+`, repetition is the
Kleene star. What the notation has beyond this is defined here. The rest of the file is
about words with a separator: what stands before its first occurrence is unique, so a
recogniser that cuts a word there, or into pieces, meets the derivation again. All that has
to be known of a rule for it is which letters its words do not use, `uses`.
-/
import Mathlib.Computability.Language

set_option autoImplicit false

namespace Abnf

open Computability

variable {α : Type*} {L M : Language α} {p q : α → Prop} {s : List α} {c : α}

/-! ## The notation

Membership in a repetition of letters is a statement about the letters: every one is of the
class, and for `1*` and `*n` the number of letters is bounded too. These are the equivalences by
which a loop over the characters of a text is compared with a rule, and they are all that a
recogniser needs of the star. -/

/-- One letter of a class. -/
def letter (p : α → Prop) : Language α := {s | ∃ a, p a ∧ s = [a]}

/-- `[L]`. -/
def opt (L : Language α) : Language α := 1 + L

/-- `1*L`. -/
def plus (L : Language α) : Language α := L * L∗

/-- `*n L`. -/
def upto (n : ℕ) (L : Language α) : Language α := {s | ∃ k ≤ n, s ∈ L ^ k}

/-- What may be left out is empty or there. -/
theorem mem_opt : s ∈ opt L ↔ s = [] ∨ s ∈ L := Iff.rfl

/-- A repetition with a bound is one of so many. -/
theorem mem_upto {n : ℕ} : s ∈ upto n L ↔ ∃ k ≤ n, s ∈ L ^ k := Iff.rfl

/-- A word of the star is empty or begins with a word of the rule, which is how a loop that
consumes one piece after another meets the derivation. -/
theorem mem_star : s ∈ L∗ ↔ s = [] ∨ ∃ a ∈ L, ∃ b ∈ L∗, a ++ b = s := by
  conv_lhs => rw [← Language.one_add_self_mul_kstar_eq_kstar]
  exact Iff.rfl

/-- A repetition of single letters is the words all of whose letters are of the class: no other
structure is left in the derivation. -/
theorem mem_star_letter : s ∈ (letter p)∗ ↔ ∀ a ∈ s, p a := by
  constructor
  · rintro ⟨words, rfl, hwords⟩ a ha
    obtain ⟨word, hword, ha⟩ := List.mem_flatten.mp ha
    obtain ⟨b, hb, rfl⟩ := hwords word hword
    rwa [List.mem_singleton.mp ha]
  · intro h
    refine ⟨s.map fun a => [a], ?_, ?_⟩
    · induction s with
      | nil => rfl
      | cons a rest ih =>
          rw [List.map_cons, List.flatten_cons, ← ih fun b hb => h b (List.mem_cons_of_mem a hb)]
          rfl
    · intro word hword
      obtain ⟨a, ha, rfl⟩ := List.mem_map.mp hword
      exact ⟨a, h a ha, rfl⟩

/-- The same with at least one letter, as `1*` asks: the words of the class that are not empty.
-/
theorem mem_plus_letter : s ∈ plus (letter p) ↔ s ≠ [] ∧ ∀ a ∈ s, p a := by
  constructor
  · rintro ⟨_, ⟨a, ha, rfl⟩, rest, hrest, rfl⟩
    refine ⟨List.cons_ne_nil a rest, ?_⟩
    change ∀ b ∈ a :: rest, p b
    rw [List.forall_mem_cons]
    exact ⟨ha, mem_star_letter.mp hrest⟩
  · rintro ⟨hne, h⟩
    cases s with
    | nil => exact absurd rfl hne
    | cons a rest =>
        rw [List.forall_mem_cons] at h
        exact ⟨[a], ⟨a, h.1, rfl⟩, rest, mem_star_letter.mpr h.2, rfl⟩

/-- A fixed number of letters. The number is the length of the word, so a recogniser that counts
characters counts repetitions. -/
theorem mem_pow_letter {n : ℕ} : s ∈ letter p ^ n ↔ s.length = n ∧ ∀ a ∈ s, p a := by
  induction n generalizing s with
  | zero =>
      rw [pow_zero, Language.mem_one, List.length_eq_zero_iff]
      constructor
      · rintro rfl
        exact ⟨rfl, nofun⟩
      · exact And.left
  -- the first letter is one of the repetitions, and the induction is on the others
  | succ n ih =>
      rw [pow_succ', Language.mem_mul]
      constructor
      · rintro ⟨_, ⟨a, ha, rfl⟩, rest, hrest, rfl⟩
        obtain ⟨hlength, hall⟩ := ih.mp hrest
        refine ⟨congrArg (· + 1) hlength, ?_⟩
        change ∀ b ∈ a :: rest, p b
        rw [List.forall_mem_cons]
        exact ⟨ha, hall⟩
      · rintro ⟨hlength, hall⟩
        cases s with
        | nil => cases hlength
        | cons a rest =>
            rw [List.forall_mem_cons] at hall
            exact ⟨[a], ⟨a, hall.1, rfl⟩, rest, ih.mpr ⟨Nat.succ.inj hlength, hall.2⟩, rfl⟩

/-- Repetitions put one after the other are a repetition: the pieces of both words are pieces of
the whole. -/
theorem mem_star_append {t : List α} (hs : s ∈ L∗) (ht : t ∈ L∗) : s ++ t ∈ L∗ := by
  obtain ⟨words, rfl, hwords⟩ := hs
  obtain ⟨words', rfl, hwords'⟩ := ht
  refine ⟨words ++ words', List.flatten_append.symm, ?_⟩
  rw [List.forall_mem_append]
  exact ⟨hwords, hwords'⟩

/-- A repetition of the words of one rule is one of the words of a larger rule, piece by piece.
-/
theorem mem_star_mono (h : ∀ s ∈ L, s ∈ M) : ∀ s ∈ L∗, s ∈ M∗ := by
  rintro _ ⟨words, rfl, hwords⟩
  exact ⟨words, rfl, fun word hword => h word (hwords word hword)⟩

/-! ## The letters of a rule

A rule of a grammar seldom uses every letter, and where a recogniser cuts at a separator it
relies on that: the part before the separator must not be able to contain it. `uses` goes
through each operation of the notation by one lemma, so the letters of a rule are read off its
definition. The lemmas have no side conditions but the letters of the parts. -/

/-- Every letter of every word has the property. -/
def uses (L : Language α) (p : α → Prop) : Prop := ∀ s ∈ L, ∀ a ∈ s, p a

/-- A rule that uses only letters of one class uses only letters of a larger one. -/
theorem uses.mono (h : uses L p) (hpq : ∀ a, p a → q a) : uses L q :=
  fun s hs a ha => hpq a (h s hs a ha)

/-- A letter of a class that is contained in the other. -/
theorem uses_letter (h : ∀ a, p a → q a) : uses (letter p) q := by
  rintro _ ⟨a, ha, rfl⟩ b hb
  rw [List.mem_singleton.mp hb]
  exact h a ha

/-- The empty word has no letters. -/
theorem uses_one : uses (1 : Language α) p := by
  rintro s hs a ha
  rw [(Language.mem_one s).mp hs] at ha
  cases ha

/-- A concatenation uses the letters of its two parts and no others, since a letter of the word
is a letter of one of them. -/
theorem uses_mul (hL : uses L p) (hM : uses M p) : uses (L * M) p := by
  rintro _ ⟨s, hs, t, ht, rfl⟩ a ha
  rcases List.mem_append.mp ha with ha | ha
  · exact hL s hs a ha
  · exact hM t ht a ha

/-- An alternative has the letters of its branch. -/
theorem uses_add (hL : uses L p) (hM : uses M p) : uses (L + M) p := by
  rintro s (hs | hs)
  · exact hL s hs
  · exact hM s hs

/-- Leaving a rule out adds none. -/
theorem uses_opt (hL : uses L p) : uses (opt L) p := uses_add uses_one hL

/-- A repetition uses the letters of what is repeated, however often it is: a letter of the word
stands in one of its pieces. -/
theorem uses_star (hL : uses L p) : uses L∗ p := by
  rintro _ ⟨words, rfl, hwords⟩ a ha
  obtain ⟨word, hword, ha⟩ := List.mem_flatten.mp ha
  exact hL word (hwords word hword) a ha

/-- A repetition has the letters of what is repeated, once or more. -/
theorem uses_plus (hL : uses L p) : uses (plus L) p := uses_mul hL (uses_star hL)

/-- A power uses the letters of its rule, by induction on the number of repetitions. -/
theorem uses_pow (hL : uses L p) (n : ℕ) : uses (L ^ n) p := by
  induction n with
  | zero =>
      rw [pow_zero]
      exact uses_one
  | succ n ih =>
      rw [pow_succ]
      exact uses_mul ih hL

/-- And so it has with a bound. -/
theorem uses_upto (hL : uses L p) (n : ℕ) : uses (upto n L) p := by
  rintro s ⟨k, -, hs⟩
  exact uses_pow hL k s hs

/-- A rule whose words do not use `c`. -/
abbrev avoids (L : Language α) (c : α) : Prop := uses L (· ≠ c)

/-- What `avoids` is for: a word of the rule does not contain the separator, so the first
separator of a longer word stands behind it. -/
theorem avoids.not_mem (h : avoids L c) (hs : s ∈ L) : c ∉ s := fun hc => h s hs c hc rfl

/-! ## Cutting at a separator

A recogniser looks for the first separator of a word and treats the two sides separately. When
the rule before the separator avoids it, the derivation has no choice but to put its own
separator there, and membership is that of the two sides. There is one lemma for each form in
which grammars use a separator: between two rules, before a part that may be left out, and after
one; and each has a companion for a word in which the separator does not occur. -/

/-- What stands before the first separator, and what follows it, are determined by the word: two
ways of cutting it that put no separator in front cut at the same place. -/
theorem cut_unique {a b a' b' : List α} (h : a ++ c :: b = a' ++ c :: b') (ha : c ∉ a)
    (ha' : c ∉ a') : a = a' ∧ b = b' := by
  induction a generalizing a' with
  | nil =>
      cases a' with
      | nil => exact ⟨rfl, (List.cons.inj h).2⟩
      | cons x a' => exact absurd (List.mem_cons.mpr (.inl (List.cons.inj h).1)) ha'
  -- a shorter front would put the separator among the letters of the longer one
  | cons x a ih =>
      cases a' with
      | nil => exact absurd (List.mem_cons.mpr (.inl (List.cons.inj h).1.symm)) ha
      | cons y a' =>
          obtain ⟨rfl, htail⟩ := List.cons.inj h
          obtain ⟨rfl, hb⟩ := ih htail (fun hc => ha (List.mem_cons_of_mem x hc))
            (fun hc => ha' (List.mem_cons_of_mem x hc))
          exact ⟨rfl, hb⟩

/-- A word of `L c M` is a word of `L`, the separator and a word of `M`; nothing is said yet
about where the separator is. -/
theorem mem_mul_cons : s ∈ L * (letter (· = c) * M) ↔ ∃ a ∈ L, ∃ b ∈ M, s = a ++ c :: b := by
  constructor
  · rintro ⟨a, ha, _, ⟨_, ⟨c', rfl, rfl⟩, b, hb, rfl⟩, rfl⟩
    exact ⟨a, ha, b, hb, rfl⟩
  · rintro ⟨a, ha, b, hb, rfl⟩
    exact ⟨a, ha, c :: b, ⟨[c], ⟨c, rfl, rfl⟩, b, hb, rfl⟩, rfl⟩

/-- `L c M`, where `c` separates: for a word that is cut at its first separator, membership is
membership of the two sides. -/
theorem mem_cut (hL : avoids L c) {a b : List α} (ha : c ∉ a) :
    a ++ c :: b ∈ L * (letter (· = c) * M) ↔ a ∈ L ∧ b ∈ M := by
  rw [mem_mul_cons]
  constructor
  · rintro ⟨a', ha', b', hb', h⟩
    obtain ⟨rfl, rfl⟩ := cut_unique h ha (hL.not_mem ha')
    exact ⟨ha', hb'⟩
  · rintro ⟨haL, hbM⟩
    exact ⟨a, haL, b, hbM, rfl⟩

/-- A word in which the separator does not occur is not of the form `L c M`, whatever the two
rules are. -/
theorem not_mem_cut (hs : c ∉ s) : s ∉ L * (letter (· = c) * M) := by
  rw [mem_mul_cons]
  rintro ⟨a, -, b, -, rfl⟩
  exact hs (List.mem_append_right a (List.mem_cons_self ..))

/-- `L [c M]`: the first separator begins the part that may be left out. -/
theorem mem_opt_after (hL : avoids L c) {a b : List α} (ha : c ∉ a) :
    a ++ c :: b ∈ L * opt (letter (· = c) * M) ↔ a ∈ L ∧ b ∈ M := by
  constructor
  · rintro ⟨a', ha', rest, hnone | hsome, h⟩
    -- left out: then the separator would be a letter of the word of `L`
    · rw [(Language.mem_one rest).mp hnone] at h
      dsimp only at h
      rw [List.append_nil] at h
      rw [h] at ha'
      exact absurd (List.mem_append_right a (List.mem_cons_self ..)) (hL.not_mem ha')
    · rw [← mem_cut (M := M) hL ha, ← h]
      exact ⟨a', ha', rest, hsome, rfl⟩
  · rintro ⟨haL, hbM⟩
    exact ⟨a, haL, c :: b, .inr ⟨[c], ⟨c, rfl, rfl⟩, b, hbM, rfl⟩, rfl⟩

/-- Where the separator does not occur, the optional part was left out and the word is one of
the first rule. -/
theorem mem_opt_after_none (hs : c ∉ s) : s ∈ L * opt (letter (· = c) * M) ↔ s ∈ L := by
  constructor
  · rintro ⟨a, ha, rest, hnone | hsome, rfl⟩
    · rw [(Language.mem_one rest).mp hnone]
      dsimp only
      rwa [List.append_nil]
    · exact absurd ⟨a, ha, rest, hsome, rfl⟩ (not_mem_cut (L := L) (M := M) hs)
  · intro h
    exact ⟨s, h, [], .inl rfl, List.append_nil s⟩

/-- An optional prefix that ends with a separator, in front of a rule without it: the first
separator of the word ends the prefix. -/
theorem mem_opt_before (hL : avoids L c) (hM : avoids M c) {a b : List α} (ha : c ∉ a) :
    a ++ c :: b ∈ opt (L * letter (· = c)) * M ↔ a ∈ L ∧ b ∈ M := by
  constructor
  · rintro ⟨front, hnone | hsome, b', hb', h⟩
    -- left out: then the separator would be a letter of the word of `M`
    · rw [(Language.mem_one front).mp hnone] at h
      dsimp only at h
      rw [List.nil_append] at h
      rw [h] at hb'
      exact absurd (List.mem_append_right a (List.mem_cons_self ..)) (hM.not_mem hb')
    · obtain ⟨a', ha', _, ⟨c', rfl, rfl⟩, rfl⟩ := hsome
      dsimp only at h
      rw [List.append_assoc] at h
      obtain ⟨rfl, rfl⟩ := cut_unique h (hL.not_mem ha') ha
      exact ⟨ha', hb'⟩
  · rintro ⟨haL, hbM⟩
    refine ⟨a ++ [c], .inr ⟨a, haL, [c], ⟨c, rfl, rfl⟩, rfl⟩, b, hbM, ?_⟩
    exact List.append_cons a c b |>.symm

/-- Where the separator does not occur, the optional part in front was left out and the word is
one of the second rule. -/
theorem mem_opt_before_none (hs : c ∉ s) : s ∈ opt (L * letter (· = c)) * M ↔ s ∈ M := by
  constructor
  · rintro ⟨front, hnone | hsome, b, hb, rfl⟩
    · rw [(Language.mem_one front).mp hnone]
      exact hb
    · obtain ⟨a, -, _, ⟨c', rfl, rfl⟩, rfl⟩ := hsome
      have hmem := List.mem_append_right a (List.mem_singleton_self c')
      exact absurd (List.mem_append_left b hmem) hs
  · intro h
    exact ⟨[], .inl rfl, s, h, rfl⟩

/-! ## Pieces

A rule such as `n( h16 ":" )` is a list of pieces, each with the separator after it. A
recogniser splits the text at all the separators at once and counts the pieces; the lemmas here
take such a split back to the derivation, and a derivation to its split. -/

/-- Words, each with the separator after it. -/
def ended (c : α) (words : List (List α)) : List α := words.flatMap (· ++ [c])

/-- No pieces. -/
@[simp] theorem ended_nil : ended c [] = [] := rfl

/-- The first word, its separator, and the words behind it: the form in which a cut at the first
separator applies. -/
@[simp] theorem ended_cons (word : List α) (words : List (List α)) :
    ended c (word :: words) = word ++ c :: ended c words := by
  rw [ended, List.flatMap_cons]
  exact (List.append_cons word c _).symm

/-- A power of `L c` is a list of that many words of `L`, each ended by the separator. The
induction in each direction is over the list of pieces. -/
theorem mem_pow_ended {n : ℕ} : s ∈ (L * letter (· = c)) ^ n ↔
    ∃ words : List (List α), words.length = n ∧ (∀ word ∈ words, word ∈ L) ∧
      s = ended c words := by
  rw [Language.mem_pow]
  constructor
  · rintro ⟨parts, rfl, rfl, hparts⟩
    induction parts with
    | nil => exact ⟨[], rfl, nofun, rfl⟩
    | cons part parts ih =>
        rw [List.forall_mem_cons] at hparts
        obtain ⟨word, hword, _, ⟨c', rfl, rfl⟩, rfl⟩ := hparts.1
        obtain ⟨words, hlength, hwords, hended⟩ := ih hparts.2
        refine ⟨word :: words, congrArg (· + 1) hlength, ?_, ?_⟩
        · rw [List.forall_mem_cons]
          exact ⟨hword, hwords⟩
        · rw [ended_cons, ← hended, List.flatten_cons]
          exact (List.append_cons word c' _).symm
  · rintro ⟨words, rfl, hwords, rfl⟩
    refine ⟨words.map (· ++ [c]), ?_, List.length_map .., ?_⟩
    · exact List.flatMap_def ..
    · intro part hpart
      obtain ⟨word, hword, rfl⟩ := List.mem_map.mp hpart
      exact ⟨word, hwords word hword, [c], ⟨c, rfl, rfl⟩, rfl⟩

/-- Putting the separator between words, the last of which is named, is ending all the others
with it. -/
theorem intercalate_ended (words : List (List α)) (last : List α) :
    [c].intercalate (words ++ [last]) = ended c words ++ last := by
  induction words with
  | nil => simp
  | cons word words ih =>
      rw [List.cons_append, List.intercalate_cons_of_ne_nil (by simp), ih]
      simp

section Split

variable [BEq α] [LawfulBEq α]

/-- Splitting at the separator finds the words again, when none of them contains it, and then
splits what stands behind them. -/
theorem splitOn_ended {words : List (List α)} (h : ∀ word ∈ words, c ∉ word) (t : List α) :
    (ended c words ++ t).splitOn c = words ++ t.splitOn c := by
  induction words with
  | nil => rfl
  | cons word words ih =>
      rw [List.forall_mem_cons] at h
      rw [ended_cons, List.append_assoc, List.cons_append,
        List.splitOn_append_cons_self_of_not_mem h.1, ih h.2]
      rfl

/-- A word from its pieces: all but the last end with the separator. -/
theorem eq_ended_of_splitOn {words : List (List α)} {last : List α}
    (h : s.splitOn c = words ++ [last]) : s = ended c words ++ last := by
  rw [← intercalate_ended, ← h, List.intercalate_splitOn]

end Split

end Abnf
