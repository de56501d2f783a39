/-
`valid_resource_uri` decides the `URI` rule.

The function cuts the text at the first `:`, then from the right at the first `#` and the
first `?`, then the authority at the first `/`, `@`, `]` and `:`. Each cut is where the
derivation has that character too, since the rule before it does not use it: this is
`mem_cut` and its relatives with one `avoids` for each rule. What is left are runs of
characters, `component`, and the groups of an address, which are counted.
-/
import SynapseMcp.ResourceUri
import SynapseMcp.UriGrammar
import Mathlib.Tactic.IntervalCases

set_option autoImplicit false

namespace SynapseMcp

open Abnf Computability

/-! ## Characters

The predicates on characters compare codes, and so do the classes of the RFC; where the source
looks a character up in a list of punctuation, the grammar has one alternative for each. They
are matched alternative by alternative. -/

theorem alpha_iff {ch : UInt8} : alpha ch = true ↔ Uri.ALPHA ch := by
  simp only [alpha, Bool.or_eq_true, Bool.and_eq_true, decide_eq_true_eq]
  exact or_comm

theorem digit_iff {ch : UInt8} : digit ch = true ↔ Uri.DIGIT ch := by
  simp only [digit, Bool.and_eq_true, decide_eq_true_eq]
  exact Iff.rfl

theorem hex_iff {ch : UInt8} : hex ch = true ↔ Uri.HEXDIG ch := by
  simp only [hex, Bool.or_eq_true, Bool.and_eq_true, decide_eq_true_eq, digit_iff, or_assoc]
  exact or_congr Iff.rfl or_comm

/-- Looking a byte up in a list of ASCII characters is looking it up among their codes. -/
theorem any_ascii_iff {cs : List Char} {ch : UInt8} :
    cs.any (ascii · == ch) = true ↔ ch ∈ cs.map (·.val.toUInt8) := by
  simp only [List.any_eq_true, beq_iff_eq, List.mem_map]
  exact Iff.rfl

/-- The unreserved characters, which the rule lists and the source tests in two parts. -/
theorem unreserved_iff {ch : UInt8} : unreserved ch = true ↔ [ch] ∈ Uri.unreserved := by
  simp only [unreserved, Bool.or_eq_true, any_ascii_iff, alpha_iff, digit_iff]
  constructor
  · rintro ((h | h) | h)
    · exact .inl (.inl ⟨ch, h, rfl⟩)
    · exact .inl (.inr ⟨ch, h, rfl⟩)
    · exact .inr ⟨ch, h, rfl⟩
  · rintro ((⟨_, h, heq⟩ | ⟨_, h, heq⟩) | ⟨_, h, heq⟩)
    all_goals cases heq
    · exact .inl (.inl h)
    · exact .inl (.inr h)
    · exact .inr h

/-- The delimiters within a component, each an alternative of the rule. -/
theorem sub_delim_iff {ch : UInt8} : sub_delim ch = true ↔ [ch] ∈ Uri.sub_delims := by
  rw [sub_delim, any_ascii_iff]
  constructor
  · exact fun h => ⟨ch, h, rfl⟩
  · rintro ⟨_, h, heq⟩
    cases heq
    exact h

/-! ## Components

`component` goes through a text character by character, and takes three of them at once where a
percent sign begins an encoded octet. Its argument is what else than unreserved characters and
delimiters is allowed, so that one lemma covers the paths, queries, fragments, names and user
information.

A percent sign that is not followed by two hexadecimal digits makes the function fail, and in
the grammar it is no word. So the percent sign may not be among the extra characters, which the
lemma asks for and every rule meets. -/

/-- The words `component` is made of. -/
def allowed (extra : List Char) : Language UInt8 :=
  Uri.unreserved + Uri.pct_encoded + Uri.sub_delims + Uri.chars extra

/-- An encoded octet is a percent sign and two hexadecimal digits. -/
theorem mem_pct_encoded {s : List UInt8} : s ∈ Uri.pct_encoded ↔ ∃ high low,
    hex high = true ∧ hex low = true ∧ s = [ascii '%', high, low] := by
  constructor
  · rintro ⟨_, ⟨_, ⟨_, rfl, rfl⟩, _, ⟨high, hhigh, rfl⟩, rfl⟩, _, ⟨low, hlow, rfl⟩, rfl⟩
    exact ⟨high, low, hex_iff.mpr hhigh, hex_iff.mpr hlow, rfl⟩
  · rintro ⟨high, low, hhigh, hlow, rfl⟩
    exact ⟨[ascii '%', high], ⟨[ascii '%'], ⟨_, rfl, rfl⟩, [high], ⟨high, hex_iff.mp hhigh, rfl⟩,
      rfl⟩, [low], ⟨low, hex_iff.mp hlow, rfl⟩, rfl⟩

/-- A word is one character or an encoded octet. The characters are those of the two classes of
the RFC and the few that the component allows besides. -/
theorem mem_allowed {extra : List Char} {s : List UInt8} : s ∈ allowed extra ↔
    (∃ ch, (unreserved ch || sub_delim ch || extra.any (ascii · == ch)) = true ∧ s = [ch]) ∨
      ∃ high low, hex high = true ∧ hex low = true ∧ s = [ascii '%', high, low] := by
  simp only [Bool.or_eq_true, unreserved_iff, sub_delim_iff, any_ascii_iff, ← mem_pct_encoded]
  constructor
  · rintro (((hunreserved | hpct) | hsub) | ⟨ch, h, rfl⟩)
    · rcases hunreserved with (⟨ch, h, rfl⟩ | ⟨ch, h, rfl⟩) | ⟨ch, h, rfl⟩
      · exact .inl ⟨ch, .inl (.inl (.inl (.inl ⟨ch, h, rfl⟩))), rfl⟩
      · exact .inl ⟨ch, .inl (.inl (.inl (.inr ⟨ch, h, rfl⟩))), rfl⟩
      · exact .inl ⟨ch, .inl (.inl (.inr ⟨ch, h, rfl⟩)), rfl⟩
    · exact .inr hpct
    · obtain ⟨ch, h, rfl⟩ := hsub
      exact .inl ⟨ch, .inl (.inr ⟨ch, h, rfl⟩), rfl⟩
    · exact .inl ⟨ch, .inr h, rfl⟩
  · rintro (⟨ch, (hunreserved | hsub) | hextra, rfl⟩ | hpct)
    · exact .inl (.inl (.inl hunreserved))
    · exact .inl (.inr hsub)
    · exact .inr ⟨ch, hextra, rfl⟩
    · exact .inl (.inl (.inr hpct))

/-- `component` decides the runs of its words, where the percent sign is not one of the
extra characters. -/
theorem component_iff {extra : List Char} (hpercent : extra.any (ascii · == ascii '%') = false)
    {s : List UInt8} : component extra s = true ↔ s ∈ (allowed extra)∗ := by
  constructor
  · intro h
    fun_induction component extra s with
    | case1 => exact Language.nil_mem_kstar _
    | case2 high low rest ih =>
        simp only [Bool.and_eq_true] at h
        obtain ⟨⟨hhigh, hlow⟩, hrest⟩ := h
        exact mem_star.mpr (.inr ⟨[ascii '%', high, low],
          mem_allowed.mpr (.inr ⟨high, low, hhigh, hlow, rfl⟩), rest, ih hrest, rfl⟩)
    | case3 => cases h
    | case4 ch rest hch ih =>
        rw [Bool.and_eq_true] at h
        exact mem_star.mpr (.inr ⟨[ch], mem_allowed.mpr (.inl ⟨ch, h.1, rfl⟩), rest, ih h.2, rfl⟩)
  -- a word is one character, or a percent sign with its two digits
  · rintro ⟨words, rfl, hwords⟩
    induction words with
    | nil => rfl
    | cons word words ih =>
        rw [List.forall_mem_cons] at hwords
        have hrest := ih hwords.2
        rcases mem_allowed.mp hwords.1 with ⟨ch, hch, rfl⟩ | ⟨high, low, hhigh, hlow, rfl⟩
        · have hne : ch ≠ ascii '%' := by
            rintro rfl
            rw [hpercent] at hch
            revert hch
            decide
          rw [List.flatten_cons, List.singleton_append, component.eq_def]
          dsimp only
          rw [if_neg hne, hch, hrest]
          rfl
        · rw [List.flatten_cons, List.cons_append, List.cons_append, List.singleton_append,
            component.eq_def]
          dsimp only
          rw [if_pos rfl, hhigh, hlow, hrest]
          rfl

/-! ## The runs of the rules

The runs of characters in the grammar are the runs of words that `component` decides, each with
its own extra characters. What the words of such a run can contain is all that the cuts below
have to know about it.

`uses` and `avoids` of `Abnf` are computed for each rule once: the letters of a run are the
letters of its words, and those are the extra characters, the unreserved ones, the delimiters,
the percent sign and the digits of an encoding. -/

theorem chars_nil : Uri.chars [] = 0 :=
  Language.ext fun _ => ⟨fun ⟨_, h, _⟩ => absurd h List.not_mem_nil, fun h => h.elim⟩

/-- The alternatives of a rule with one more character in front. -/
theorem chars_cons (c : Char) (cs : List Char) :
    Uri.chars (c :: cs) = Uri.char c + Uri.chars cs := by
  apply Language.ext
  intro s
  constructor
  · rintro ⟨b, hb, rfl⟩
    rcases List.mem_cons.mp hb with rfl | hb
    · exact .inl ⟨_, rfl, rfl⟩
    · exact .inr ⟨b, hb, rfl⟩
  · rintro (⟨b, rfl, rfl⟩ | ⟨b, hb, rfl⟩)
    · exact ⟨_, List.mem_cons_self .., rfl⟩
    · exact ⟨b, List.mem_cons_of_mem _ hb, rfl⟩

theorem pchar_eq : Uri.pchar = allowed [':', '@'] := by
  simp only [allowed, Uri.pchar, chars_cons, chars_nil, add_zero, add_assoc]

theorem pchar_slash_eq : Uri.pchar + Uri.char '/' = allowed [':', '@', '/'] := by
  simp only [allowed, Uri.pchar, chars_cons, chars_nil, add_zero, add_assoc]

theorem query_eq : Uri.query = (allowed [':', '@', '/', '?'])∗ := by
  simp only [allowed, Uri.query, Uri.pchar, chars_cons, chars_nil, add_zero, add_assoc]

theorem fragment_eq : Uri.fragment = (allowed [':', '@', '/', '?'])∗ := query_eq

theorem reg_name_eq : Uri.reg_name = (allowed [])∗ := by
  simp only [allowed, Uri.reg_name, chars_nil, add_zero]

theorem userinfo_eq : Uri.userinfo = (allowed [':'])∗ := by
  simp only [allowed, Uri.userinfo, chars_cons, chars_nil, add_zero]

/-- The characters of an allowed word. -/
def allowed_letter (extra : List Char) (ch : UInt8) : Bool :=
  unreserved ch || sub_delim ch || extra.any (ascii · == ch) || ch == ascii '%'

theorem hex_unreserved {ch : UInt8} (h : hex ch = true) : unreserved ch = true := by
  simp only [hex, digit, Bool.or_eq_true, Bool.and_eq_true, decide_eq_true_eq] at h
  simp only [unreserved, alpha, digit, Bool.or_eq_true, Bool.and_eq_true, decide_eq_true_eq]
  left
  rcases h with (h | ⟨hlow, hhigh⟩) | ⟨hlow, hhigh⟩
  · exact .inr h
  · exact .inl (.inl ⟨hlow, UInt8.le_trans hhigh (show ascii 'f' ≤ ascii 'z' by decide)⟩)
  · exact .inl (.inr ⟨hlow, UInt8.le_trans hhigh (show ascii 'F' ≤ ascii 'Z' by decide)⟩)

/-- The characters of a word: its own, or those of an encoded octet, which are digits and the
percent sign. -/
theorem uses_allowed (extra : List Char) :
    uses (allowed extra) (fun ch => allowed_letter extra ch = true) := by
  intro s hs ch hch
  unfold allowed_letter
  rcases mem_allowed.mp hs with ⟨ch', hallowed, rfl⟩ | ⟨high, low, hhigh, hlow, rfl⟩
  · rw [List.mem_singleton.mp hch, hallowed]
    rfl
  · rcases List.mem_cons.mp hch with rfl | hch
    · simp
    rcases List.mem_cons.mp hch with rfl | hch
    · rw [hex_unreserved hhigh]
      rfl
    · rw [List.mem_singleton.mp hch, hex_unreserved hlow]
      rfl

/-- A rule whose words have only such characters avoids the others. -/
theorem avoids_of_uses {extra : List Char} {L : Language UInt8} {c : UInt8}
    (hL : uses L (fun ch => allowed_letter extra ch = true))
    (h : allowed_letter extra c = false) : avoids L c := by
  refine hL.mono ?_
  rintro ch hch rfl
  rw [h] at hch
  cases hch

/-- A word does not use a character that is neither allowed nor part of an encoding. -/
theorem avoids_allowed {extra : List Char} {c : UInt8} (h : allowed_letter extra c = false) :
    avoids (allowed extra) c := avoids_of_uses (uses_allowed extra) h

theorem uses_char {p : UInt8 → Prop} {c : Char} (h : p (ascii c)) : uses (Uri.char c) p :=
  uses_letter fun a ha => by
    rw [ha]
    exact h

/-- Hexadecimal digits are unreserved, so every run may use them. -/
theorem hex_allowed {extra : List Char} {ch : UInt8} (h : Uri.HEXDIG ch) :
    allowed_letter extra ch = true := by
  rw [allowed_letter, hex_unreserved (hex_iff.mpr h)]
  rfl

/-- With more extra characters more is allowed. -/
theorem allowed_letter_mono {extra extra' : List Char} (h : ∀ c ∈ extra, c ∈ extra')
    (ch : UInt8) (hch : allowed_letter extra ch = true) : allowed_letter extra' ch = true := by
  simp only [allowed_letter, Bool.or_eq_true, List.any_eq_true, or_assoc] at hch ⊢
  rcases hch with hch | hch | ⟨c, hc, heq⟩ | hch
  · exact .inl hch
  · exact .inr (.inl hch)
  · exact .inr (.inr (.inl ⟨c, h c hc, heq⟩))
  · exact .inr (.inr (.inr hch))

/-! ## Cuts

`cut` finds the first occurrence of a character and returns the two sides, which is the
situation of the lemmas on separators in `Abnf`. The fragment is cut off before the query, as in
the source: the rules in front of `#` cannot contain it, and of what is left those in front of
`?` cannot contain that.

A component that may be left out is the optional suffix of a rule. That the function looks for
its separator, and takes all of the text where there is none, is the two cases of the option. -/

/-- `cut` returns the sides of the first occurrence, by induction on the text. -/
theorem cut_eq_some {c : Char} {s a b : List UInt8} :
    cut c s = some (a, b) ↔ s = a ++ ascii c :: b ∧ ascii c ∉ a := by
  induction s generalizing a with
  | nil =>
      refine ⟨fun h => (by cases h), fun h => ?_⟩
      exact absurd h.1.symm (List.append_ne_nil_of_right_ne_nil a (List.cons_ne_nil _ b))
  | cons ch rest ih =>
      rw [cut]
      by_cases hch : ch = ascii c
      · rw [if_pos hch]
        subst hch
        constructor
        · intro h
          cases h
          exact ⟨rfl, List.not_mem_nil⟩
        · rintro ⟨h, ha⟩
          -- the first byte is the separator, so what is before it is empty
          obtain ⟨rfl, rfl⟩ := cut_unique (a := []) h List.not_mem_nil ha
          rfl
      · rw [if_neg hch, Option.map_eq_some_iff]
        constructor
        · rintro ⟨⟨a', b'⟩, hcut, heq⟩
          cases heq
          obtain ⟨rfl, ha'⟩ := ih.mp hcut
          refine ⟨rfl, fun hmem => ?_⟩
          rcases List.mem_cons.mp hmem with heq | hmem
          · exact hch heq.symm
          · exact ha' hmem
        · rintro ⟨h, ha⟩
          cases a with
          | nil => exact absurd (List.cons.inj h).1 hch
          | cons ch' a =>
              obtain ⟨rfl, rfl⟩ := List.cons.inj h
              exact ⟨(a, b), ih.mpr ⟨rfl, fun hmem => ha (List.mem_cons_of_mem _ hmem)⟩, rfl⟩

/-- `cut` returns nothing where the character does not occur, and only there; what it returns
otherwise are the parts around the first occurrence. -/
theorem cut_eq_none {c : Char} {s : List UInt8} : cut c s = none ↔ ascii c ∉ s := by
  induction s with
  | nil => exact ⟨fun _ => List.not_mem_nil, fun _ => rfl⟩
  | cons ch rest ih =>
      rw [cut]
      by_cases hch : ch = ascii c
      · rw [if_pos hch]
        subst hch
        exact ⟨fun h => (by cases h), fun h => absurd (List.mem_cons_self ..) h⟩
      · rw [if_neg hch, Option.map_eq_none_iff, ih]
        refine ⟨fun h hmem => ?_, fun h hmem => h (List.mem_cons_of_mem ch hmem)⟩
        rcases List.mem_cons.mp hmem with heq | hmem
        · exact hch heq.symm
        · exact h hmem

/-- What `cut` finds, either way. -/
theorem cut_cases (c : Char) (s : List UInt8) :
    (cut c s = none ∧ ascii c ∉ s) ∨
      ∃ a b, cut c s = some (a, b) ∧ s = a ++ ascii c :: b ∧ ascii c ∉ a := by
  cases hcut : cut c s with
  | none => exact .inl ⟨rfl, cut_eq_none.mp hcut⟩
  | some parts => exact .inr ⟨parts.1, parts.2, rfl, cut_eq_some.mp hcut⟩

/-- A suffix that may be left out, `L [c suffix]`. -/
theorem cut_suffix_iff {c : Char} {L : Language UInt8} (hL : avoids L (ascii c))
    (s : List UInt8) :
    s ∈ L * opt (Uri.char c * (allowed [':', '@', '/', '?'])∗) ↔
      ∃ rest, cut_suffix c s = some rest ∧ rest ∈ L := by
  have hcomponent : ∀ b, component [':', '@', '/', '?'] b = true ↔
      b ∈ (allowed [':', '@', '/', '?'])∗ := fun b => component_iff (by decide)
  unfold cut_suffix
  rcases cut_cases c s with ⟨hcut, hmem⟩ | ⟨a, b, hcut, rfl, ha⟩
  · rw [hcut]
    refine (mem_opt_after_none hmem).trans ⟨fun h => ⟨s, rfl, h⟩, ?_⟩
    rintro ⟨_, ⟨⟩, h⟩
    exact h
  · rw [hcut]
    refine (mem_opt_after hL ha).trans ?_
    rw [← hcomponent b]
    dsimp only
    by_cases hb : component [':', '@', '/', '?'] b = true
    · rw [if_pos hb]
      refine ⟨fun h => ⟨a, rfl, h.1⟩, ?_⟩
      rintro ⟨_, ⟨⟩, h⟩
      exact ⟨h, hb⟩
    · rw [if_neg hb]
      refine ⟨fun h => absurd h.2 hb, ?_⟩
      rintro ⟨_, h, -⟩
      cases h

/-! ## Paths

The four kinds of path in the grammar differ in how they begin: after an authority a path is
empty or begins with a slash, without one it may begin in any other way than with two slashes.
The source checks a run of path characters and how it begins, so what is shown is that such a
run splits at its slashes into segments.

That an empty first segment is refused without an authority is why the function looks at the
first two characters: a path that began with two slashes would have been read as an authority. -/

theorem avoids_pchar_slash : avoids Uri.pchar (ascii '/') := by
  rw [pchar_eq]
  exact avoids_allowed (by decide)

theorem pchar_ne_nil {s : List UInt8} (h : s ∈ Uri.pchar) : s ≠ [] := by
  rw [pchar_eq, mem_allowed] at h
  rcases h with ⟨ch, -, rfl⟩ | ⟨high, low, -, -, rfl⟩
  · exact List.cons_ne_nil _ _
  · exact List.cons_ne_nil _ _

/-- A segment that must not be empty is one that is not. -/
theorem mem_segment_nz {s : List UInt8} : s ∈ Uri.segment_nz ↔ s ∈ Uri.segment ∧ s ≠ [] := by
  constructor
  · rintro ⟨a, ha, b, hb, rfl⟩
    exact ⟨mem_star.mpr (.inr ⟨a, ha, b, hb, rfl⟩),
      List.append_ne_nil_of_left_ne_nil (pchar_ne_nil ha) b⟩
  · rintro ⟨hs, hne⟩
    rcases mem_star.mp hs with rfl | ⟨a, ha, b, hb, rfl⟩
    · exact absurd rfl hne
    · exact ⟨a, ha, b, hb, rfl⟩

/-- Segments, each after a slash: the rule starts with a slash where it has a word. -/
theorem abempty_cases {s : List UInt8} : s ∈ Uri.path_abempty ↔
    s = [] ∨ ∃ seg ∈ Uri.segment, ∃ tail ∈ Uri.path_abempty, s = ascii '/' :: (seg ++ tail) := by
  unfold Uri.path_abempty
  rw [mem_star]
  apply or_congr Iff.rfl
  constructor
  · rintro ⟨_, ⟨_, ⟨_, rfl, rfl⟩, seg, hseg, rfl⟩, tail, htail, rfl⟩
    exact ⟨seg, hseg, tail, htail, rfl⟩
  · rintro ⟨seg, hseg, tail, htail, rfl⟩
    exact ⟨ascii '/' :: seg, ⟨[ascii '/'], ⟨_, rfl, rfl⟩, seg, hseg, rfl⟩, tail, htail, rfl⟩

/-- A run of path characters is a segment, and segments after slashes. -/
theorem split_segments {s : List UInt8} (h : s ∈ (Uri.pchar + Uri.char '/')∗) :
    ∃ seg ∈ Uri.segment, ∃ tail ∈ Uri.path_abempty, s = seg ++ tail := by
  obtain ⟨words, rfl, hwords⟩ := h
  induction words with
  | nil => exact ⟨[], Language.nil_mem_kstar _, [], Language.nil_mem_kstar _, rfl⟩
  | cons word words ih =>
      rw [List.forall_mem_cons] at hwords
      obtain ⟨seg, hseg, tail, htail, heq⟩ := ih hwords.2
      rw [List.flatten_cons, heq]
      rcases hwords.1 with hword | ⟨_, rfl, rfl⟩
      · refine ⟨word ++ seg, mem_star.mpr (.inr ⟨word, hword, seg, hseg, rfl⟩), tail, htail, ?_⟩
        exact (List.append_assoc word seg tail).symm
      · exact ⟨[], Language.nil_mem_kstar _, _,
          abempty_cases.mpr (.inr ⟨seg, hseg, tail, htail, rfl⟩), rfl⟩

/-- A segment is a run of path characters without a slash in it. -/
theorem segment_path {s : List UInt8} (h : s ∈ Uri.segment) :
    s ∈ (Uri.pchar + Uri.char '/')∗ := mem_star_mono (fun _ => .inl) s h

/-- Segments behind slashes are a run of path characters. -/
theorem abempty_path {s : List UInt8} (h : s ∈ Uri.path_abempty) :
    s ∈ (Uri.pchar + Uri.char '/')∗ := by
  obtain ⟨words, rfl, hwords⟩ := h
  induction words with
  | nil => exact Language.nil_mem_kstar _
  | cons word words ih =>
      rw [List.forall_mem_cons] at hwords
      obtain ⟨_, ⟨_, rfl, rfl⟩, seg, hseg, rfl⟩ := hwords.1
      exact mem_star.mpr (.inr ⟨[_], .inr ⟨_, rfl, rfl⟩, seg ++ words.flatten,
        mem_star_append (segment_path hseg) (ih hwords.2), rfl⟩)

/-- `component` with the slash allowed decides these runs. -/
theorem path_component {s : List UInt8} :
    component [':', '@', '/'] s = true ↔ s ∈ (Uri.pchar + Uri.char '/')∗ := by
  rw [pchar_slash_eq]
  exact component_iff (by decide)

/-- After an authority: nothing, or a run that starts with a slash. -/
theorem abempty_iff {s : List UInt8} : s ∈ Uri.path_abempty ↔
    (s = [] ∨ s.head? = some (ascii '/')) ∧ component [':', '@', '/'] s = true := by
  rw [path_component]
  constructor
  · intro h
    refine ⟨?_, abempty_path h⟩
    rcases abempty_cases.mp h with rfl | ⟨seg, -, tail, -, rfl⟩
    · exact .inl rfl
    · exact .inr rfl
  · rintro ⟨hhead, h⟩
    obtain ⟨seg, hseg, tail, htail, rfl⟩ := split_segments h
    cases seg with
    | nil => exact htail
    | cons ch seg =>
        rcases hhead with hnil | hslash
        · cases hnil
        · have hne := uses_star avoids_pchar_slash _ hseg ch (List.mem_cons_self ..)
          exact absurd (Option.some.inj hslash) hne

/-- Without an authority: a run that does not start with two slashes. -/
theorem path_iff {s : List UInt8} :
    s ∈ Uri.path_absolute + Uri.path_rootless + Uri.path_empty ↔
      ([ascii '/', ascii '/'].isPrefixOf s = false ∧ component [':', '@', '/'] s = true) := by
  have hfirst : ∀ {seg : List UInt8}, seg ∈ Uri.segment_nz → ∃ ch rest, seg = ch :: rest ∧
      ch ≠ ascii '/' := by
    intro seg hseg
    obtain ⟨hseg, hne⟩ := mem_segment_nz.mp hseg
    cases seg with
    | nil => exact absurd rfl hne
    | cons ch rest =>
        exact ⟨ch, rest, rfl, uses_star avoids_pchar_slash _ hseg ch (List.mem_cons_self ..)⟩
  rw [path_component]
  constructor
  · rintro ((⟨_, ⟨_, rfl, rfl⟩, rest, hnone | hsome, rfl⟩ | ⟨seg, hseg, tail, htail, rfl⟩) | hempty)
    · rw [(Language.mem_one rest).mp hnone]
      exact ⟨rfl, mem_star.mpr (.inr ⟨[_], .inr ⟨_, rfl, rfl⟩, [], Language.nil_mem_kstar _, rfl⟩)⟩
    · obtain ⟨seg, hseg, tail, htail, rfl⟩ := hsome
      obtain ⟨ch, rest, rfl, hch⟩ := hfirst hseg
      refine ⟨?_, mem_star.mpr (.inr ⟨[_], .inr ⟨_, rfl, rfl⟩, ch :: rest ++ tail,
        mem_star_append (segment_path (mem_segment_nz.mp hseg).1) (abempty_path htail), rfl⟩)⟩
      simp [List.isPrefixOf, Ne.symm hch]
    · obtain ⟨ch, rest, rfl, hch⟩ := hfirst hseg
      refine ⟨?_, mem_star_append (segment_path (mem_segment_nz.mp hseg).1) (abempty_path htail)⟩
      simp [List.isPrefixOf, Ne.symm hch]
    · rw [(Language.mem_one s).mp hempty]
      exact ⟨rfl, Language.nil_mem_kstar _⟩
  · rintro ⟨hslashes, h⟩
    obtain ⟨seg, hseg, tail, htail, rfl⟩ := split_segments h
    -- an empty first segment: the path begins with a slash, and the next segment must not be empty
    by_cases hseg' : seg = []
    · subst hseg'
      rcases abempty_cases.mp htail with rfl | ⟨seg', hseg', tail', htail', rfl⟩
      · exact .inr rfl
      · left
        left
        refine ⟨[_], ⟨_, rfl, rfl⟩, seg' ++ tail', ?_, rfl⟩
        by_cases hempty : seg' = []
        · subst hempty
          rcases abempty_cases.mp htail' with rfl | ⟨seg'', -, tail'', -, rfl⟩
          · exact .inl rfl
          · simp [List.isPrefixOf] at hslashes
        · exact .inr ⟨seg', mem_segment_nz.mpr ⟨hseg', hempty⟩, tail', htail', rfl⟩
    · exact .inl (.inr ⟨seg, mem_segment_nz.mpr ⟨hseg, hseg'⟩, tail, htail, rfl⟩)

/-! ## IPv4

The rule lists the octets by their leading digits; the source computes the value of up to three
digits. Both are compared by the codes of the digits, with one case for each length.

A leading zero is not allowed by either: the rule has no such alternative, and the source looks
for it before it computes. -/

/-- The alternatives of the rule: one digit, two, and three in the ranges up to 255. -/
theorem mem_dec_octet {s : List UInt8} : s ∈ Uri.dec_octet ↔
    (∃ a, Uri.DIGIT a ∧ s = [a]) ∨
    (∃ a b, (0x31 ≤ a ∧ a ≤ 0x39) ∧ Uri.DIGIT b ∧ s = [a, b]) ∨
    (∃ b c, Uri.DIGIT b ∧ Uri.DIGIT c ∧ s = [0x31, b, c]) ∨
    (∃ b c, (0x30 ≤ b ∧ b ≤ 0x34) ∧ Uri.DIGIT c ∧ s = [0x32, b, c]) ∨
    (∃ c, (0x30 ≤ c ∧ c ≤ 0x35) ∧ s = [0x32, 0x35, c]) := by
  constructor
  · rintro ((((⟨a, ha, rfl⟩ | ⟨_, ⟨a, ha, rfl⟩, _, ⟨b, hb, rfl⟩, rfl⟩) |
      ⟨_, ⟨_, ⟨_, rfl, rfl⟩, _, ⟨b, hb, rfl⟩, rfl⟩, _, ⟨c, hc, rfl⟩, rfl⟩) |
      ⟨_, ⟨_, ⟨_, rfl, rfl⟩, _, ⟨b, hb, rfl⟩, rfl⟩, _, ⟨c, hc, rfl⟩, rfl⟩) |
      ⟨_, ⟨_, ⟨_, rfl, rfl⟩, _, ⟨_, rfl, rfl⟩, rfl⟩, _, ⟨c, hc, rfl⟩, rfl⟩)
    · exact .inl ⟨a, ha, rfl⟩
    · exact .inr (.inl ⟨a, b, ha, hb, rfl⟩)
    · exact .inr (.inr (.inl ⟨b, c, hb, hc, rfl⟩))
    · exact .inr (.inr (.inr (.inl ⟨b, c, hb, hc, rfl⟩)))
    · exact .inr (.inr (.inr (.inr ⟨c, hc, rfl⟩)))
  · rintro (⟨a, ha, rfl⟩ | ⟨a, b, ha, hb, rfl⟩ | ⟨b, c, hb, hc, rfl⟩ | ⟨b, c, hb, hc, rfl⟩ |
      ⟨c, hc, rfl⟩)
    · exact .inl (.inl (.inl (.inl ⟨a, ha, rfl⟩)))
    · exact .inl (.inl (.inl (.inr ⟨[a], ⟨a, ha, rfl⟩, [b], ⟨b, hb, rfl⟩, rfl⟩)))
    · exact .inl (.inl (.inr ⟨[_, b], ⟨[_], ⟨_, rfl, rfl⟩, [b], ⟨b, hb, rfl⟩, rfl⟩,
        [c], ⟨c, hc, rfl⟩, rfl⟩))
    · exact .inl (.inr ⟨[_, b], ⟨[_], ⟨_, rfl, rfl⟩, [b], ⟨b, hb, rfl⟩, rfl⟩,
        [c], ⟨c, hc, rfl⟩, rfl⟩)
    · exact .inr ⟨[_, _], ⟨[_], ⟨_, rfl, rfl⟩, [_], ⟨_, rfl, rfl⟩, rfl⟩, [c], ⟨c, hc, rfl⟩, rfl⟩

/-- A digit by its code. -/
theorem digit_value {ch : UInt8} : digit ch = true ↔
    48 ≤ ch.toNat ∧ ch.toNat ≤ 57 := by
  rw [digit_iff, Uri.DIGIT, UInt8.le_iff_toNat_le, UInt8.le_iff_toNat_le]
  exact Iff.rfl

/-- The value of a digit is its code less that of zero, without a borrow. -/
theorem digit_sub {ch : UInt8} (h : digit ch = true) :
    (ch - ascii '0').toNat = ch.toNat - 48 := by
  rw [digit_value] at h
  exact UInt8.toNat_sub_of_le ch (ascii '0') (UInt8.le_iff_toNat_le.mpr h.1)

theorem ne_zero_digit {ch : UInt8} : ch ≠ ascii '0' ↔ ch.toNat ≠ 48 := by
  rw [Ne, ← UInt8.toNat_inj]
  exact Iff.rfl

theorem ipv4_octet_one {a : UInt8} : ipv4_octet [a] = true ↔ digit a = true := by
  constructor
  · intro h
    simp [ipv4_octet] at h
    exact h.1
  · intro h
    have hvalue := digit_sub h
    rw [digit_value] at h
    have h' : digit a = true := digit_value.mpr h
    simp [ipv4_octet, h', hvalue]
    omega

/-- Two digits, the first of which is not zero; their value cannot be too large. -/
theorem ipv4_octet_two {a b : UInt8} : ipv4_octet [a, b] = true ↔
    digit a = true ∧ digit b = true ∧ a ≠ ascii '0' := by
  constructor
  · intro h
    simp [ipv4_octet] at h
    tauto
  · rintro ⟨ha, hb, hne⟩
    have ha' := digit_value.mp ha
    have hb' := digit_value.mp hb
    simp [ipv4_octet, ha, hb, hne, digit_sub ha, digit_sub hb]
    omega

/-- Three digits, where the value has to be compared, since only here it can be above 255; and a
leading zero is refused, as the rule of the RFC does. -/
theorem ipv4_octet_three {a b c : UInt8} : ipv4_octet [a, b, c] = true ↔
    digit a = true ∧ digit b = true ∧ digit c = true ∧ a ≠ ascii '0' ∧
      (a.toNat - 48) * 100 + (b.toNat - 48) * 10 + (c.toNat - 48) ≤ 255 := by
  constructor
  · intro h
    simp [ipv4_octet] at h
    obtain ⟨⟨hne, ha, hb, hc⟩, hvalue⟩ := h
    rw [digit_sub ha, digit_sub hb, digit_sub hc] at hvalue
    refine ⟨ha, hb, hc, hne, by omega⟩
  · rintro ⟨ha, hb, hc, hne, hvalue⟩
    simp [ipv4_octet, ha, hb, hc, hne, digit_sub ha, digit_sub hb, digit_sub hc]
    omega

/-- An octet has one digit at least and three at most. -/
theorem ipv4_octet_length {s : List UInt8} (h : ipv4_octet s = true) : s ≠ [] ∧ s.length ≤ 3 := by
  simp [ipv4_octet] at h
  tauto

/-- A class of characters, by their codes. -/
theorem range_iff {ch low high : UInt8} :
    (low ≤ ch ∧ ch ≤ high) ↔ low.toNat ≤ ch.toNat ∧ ch.toNat ≤ high.toNat := by
  rw [UInt8.le_iff_toNat_le, UInt8.le_iff_toNat_le]

/-- The value of the digits is at most 255, and the first of several is not zero. -/
theorem ipv4_octet_iff {s : List UInt8} : ipv4_octet s = true ↔ s ∈ Uri.dec_octet := by
  rw [mem_dec_octet]
  constructor
  · intro h
    obtain ⟨hne, hlength⟩ := ipv4_octet_length h
    match s, hne, hlength with
    | [a], _, _ => exact .inl ⟨a, digit_iff.mp (ipv4_octet_one.mp h), rfl⟩
    | [a, b], _, _ =>
        obtain ⟨ha, hb, hzero⟩ := ipv4_octet_two.mp h
        refine .inr (.inl ⟨a, b, ?_, digit_iff.mp hb, rfl⟩)
        rw [digit_value] at ha
        rw [ne_zero_digit] at hzero
        rw [range_iff]
        change 49 ≤ a.toNat ∧ a.toNat ≤ 57
        omega
    | [a, b, c], _, _ =>
        obtain ⟨ha, hb, hc, hzero, hvalue⟩ := ipv4_octet_three.mp h
        have hb' := digit_iff.mp hb
        have hc' := digit_iff.mp hc
        rw [digit_value] at ha hb hc
        rw [ne_zero_digit] at hzero
        -- the first digit is 1 or 2, and after 25 there are six digits left
        rcases show a.toNat = 49 ∨ a.toNat = 50 by omega with hone | htwo
        · obtain rfl := UInt8.toNat_inj.mp (show a.toNat = (0x31 : UInt8).toNat from hone)
          exact .inr (.inr (.inl ⟨b, c, hb', hc', rfl⟩))
        · obtain rfl := UInt8.toNat_inj.mp (show a.toNat = (0x32 : UInt8).toNat from htwo)
          rcases show b.toNat ≤ 52 ∨ b.toNat = 53 by omega with hsmall | hfive
          · refine .inr (.inr (.inr (.inl ⟨b, c, ?_, hc', rfl⟩)))
            rw [range_iff]
            exact ⟨hb.1, hsmall⟩
          · obtain rfl := UInt8.toNat_inj.mp (show b.toNat = (0x35 : UInt8).toNat from hfive)
            refine .inr (.inr (.inr (.inr ⟨c, ?_, rfl⟩)))
            rw [range_iff]
            change 48 ≤ c.toNat ∧ c.toNat ≤ 53
            omega
  · have hdigit : ∀ {ch low high : UInt8}, 48 ≤ low.toNat → high.toNat ≤ 57 →
        low ≤ ch ∧ ch ≤ high → digit ch = true := by
      intro ch low high hlow hhigh h
      rw [range_iff] at h
      rw [digit_value]
      omega
    rintro (⟨a, ha, rfl⟩ | ⟨a, b, ha, hb, rfl⟩ | ⟨b, c, hb, hc, rfl⟩ | ⟨b, c, hb, hc, rfl⟩ |
      ⟨c, hc, rfl⟩)
    · exact ipv4_octet_one.mpr (digit_iff.mpr ha)
    · refine ipv4_octet_two.mpr ⟨hdigit (by decide) (by decide) ha, digit_iff.mpr hb, ?_⟩
      rw [range_iff] at ha
      rw [ne_zero_digit]
      change 49 ≤ a.toNat ∧ a.toNat ≤ 57 at ha
      omega
    · have hb' := digit_value.mp (digit_iff.mpr hb)
      have hc' := digit_value.mp (digit_iff.mpr hc)
      refine ipv4_octet_three.mpr
        ⟨by decide, digit_iff.mpr hb, digit_iff.mpr hc, by decide, ?_⟩
      change (49 - 48) * 100 + (b.toNat - 48) * 10 + (c.toNat - 48) ≤ 255
      omega
    · have hc' := digit_value.mp (digit_iff.mpr hc)
      refine ipv4_octet_three.mpr
        ⟨by decide, hdigit (by decide) (by decide) hb, digit_iff.mpr hc, by decide, ?_⟩
      rw [range_iff] at hb
      change 48 ≤ b.toNat ∧ b.toNat ≤ 52 at hb
      change (50 - 48) * 100 + (b.toNat - 48) * 10 + (c.toNat - 48) ≤ 255
      omega
    · refine ipv4_octet_three.mpr
        ⟨by decide, by decide, hdigit (by decide) (by decide) hc, by decide, ?_⟩
      rw [range_iff] at hc
      change 48 ≤ c.toNat ∧ c.toNat ≤ 53 at hc
      change (50 - 48) * 100 + (53 - 48) * 10 + (c.toNat - 48) ≤ 255
      omega

/-- Octets are made of digits, and so do not contain the dot. -/
theorem uses_dec_octet : uses Uri.dec_octet Uri.DIGIT := by
  have hrange : ∀ {low high : UInt8}, 0x30 ≤ low → high ≤ 0x39 →
      uses (letter fun b => low ≤ b ∧ b ≤ high) Uri.DIGIT := fun hlow hhigh =>
    uses_letter fun _ h => ⟨UInt8.le_trans hlow h.1, UInt8.le_trans h.2 hhigh⟩
  have hdigit : uses (letter Uri.DIGIT) Uri.DIGIT := uses_letter fun _ h => h
  have hchar : ∀ {c : Char}, Uri.DIGIT c.val.toUInt8 → uses (Uri.char c) Uri.DIGIT := fun hc =>
    uses_letter fun _ h => h ▸ hc
  refine uses_add (uses_add (uses_add (uses_add hdigit ?_) ?_) ?_) ?_
  · exact uses_mul (hrange (by decide) (by decide)) hdigit
  · exact uses_mul (uses_mul (hchar (by decide)) hdigit) hdigit
  · exact uses_mul (uses_mul (hchar (by decide)) (hrange (by decide) (by decide))) hdigit
  · exact uses_mul (uses_mul (hchar (by decide)) (hchar (by decide)))
      (hrange (by decide) (by decide))

theorem avoids_dec_octet : avoids Uri.dec_octet (ascii '.') :=
  uses_dec_octet.mono fun a h => by
    rintro rfl
    revert h
    decide

/-! ### Four octets

The source splits at the dots, and asks for four pieces each of which is an octet. In the
derivation the octets stand between three dots. Since no octet contains a dot, splitting undoes
the derivation. -/

/-- Four octets with a dot between any two: the product of the grammar's seven factors, taken
apart into the words that the function finds between the dots. -/
theorem mem_IPv4address {s : List UInt8} : s ∈ Uri.IPv4address ↔
    ∃ a ∈ Uri.dec_octet, ∃ b ∈ Uri.dec_octet, ∃ c ∈ Uri.dec_octet, ∃ d ∈ Uri.dec_octet,
      s = a ++ ascii '.' :: (b ++ ascii '.' :: (c ++ ascii '.' :: d)) := by
  unfold Uri.IPv4address
  rw [mul_assoc, mul_assoc, mul_assoc, mul_assoc, mul_assoc]
  constructor
  · rintro ⟨a, ha, _, ⟨_, ⟨_, rfl, rfl⟩, _, ⟨b, hb, _, ⟨_, ⟨_, rfl, rfl⟩, _,
      ⟨c, hc, _, ⟨_, ⟨_, rfl, rfl⟩, d, hd, rfl⟩, rfl⟩, rfl⟩, rfl⟩, rfl⟩, rfl⟩
    exact ⟨a, ha, b, hb, c, hc, d, hd, rfl⟩
  · rintro ⟨a, ha, b, hb, c, hc, d, hd, rfl⟩
    exact ⟨a, ha, _, ⟨[_], ⟨_, rfl, rfl⟩, _, ⟨b, hb, _, ⟨[_], ⟨_, rfl, rfl⟩, _,
      ⟨c, hc, _, ⟨[_], ⟨_, rfl, rfl⟩, d, hd, rfl⟩, rfl⟩, rfl⟩, rfl⟩, rfl⟩, rfl⟩

/-- The pieces between the dots are the octets of the derivation, since no octet contains a dot.
-/
theorem ipv4_address_iff {s : List UInt8} :
    ipv4_address s = true ↔ s ∈ Uri.IPv4address := by
  simp only [ipv4_address, Bool.and_eq_true, decide_eq_true_eq, List.all_eq_true, ipv4_octet_iff]
  rw [mem_IPv4address]
  constructor
  · rintro ⟨hlength, hall⟩
    match hsplit : s.splitOn (ascii '.'), hlength with
    | [a, b, c, d], _ =>
        rw [hsplit] at hall
        simp only [List.forall_mem_cons] at hall
        obtain ⟨ha, hb, hc, hd, -⟩ := hall
        refine ⟨a, ha, b, hb, c, hc, d, hd, ?_⟩
        have hended : s = ended (ascii '.') [a, b, c] ++ d := eq_ended_of_splitOn hsplit
        simpa using hended
  · rintro ⟨a, ha, b, hb, c, hc, d, hd, rfl⟩
    rw [List.splitOn_append_cons_self_of_not_mem (avoids_dec_octet.not_mem ha),
      List.splitOn_append_cons_self_of_not_mem (avoids_dec_octet.not_mem hb),
      List.splitOn_append_cons_self_of_not_mem (avoids_dec_octet.not_mem hc),
      List.splitOn_eq_singleton (avoids_dec_octet.not_mem hd)]
    refine ⟨rfl, ?_⟩
    simp only [List.forall_mem_cons]
    exact ⟨ha, hb, hc, hd, nofun⟩

/-! ## Groups

The parts of an IPv6 address are pieces between colons. `count_groups` counts a piece of digits
as one group and an IPv4 address, which may only be the last, as two. Its result is compared
with the number of groups of the derivation, for the part before the compression and for the one
behind it.

Before the compression, or without one up to the last piece, only groups may stand; the flag
`tail` says whether the part ends the address. A word of `h16` contains no dot and an IPv4
address contains three, so the test for the dot decides as the derivation does. -/

/-- A group is one to four hexadecimal digits; the rule writes the repetition out, and here it
is a bound on the length. -/
theorem mem_h16 {s : List UInt8} : s ∈ Uri.h16 ↔
    s ≠ [] ∧ s.length ≤ 4 ∧ ∀ ch ∈ s, hex ch = true := by
  simp only [hex_iff]
  constructor
  · rintro ⟨_, ⟨ch, hch, rfl⟩, rest, ⟨k, hk, hrest⟩, rfl⟩
    obtain ⟨hlength, hall⟩ := mem_pow_letter.mp hrest
    refine ⟨List.cons_ne_nil ch rest, ?_, ?_⟩
    · change rest.length + 1 ≤ 4
      omega
    · change ∀ b ∈ ch :: rest, Uri.HEXDIG b
      rw [List.forall_mem_cons]
      exact ⟨hch, hall⟩
  · rintro ⟨hne, hlength, hall⟩
    cases s with
    | nil => exact absurd rfl hne
    | cons ch rest =>
        rw [List.forall_mem_cons] at hall
        rw [List.length_cons] at hlength
        exact ⟨[ch], ⟨ch, hall.1, rfl⟩, rest,
          ⟨rest.length, by omega, mem_pow_letter.mpr ⟨rfl, hall.2⟩⟩, rfl⟩

theorem h16_ne_nil {s : List UInt8} (h : s ∈ Uri.h16) : s ≠ [] := (mem_h16.mp h).1

/-- A group does not contain anything but hexadecimal digits. -/
theorem avoids_h16 {c : UInt8} (hc : hex c = false) : avoids Uri.h16 c := by
  intro s hs ch hch heq
  have hhex := (mem_h16.mp hs).2.2 ch hch
  rw [heq, hc] at hhex
  cases hhex

/-- An IPv4 address contains a dot, which is how it is told from a group. -/
theorem dot_mem_IPv4address {s : List UInt8} (h : s ∈ Uri.IPv4address) : ascii '.' ∈ s := by
  obtain ⟨a, -, b, -, c, -, d, -, rfl⟩ := mem_IPv4address.mp h
  exact List.mem_append_right a (List.mem_cons_self ..)

/-- The characters of an IPv4 address. -/
theorem uses_IPv4address {p : UInt8 → Prop} (hdigit : ∀ ch, Uri.DIGIT ch → p ch)
    (hdot : p (ascii '.')) : uses Uri.IPv4address p := by
  have hoctet : uses Uri.dec_octet p := uses_dec_octet.mono hdigit
  exact uses_mul (uses_mul (uses_mul (uses_mul (uses_mul (uses_mul hoctet (uses_char hdot))
    hoctet) (uses_char hdot)) hoctet) (uses_char hdot)) hoctet

/-- What `count_groups` takes a piece for: a group is counted as one, an address of four octets
as two if it is the last piece of the end, and anything else is refused. -/
theorem count_groups_cons (tail : Bool) (group : List UInt8) (rest : List (List UInt8))
    (groups : Nat) :
    (group ∈ Uri.h16 → count_groups tail (group :: rest) groups =
      count_groups tail rest (groups + 1)) ∧
    (group ∈ Uri.IPv4address → count_groups tail (group :: rest) groups =
      if tail && rest.isEmpty then some (groups + 2) else none) ∧
    (group ∉ Uri.h16 → group ∉ Uri.IPv4address →
      count_groups tail (group :: rest) groups = none) := by
  have hgroup : (group.length ≤ 4 ∧ group.all hex = true) ∧ group ≠ [] ↔ group ∈ Uri.h16 := by
    rw [mem_h16, List.all_eq_true]
    tauto
  rw [count_groups]
  -- a dot tells the two apart: a group has none, an address has three
  refine ⟨fun h => ?_, fun h => ?_, fun hh16 hipv4 => ?_⟩
  · have hdot : group.contains (ascii '.') = false := by
      rw [← Bool.not_eq_true, List.contains_iff_mem]
      exact (avoids_h16 (by decide)).not_mem h
    obtain ⟨⟨hlength, hall⟩, hne⟩ := hgroup.mpr h
    rw [if_neg (by simpa using hne), hdot, if_neg Bool.false_ne_true,
      if_pos (by simp [hlength, hall])]
  · have hdot := dot_mem_IPv4address h
    rw [if_neg (by simpa using List.ne_nil_of_mem hdot),
      if_pos (List.contains_iff_mem.mpr hdot), ipv4_address_iff.mpr h, Bool.and_true]
  · by_cases hempty : group.isEmpty = true
    · rw [if_pos hempty]
    · rw [if_neg hempty]
      have hipv4' : ipv4_address group = false := by
        rw [← Bool.not_eq_true, ipv4_address_iff]
        exact hipv4
      rw [hipv4', Bool.and_false, if_neg Bool.false_ne_true]
      by_cases hdot : group.contains (ascii '.') = true
      · rw [if_pos hdot]
      · rw [if_neg hdot, if_neg]
        intro h
        rw [Bool.and_eq_true, decide_eq_true_eq] at h
        exact hh16 (hgroup.mp ⟨h, by simpa using hempty⟩)

/-- Nothing is both a group and an IPv4 address. -/
theorem h16_not_IPv4address {s : List UInt8} (h : s ∈ Uri.h16) : s ∉ Uri.IPv4address :=
  fun h' => (avoids_h16 (by decide)).not_mem h (dot_mem_IPv4address h')

/-- In the part before the compression: groups of digits only. -/
theorem count_groups_before {pieces : List (List UInt8)} {groups n : Nat} :
    count_groups false pieces groups = some n ↔
      (∀ piece ∈ pieces, piece ∈ Uri.h16) ∧ n = groups + pieces.length := by
  induction pieces generalizing groups with
  | nil =>
      rw [count_groups, Option.some.injEq]
      exact ⟨fun h => ⟨nofun, h.symm⟩, fun h => h.2.symm⟩
  | cons piece rest ih =>
      obtain ⟨hh16, hipv4, hnone⟩ := count_groups_cons false piece rest groups
      rw [List.forall_mem_cons, List.length_cons]
      by_cases hpiece : piece ∈ Uri.h16
      · rw [hh16 hpiece, ih]
        constructor
        · rintro ⟨hall, rfl⟩
          exact ⟨⟨hpiece, hall⟩, by omega⟩
        · rintro ⟨⟨-, hall⟩, rfl⟩
          exact ⟨hall, by omega⟩
      · refine ⟨fun h => ?_, fun h => absurd h.1.1 hpiece⟩
        by_cases hpiece' : piece ∈ Uri.IPv4address
        · rw [hipv4 hpiece'] at h
          cases h
        · rw [hnone hpiece hpiece'] at h
          cases h

/-- In the part that ends the address the last piece may be an IPv4 address. -/
theorem count_groups_after {pieces : List (List UInt8)} {groups n : Nat} :
    count_groups true pieces groups = some n ↔
      ((∀ piece ∈ pieces, piece ∈ Uri.h16) ∧ n = groups + pieces.length) ∨
      ∃ init last, pieces = init ++ [last] ∧ (∀ piece ∈ init, piece ∈ Uri.h16) ∧
        last ∈ Uri.IPv4address ∧ n = groups + init.length + 2 := by
  induction pieces generalizing groups with
  | nil =>
      rw [count_groups, Option.some.injEq]
      constructor
      · exact fun h => .inl ⟨nofun, h.symm⟩
      · rintro (h | ⟨init, last, h, -⟩)
        · exact h.2.symm
        · simp at h
  | cons piece rest ih =>
      obtain ⟨hh16, hipv4, hnone⟩ := count_groups_cons true piece rest groups
      rw [List.forall_mem_cons, List.length_cons]
      -- a piece is a group, or an IPv4 address, or the count fails; the first two exclude each
      -- other
      by_cases hpiece : piece ∈ Uri.h16
      · rw [hh16 hpiece, ih]
        constructor
        · rintro (⟨hall, rfl⟩ | ⟨init, last, rfl, hall, hlast, rfl⟩)
          · exact .inl ⟨⟨hpiece, hall⟩, by omega⟩
          · refine .inr ⟨piece :: init, last, rfl, ?_, hlast, ?_⟩
            · rw [List.forall_mem_cons]
              exact ⟨hpiece, hall⟩
            · rw [List.length_cons]
              omega
        · rintro (⟨⟨-, hall⟩, rfl⟩ | ⟨init, last, hpieces, hall, hlast, rfl⟩)
          · exact .inl ⟨hall, by omega⟩
          · cases init with
            | nil =>
                cases hpieces
                exact absurd hlast (h16_not_IPv4address hpiece)
            | cons first init =>
                cases hpieces
                rw [List.forall_mem_cons] at hall
                refine .inr ⟨init, last, rfl, hall.2, hlast, ?_⟩
                rw [List.length_cons]
                omega
      · by_cases hpiece' : piece ∈ Uri.IPv4address
        · rw [hipv4 hpiece', Bool.true_and]
          -- an address counts only if no piece follows
          cases rest with
          | nil =>
              rw [List.isEmpty_nil, if_pos rfl, Option.some.injEq]
              constructor
              · rintro rfl
                exact .inr ⟨[], piece, rfl, nofun, hpiece', rfl⟩
              · rintro (⟨⟨h, -⟩, -⟩ | ⟨init, last, hpieces, -, -, rfl⟩)
                · exact absurd h hpiece
                · cases init with
                  | nil => rfl
                  | cons first init => simp at hpieces
          | cons second rest =>
              refine ⟨fun h => (by cases h), ?_⟩
              rintro (⟨⟨h, -⟩, -⟩ | ⟨init, last, hpieces, hall, -, -⟩)
              · exact absurd h hpiece
              · cases init with
                | nil => simp at hpieces
                | cons first init =>
                    obtain ⟨rfl, -⟩ := List.cons.inj hpieces
                    exact absurd (hall _ (List.mem_cons_self ..)) hpiece
        · rw [hnone hpiece hpiece']
          refine ⟨fun h => (by cases h), ?_⟩
          rintro (⟨⟨h, -⟩, -⟩ | ⟨init, last, hpieces, hall, hlast, -⟩)
          · exact absurd h hpiece
          · cases init with
            | nil =>
                cases hpieces
                exact absurd hlast hpiece'
            | cons first init =>
                obtain ⟨rfl, -⟩ := List.cons.inj hpieces
                exact absurd (hall _ (List.mem_cons_self ..)) hpiece

/-! ## IPv6

The grammar has nine alternatives, which differ in how many groups stand before and behind the
compression. They are brought to two: eight groups without a compression, or up to seven in all
with one. In this form the address is what the source sees after it has cut it at the
compression.

The nine alternatives write out how many groups may precede the compression for each number
behind it. Their common form is that the groups on both sides are seven at most, where an IPv4
address counts for two. For the sum only the totals of both counts matter, which is what the
source compares. -/

/-- What may end an address with `k` groups; an IPv4 address stands for two. -/
def groups_after : Nat → Language UInt8
  | 0 => 1
  | 1 => Uri.h16
  | k + 2 => (Uri.h16 * Uri.char ':') ^ k * Uri.ls32

/-- What may stand before the compression, up to `n` groups. -/
def groups_before : Nat → Language UInt8
  | 0 => 1
  | n + 1 => Uri.leading n

theorem leading_zero : Uri.leading 0 = opt Uri.h16 := by
  have hupto : upto 0 (Uri.h16 * Uri.char ':') = 1 := by
    apply Language.ext
    intro s
    rw [mem_upto]
    constructor
    · rintro ⟨k, hk, hs⟩
      obtain rfl : k = 0 := by omega
      exact hs
    · exact fun hs => ⟨0, Nat.le_refl 0, hs⟩
  rw [Uri.leading, hupto, one_mul]

/-- The nine alternatives: one without the compression, and one for each number of groups
after it. -/
theorem IPv6address_eq : Uri.IPv6address = groups_after 8 +
    groups_before 0 * (Uri.compression * groups_after 7) +
    groups_before 1 * (Uri.compression * groups_after 6) +
    groups_before 2 * (Uri.compression * groups_after 5) +
    groups_before 3 * (Uri.compression * groups_after 4) +
    groups_before 4 * (Uri.compression * groups_after 3) +
    groups_before 5 * (Uri.compression * groups_after 2) +
    groups_before 6 * (Uri.compression * groups_after 1) +
    groups_before 7 * (Uri.compression * groups_after 0) := by
  simp only [Uri.IPv6address, groups_before, groups_after, leading_zero, pow_zero, pow_one,
    one_mul, mul_one, mul_assoc]

/-- Either there are groups worth eight, or a compression with at most that many before it that
the ones behind leave room for. -/
theorem mem_IPv6address {s : List UInt8} : s ∈ Uri.IPv6address ↔
    s ∈ groups_after 8 ∨ ∃ n k, n + k = 7 ∧
      s ∈ groups_before n * (Uri.compression * groups_after k) := by
  rw [IPv6address_eq]
  constructor
  · rintro ((((((((h | h) | h) | h) | h) | h) | h) | h) | h)
    · exact .inl h
    all_goals exact .inr ⟨_, _, rfl, h⟩
  · rintro (h | ⟨n, k, hnk, h⟩)
    · exact .inl (.inl (.inl (.inl (.inl (.inl (.inl (.inl h)))))))
    · obtain rfl : k = 7 - n := by omega
      have hn : n ≤ 7 := by omega
      interval_cases n
      · exact .inl (.inl (.inl (.inl (.inl (.inl (.inl (.inr h)))))))
      · exact .inl (.inl (.inl (.inl (.inl (.inl (.inr h))))))
      · exact .inl (.inl (.inl (.inl (.inl (.inr h)))))
      · exact .inl (.inl (.inl (.inl (.inr h))))
      · exact .inl (.inl (.inl (.inr h)))
      · exact .inl (.inl (.inr h))
      · exact .inl (.inr h)
      · exact .inr h

/-! ### The pieces of both parts

A part is empty or is cut at its colons into pieces. A part that ends an address may end with an
IPv4 address; a part before the compression may not. For each the pieces are taken to the
derivation and back, and the count to the number of groups. -/

theorem avoids_h16_colon : avoids Uri.h16 (ascii ':') := avoids_h16 (by decide)

theorem avoids_IPv4address_colon : avoids Uri.IPv4address (ascii ':') := by
  refine uses_IPv4address (fun ch hch => ?_) (by decide)
  rintro rfl
  revert hch
  decide

theorem ipv6_pieces_of_ne_nil {part : List UInt8} (h : part ≠ []) :
    ipv6_pieces part = part.splitOn (ascii ':') := by
  rw [ipv6_pieces, if_neg (by simpa using h)]

/-- Only an empty part has no pieces. -/
theorem ipv6_pieces_eq_nil {part : List UInt8} : ipv6_pieces part = [] ↔ part = [] := by
  by_cases hpart : part = []
  · subst hpart
    exact ⟨fun _ => rfl, fun _ => rfl⟩
  · rw [ipv6_pieces_of_ne_nil hpart]
    exact ⟨fun h => absurd h (List.splitOn_ne_nil _ _), fun h => absurd h hpart⟩

/-- A part from its pieces. -/
theorem part_of_pieces {part last : List UInt8} {words : List (List UInt8)}
    (h : ipv6_pieces part = words ++ [last]) : part = ended (ascii ':') words ++ last := by
  have hne : part ≠ [] := by
    rintro rfl
    simp [ipv6_pieces] at h
  rw [ipv6_pieces_of_ne_nil hne] at h
  exact eq_ended_of_splitOn h

/-- The pieces of a part, from the words it is made of. -/
theorem pieces_of_part {last : List UInt8} {words : List (List UInt8)}
    (hwords : ∀ word ∈ words, word ∈ Uri.h16) (hlast : ascii ':' ∉ last) (hne : last ≠ []) :
    ipv6_pieces (ended (ascii ':') words ++ last) = words ++ [last] := by
  rw [ipv6_pieces_of_ne_nil (List.append_ne_nil_of_right_ne_nil _ hne),
    splitOn_ended (fun word hword => avoids_h16_colon.not_mem (hwords word hword)),
    List.splitOn_eq_singleton hlast]

/-- The words of groups, with the last apart. -/
theorem mem_groups {k : Nat} {L : Language UInt8} {s : List UInt8} :
    s ∈ (Uri.h16 * Uri.char ':') ^ k * L ↔ ∃ words : List (List UInt8), words.length = k ∧
      (∀ word ∈ words, word ∈ Uri.h16) ∧ ∃ last ∈ L, s = ended (ascii ':') words ++ last := by
  rw [Language.mem_mul]
  constructor
  · rintro ⟨_, hwords, last, hlast, rfl⟩
    obtain ⟨words, hlength, hall, rfl⟩ := mem_pow_ended.mp hwords
    exact ⟨words, hlength, hall, last, hlast, rfl⟩
  · rintro ⟨words, hlength, hall, last, hlast, rfl⟩
    exact ⟨_, mem_pow_ended.mpr ⟨words, hlength, hall, rfl⟩, last, hlast, rfl⟩

/-- The last 32 bits are two groups or an IPv4 address. -/
theorem mem_ls32 {s : List UInt8} : s ∈ Uri.ls32 ↔
    (∃ high ∈ Uri.h16, ∃ low ∈ Uri.h16, s = high ++ ascii ':' :: low) ∨ s ∈ Uri.IPv4address := by
  unfold Uri.ls32
  rw [mul_assoc]
  exact or_congr mem_mul_cons Iff.rfl

/-- Groups and no more, up to `n` of them: what stands before a double colon. The rule ends it
with a group that has no colon behind it, the function counts the pieces. -/
theorem groups_before_iff {n : Nat} {s : List UInt8} : s ∈ groups_before n ↔
    ∃ j ≤ n, count_groups false (ipv6_pieces s) 0 = some j := by
  have hnil : ∃ j ≤ n, count_groups false (ipv6_pieces []) 0 = some j := ⟨0, Nat.zero_le n, rfl⟩
  constructor
  · intro h
    cases n with
    | zero =>
        rw [(Language.mem_one s).mp h]
        exact hnil
    | succ n =>
        rcases h with h | ⟨_, ⟨k, hk, hwords⟩, last, hlast, rfl⟩
        · rw [(Language.mem_one s).mp h]
          exact hnil
        · obtain ⟨words, rfl, hall, rfl⟩ := mem_pow_ended.mp hwords
          refine ⟨words.length + 1, by omega, count_groups_before.mpr ?_⟩
          have hpieces := pieces_of_part hall (avoids_h16_colon.not_mem hlast) (h16_ne_nil hlast)
          change (∀ piece ∈ ipv6_pieces (ended (ascii ':') words ++ last), _) ∧
            _ = 0 + (ipv6_pieces (ended (ascii ':') words ++ last)).length
          rw [hpieces, List.forall_mem_append, List.forall_mem_singleton]
          exact ⟨⟨hall, hlast⟩, by simp⟩
  · rintro ⟨j, hj, hcount⟩
    obtain ⟨hall, hlength⟩ := count_groups_before.mp hcount
    -- the last group is the one without a separator behind it
    rcases List.eq_nil_or_concat' (ipv6_pieces s) with hnone | ⟨words, last, hpieces⟩
    · rw [ipv6_pieces_eq_nil.mp hnone]
      cases n with
      | zero => exact rfl
      | succ n => exact .inl rfl
    · rw [hpieces, List.forall_mem_append, List.forall_mem_singleton] at hall
      rw [hpieces, List.length_append, List.length_singleton] at hlength
      rw [part_of_pieces hpieces]
      cases n with
      | zero => omega
      | succ n =>
          exact .inr ⟨_, ⟨words.length, by omega, mem_pow_ended.mpr ⟨words, rfl, hall.1, rfl⟩⟩,
            last, hall.2, rfl⟩

/-- Groups to the end of the address, `k` of them after those counted before. -/
theorem groups_after_iff {k groups : Nat} {s : List UInt8} : s ∈ groups_after k ↔
    count_groups true (ipv6_pieces s) groups = some (groups + k) := by
  rw [count_groups_after]
  constructor
  · intro h
    match k with
    | 0 =>
        rw [(Language.mem_one s).mp h]
        exact .inl ⟨nofun, rfl⟩
    | 1 =>
        have hpieces : ipv6_pieces s = [s] :=
          @pieces_of_part s [] nofun (avoids_h16_colon.not_mem h) (h16_ne_nil h)
        rw [hpieces]
        exact .inl ⟨List.forall_mem_singleton.mpr h, rfl⟩
    | k + 2 =>
        obtain ⟨words, hlength, hall, last, hlast, rfl⟩ := mem_groups.mp h
        rcases mem_ls32.mp hlast with ⟨high, hhigh, low, hlow, rfl⟩ | hipv4
        · -- the last two groups are one more word and the last piece
          have hended : ended (ascii ':') words ++ (high ++ ascii ':' :: low) =
              ended (ascii ':') (words ++ [high]) ++ low := by
            simp [ended]
          have hall' : ∀ word ∈ words ++ [high], word ∈ Uri.h16 := by
            rw [List.forall_mem_append, List.forall_mem_singleton]
            exact ⟨hall, hhigh⟩
          rw [hended, pieces_of_part hall' (avoids_h16_colon.not_mem hlow) (h16_ne_nil hlow)]
          refine .inl ⟨?_, ?_⟩
          · rw [List.forall_mem_append, List.forall_mem_singleton]
            exact ⟨hall', hlow⟩
          · simp [hlength]
        · rw [pieces_of_part hall (avoids_IPv4address_colon.not_mem hipv4)
            (List.ne_nil_of_mem (dot_mem_IPv4address hipv4))]
          exact .inr ⟨words, last, rfl, hall, hipv4, by omega⟩
  · rintro (⟨hall, hlength⟩ | ⟨words, last, hpieces, hall, hlast, hlength⟩)
    -- back from the pieces: none, or words and a last piece
    · rcases List.eq_nil_or_concat' (ipv6_pieces s) with hnone | ⟨words, last, hpieces⟩
      · rw [hnone, List.length_nil] at hlength
        obtain rfl : k = 0 := by omega
        rw [ipv6_pieces_eq_nil.mp hnone]
        rfl
      · rw [hpieces, List.forall_mem_append, List.forall_mem_singleton] at hall
        rw [hpieces, List.length_append, List.length_singleton] at hlength
        obtain rfl : k = words.length + 1 := by omega
        rw [part_of_pieces hpieces]
        rcases List.eq_nil_or_concat' words with rfl | ⟨init, high, rfl⟩
        · exact hall.2
        · rw [List.forall_mem_append, List.forall_mem_singleton] at hall
          rw [List.length_append, List.length_singleton]
          refine mem_groups.mpr ⟨init, rfl, hall.1.1, high ++ ascii ':' :: last,
            mem_ls32.mpr (.inl ⟨high, hall.1.2, last, hall.2, rfl⟩), ?_⟩
          simp [ended]
    · obtain rfl : k = words.length + 2 := by omega
      rw [part_of_pieces hpieces]
      exact mem_groups.mpr ⟨words, rfl, hall, last, mem_ls32.mpr (.inr hlast), rfl⟩

/-! ### The compression

Two colons side by side can only be the compression: between groups there is one, and no group
begins with one. So where the source cuts the address is where the derivation has its
compression, and there is at most one.

The source takes the first pair of colons. With three in a row it would leave a part that begins
with a colon, and such a part has an empty piece, which is no group; so an address like that is
refused, as it has no derivation either. -/

/-- A word without a colon cannot contain the compression, so the cut is behind it. -/
theorem cut_compression_append {p : List UInt8} (hp : ascii ':' ∉ p) (rest : List UInt8) :
    cut_compression (p ++ rest) =
      (cut_compression rest).map fun cut => (p ++ cut.1, cut.2) := by
  induction p with
  | nil => exact Option.map_id'.symm ▸ rfl
  | cons ch p ih =>
      have hch : ch ≠ ascii ':' := fun h => hp (List.mem_cons.mpr (.inl h.symm))
      have htail := ih fun h => hp (List.mem_cons_of_mem ch h)
      rw [List.cons_append]
      cases hcons : p ++ rest with
      | nil =>
          obtain ⟨-, rfl⟩ := List.append_eq_nil_iff.mp hcons
          rfl
      | cons next tail =>
          rw [cut_compression, if_neg (fun h => hch h.1), ← hcons, htail, Option.map_map]
          rfl

/-- A colon that no other follows is not the compression. -/
theorem cut_compression_colon {rest : List UInt8} (h : rest.head? ≠ some (ascii ':')) :
    cut_compression (ascii ':' :: rest) =
      (cut_compression rest).map fun cut => (ascii ':' :: cut.1, cut.2) := by
  cases rest with
  | nil => rfl
  | cons next tail =>
      rw [cut_compression, if_neg]
      rintro ⟨-, rfl⟩
      exact h rfl

/-- A word that is not empty and contains no colon does not begin with one. -/
theorem head_of_avoids {p : List UInt8} (hne : p ≠ []) (hp : ascii ':' ∉ p) (rest : List UInt8) :
    (p ++ rest).head? ≠ some (ascii ':') := by
  cases p with
  | nil => exact absurd rfl hne
  | cons ch p =>
      intro h
      cases h
      exact hp (List.mem_cons_self ..)

/-- There is no compression between groups that each end in one colon, so the search for it
passes over them. -/
theorem cut_compression_ended {words : List (List UInt8)} (hwords : ∀ word ∈ words, word ∈ Uri.h16)
    {t : List UInt8} (ht : t.head? ≠ some (ascii ':')) :
    cut_compression (ended (ascii ':') words ++ t) =
      (cut_compression t).map fun cut => (ended (ascii ':') words ++ cut.1, cut.2) := by
  induction words with
  | nil => exact Option.map_id'.symm ▸ rfl
  | cons word words ih =>
      rw [List.forall_mem_cons] at hwords
      have hhead : (ended (ascii ':') words ++ t).head? ≠ some (ascii ':') := by
        cases words with
        | nil => exact ht
        | cons next words =>
            have hnext := hwords.2 next (List.mem_cons_self ..)
            rw [ended_cons, List.append_assoc]
            exact head_of_avoids (h16_ne_nil hnext) (avoids_h16_colon.not_mem hnext) _
      rw [ended_cons, List.append_assoc, List.cons_append,
        cut_compression_append (avoids_h16_colon.not_mem hwords.1), cut_compression_colon hhead,
        ih hwords.2, Option.map_map, Option.map_map]
      refine Option.map_congr fun cut _ => ?_
      simp

/-- A part is empty, or groups and a last piece. -/
def part_shape (s : List UInt8) : Prop :=
  s = [] ∨ ∃ words last, (∀ word ∈ words, word ∈ Uri.h16) ∧ ascii ':' ∉ last ∧ last ≠ [] ∧
    s = ended (ascii ':') words ++ last

/-- Pieces that are groups, with a group or an IPv4 address at the end, make a part. -/
theorem part_shape_of_pieces {s : List UInt8} {init : List (List UInt8)} {last : List UInt8}
    (hpieces : ipv6_pieces s = init ++ [last]) (hinit : ∀ word ∈ init, word ∈ Uri.h16)
    (hlast : last ∈ Uri.h16 ∨ last ∈ Uri.IPv4address) : part_shape s := by
  refine .inr ⟨init, last, hinit, ?_, ?_, part_of_pieces hpieces⟩
  · exact hlast.elim avoids_h16_colon.not_mem avoids_IPv4address_colon.not_mem
  · exact hlast.elim h16_ne_nil fun h => List.ne_nil_of_mem (dot_mem_IPv4address h)

theorem part_shape_of_h16 {s : List UInt8} (h : ∀ piece ∈ ipv6_pieces s, piece ∈ Uri.h16) :
    part_shape s := by
  rcases List.eq_nil_or_concat' (ipv6_pieces s) with hnone | ⟨words, last, hpieces⟩
  · exact .inl (ipv6_pieces_eq_nil.mp hnone)
  · rw [hpieces, List.forall_mem_append, List.forall_mem_singleton] at h
    exact part_shape_of_pieces hpieces h.1 (.inl h.2)

/-- What may stand before the compression is a part. -/
theorem groups_before_shape {n : Nat} {s : List UInt8} (h : s ∈ groups_before n) :
    part_shape s := by
  obtain ⟨j, -, hcount⟩ := groups_before_iff.mp h
  exact part_shape_of_h16 (count_groups_before.mp hcount).1

/-- What may end an address is a part. -/
theorem groups_after_shape {k : Nat} {s : List UInt8} (h : s ∈ groups_after k) :
    part_shape s := by
  have hcount : count_groups true (ipv6_pieces s) 0 = some (0 + k) := groups_after_iff.mp h
  rcases count_groups_after.mp hcount with ⟨hall, -⟩ | ⟨init, last, hpieces, hinit, hlast, -⟩
  · exact part_shape_of_h16 hall
  · exact part_shape_of_pieces hpieces hinit (.inr hlast)

/-- A part of an address contains no compression, so a cut finds the one that stands between two
parts. -/
theorem part_shape.no_compression {s : List UInt8} (h : part_shape s) :
    cut_compression s = none := by
  rcases h with rfl | ⟨words, last, hwords, hlast, hne, rfl⟩
  · rfl
  · have hnone : cut_compression last = none := by
      have := cut_compression_append hlast []
      rwa [List.append_nil] at this
    rw [cut_compression_ended hwords, hnone]
    · rfl
    · have := head_of_avoids hne hlast []
      rwa [List.append_nil] at this

/-- Behind a part the compression is found at once, whatever follows it. -/
theorem part_shape.compression {s : List UInt8} (h : part_shape s) (after : List UInt8) :
    cut_compression (s ++ ascii ':' :: ascii ':' :: after) = some (s, after) := by
  have hcolons : cut_compression (ascii ':' :: ascii ':' :: after) = some ([], after) :=
    if_pos ⟨rfl, rfl⟩
  rcases h with rfl | ⟨words, last, hwords, hlast, hne, rfl⟩
  · exact hcolons
  · rw [List.append_assoc, cut_compression_ended hwords (head_of_avoids hne hlast _),
      cut_compression_append hlast, hcolons]
    simp

/-- The cut gives the address back, with the two colons in between. -/
theorem eq_of_cut_compression {s before after : List UInt8}
    (h : cut_compression s = some (before, after)) :
    s = before ++ ascii ':' :: ascii ':' :: after := by
  fun_induction cut_compression s generalizing before with
  | case1 | case2 => cases h
  | case3 ch next rest hcolons =>
      cases h
      obtain ⟨rfl, rfl⟩ := hcolons
      rfl
  | case4 ch next rest hcolons ih =>
      obtain ⟨⟨before', after'⟩, hcut, heq⟩ := Option.map_eq_some_iff.mp h
      cases heq
      rw [ih hcut]
      rfl

/-- An address with a compression is its two parts and the two colons. -/
theorem mem_compressed {n k : Nat} {s : List UInt8} :
    s ∈ groups_before n * (Uri.compression * groups_after k) ↔
      ∃ before ∈ groups_before n, ∃ after ∈ groups_after k,
        s = before ++ ascii ':' :: ascii ':' :: after := by
  constructor
  · rintro ⟨before, hbefore, _, ⟨_, ⟨_, ⟨_, rfl, rfl⟩, _, ⟨_, rfl, rfl⟩, rfl⟩, after, hafter, rfl⟩,
      rfl⟩
    exact ⟨before, hbefore, after, hafter, rfl⟩
  · rintro ⟨before, hbefore, after, hafter, rfl⟩
    exact ⟨before, hbefore, _, ⟨[_, _], ⟨[_], ⟨_, rfl, rfl⟩, [_], ⟨_, rfl, rfl⟩, rfl⟩, after,
      hafter, rfl⟩, rfl⟩

/-- The function cuts at the compression and counts the groups of both parts; the derivation has
the same parts, and its alternatives say which counts there may be. -/
theorem ipv6_address_iff {s : List UInt8} : ipv6_address s = true ↔ s ∈ Uri.IPv6address := by
  rw [mem_IPv6address]
  unfold ipv6_address
  cases hcut : cut_compression s with
  | none =>
      dsimp only
      rw [beq_iff_eq]
      have hall : s ∈ groups_after 8 ↔ count_groups true (ipv6_pieces s) 0 = some 8 :=
        groups_after_iff
      rw [← hall]
      refine ⟨.inl, ?_⟩
      rintro (h | ⟨n, k, -, h⟩)
      · exact h
      · obtain ⟨before, hbefore, after, -, rfl⟩ := mem_compressed.mp h
        -- with a compression the address would have been cut there
        rw [(groups_before_shape hbefore).compression after] at hcut
        cases hcut
  | some cut =>
      obtain ⟨before, after⟩ := cut
      dsimp only
      constructor
      · intro h
        rw [Bool.and_eq_true] at h
        obtain ⟨-, h⟩ := h
        right
        cases hbefore : count_groups false (ipv6_pieces before) 0 with
        | none =>
            rw [hbefore] at h
            cases h
        | some groups =>
            rw [hbefore] at h
            dsimp only at h
            cases hafter : count_groups true (ipv6_pieces after) groups with
            | none =>
                rw [hafter] at h
                cases h
            | some total =>
                rw [hafter, Option.any_some, decide_eq_true_eq] at h
                have hle : groups ≤ total := by
                  rcases count_groups_after.mp hafter with ⟨-, hn⟩ | ⟨_, _, -, -, -, hn⟩ <;> omega
                obtain ⟨k, rfl⟩ := Nat.exists_eq_add_of_le hle
                -- the total is at most seven, and what is behind the compression is its share of
                -- it
                refine ⟨7 - k, k, by omega, mem_compressed.mpr ⟨before, ?_, after, ?_,
                  eq_of_cut_compression hcut⟩⟩
                · exact groups_before_iff.mpr ⟨groups, by omega, hbefore⟩
                · exact groups_after_iff.mpr hafter
      · rintro (h | ⟨n, k, hnk, h⟩)
        · rw [(groups_after_shape h).no_compression] at hcut
          cases hcut
        · obtain ⟨before', hbefore, after', hafter, rfl⟩ := mem_compressed.mp h
          -- the cut is the one of the derivation, so the parts are the same
          rw [(groups_before_shape hbefore).compression after'] at hcut
          cases hcut
          obtain ⟨groups, hgroups, hcount⟩ := groups_before_iff.mp hbefore
          rw [(groups_after_shape hafter).no_compression, hcount, Option.isNone_none, Bool.true_and]
          dsimp only
          rw [groups_after_iff.mp hafter, Option.any_some, decide_eq_true_eq]
          omega

/-! ## Hosts

A host is an address in brackets, an IPv4 address or a name. An IPv4 address is also a name, so
the function has only to tell the brackets: a name never contains one, and what stands between
brackets is an IPv6 address or a future form, told by the letter it begins with. The port comes
behind the bracket or the name. -/

/-- The characters of an IPv6 address, in each of its nine forms, are hexadecimal digits, dots
and colons. -/
theorem uses_IPv6address {p : UInt8 → Prop} (hhex : ∀ ch, Uri.HEXDIG ch → p ch)
    (hdot : p (ascii '.')) (hcolon : p (ascii ':')) : uses Uri.IPv6address p := by
  have hh16 : uses Uri.h16 p :=
    uses_mul (uses_letter hhex) (uses_upto (uses_letter hhex) 3)
  have hgroup : uses (Uri.h16 * Uri.char ':') p := uses_mul hh16 (uses_char hcolon)
  have hls32 : uses Uri.ls32 p :=
    uses_add (uses_mul hgroup hh16) (uses_IPv4address (fun ch hch => hhex ch (.inl hch)) hdot)
  have hafter : ∀ k, uses (groups_after k) p := by
    intro k
    match k with
    | 0 => exact uses_one
    | 1 => exact hh16
    | k + 2 => exact uses_mul (uses_pow hgroup k) hls32
  have hbefore : ∀ n, uses (groups_before n) p := by
    intro n
    cases n with
    | zero => exact uses_one
    | succ n => exact uses_opt (uses_mul (uses_upto hgroup n) hh16)
  intro s hs
  rcases mem_IPv6address.mp hs with h | ⟨n, k, -, h⟩
  · exact hafter 8 s h
  · exact uses_mul (hbefore n) (uses_mul (uses_mul (uses_char hcolon) (uses_char hcolon))
      (hafter k)) s h

/-- No IPv6 address begins with the letter of the future form. -/
theorem not_v_IPv6address {ch : UInt8} {rest : List UInt8} (hv : ch = ascii 'v' ∨ ch = ascii 'V') :
    ch :: rest ∉ Uri.IPv6address := by
  have havoids : avoids Uri.IPv6address ch := by
    refine uses_IPv6address (fun a ha => ?_) ?_ ?_
    · rintro rfl
      rcases hv with rfl | rfl
      all_goals
        revert ha
        decide
    all_goals rcases hv with rfl | rfl <;> decide
  exact fun h => havoids.not_mem h (List.mem_cons_self ..)

/-- Without the percent sign a component is a run of characters. -/
theorem component_plain {extra : List Char} {s : List UInt8} (h : ascii '%' ∉ s) :
    component extra s = true ↔
      ∀ ch ∈ s, (unreserved ch || sub_delim ch || extra.any (ascii · == ch)) = true := by
  induction s with
  | nil => exact ⟨fun _ => nofun, fun _ => rfl⟩
  | cons ch rest ih =>
      have hch : ch ≠ ascii '%' := fun heq => h (List.mem_cons.mpr (.inl heq.symm))
      have hrest := ih fun hmem => h (List.mem_cons_of_mem ch hmem)
      rw [component.eq_def]
      dsimp only
      rw [if_neg hch, Bool.and_eq_true, hrest, List.forall_mem_cons]

/-- The characters of `IPvFuture` after the dot are not encoded. -/
theorem future_eq : Uri.unreserved + Uri.sub_delims + Uri.char ':' =
    letter fun ch => (unreserved ch || sub_delim ch || [':'].any (ascii · == ch)) = true := by
  have hcolon : Uri.char ':' = Uri.chars [':'] := by
    rw [chars_cons, chars_nil, add_zero]
  rw [hcolon]
  apply Language.ext
  intro s
  constructor
  · intro h
    have hs : s ∈ allowed [':'] := by
      rcases h with (h | h) | h
      · exact .inl (.inl (.inl h))
      · exact .inl (.inr h)
      · exact .inr h
    rcases mem_allowed.mp hs with hsingle | ⟨high, low, -, -, rfl⟩
    · exact hsingle
    · -- the summands have words of one character only
      rcases h with ((((⟨_, -, h⟩ | ⟨_, -, h⟩) | ⟨_, -, h⟩) | ⟨_, -, h⟩) | ⟨_, -, h⟩)
      all_goals cases h
  · rintro ⟨ch, hch, rfl⟩
    simp only [Bool.or_eq_true, unreserved_iff, sub_delim_iff, any_ascii_iff] at hch
    rcases hch with (h | h) | h
    · exact .inl (.inl h)
    · exact .inl (.inr h)
    · exact .inr ⟨ch, h, rfl⟩

/-- The characters of a future form behind its dot: at least one, and no percent sign. -/
theorem mem_future {s : List UInt8} :
    s ∈ plus (Uri.unreserved + Uri.sub_delims + Uri.char ':') ↔
      s ≠ [] ∧ ascii '%' ∉ s ∧ component [':'] s = true := by
  rw [future_eq, mem_plus_letter]
  constructor
  · rintro ⟨hne, hall⟩
    have hpercent : ascii '%' ∉ s := by
      intro hmem
      have := hall _ hmem
      revert this
      decide
    exact ⟨hne, hpercent, (component_plain hpercent).mpr hall⟩
  · rintro ⟨hne, hpercent, hcomponent⟩
    exact ⟨hne, (component_plain hpercent).mp hcomponent⟩

/-! ### Between the brackets

A future form begins with a `v`, which is no hexadecimal digit, so the first letter decides
which of the two rules is tried. A closing bracket occurs in neither, which is why the first one
ends the address. -/

/-- A future form is the letter, hexadecimal digits, a dot and its characters. -/
theorem mem_IPvFuture {ch : UInt8} {rest : List UInt8} : ch :: rest ∈ Uri.IPvFuture ↔
    (ch = ascii 'v' ∨ ch = ascii 'V') ∧ rest ∈ plus (letter Uri.HEXDIG) *
      (Uri.char '.' * plus (Uri.unreserved + Uri.sub_delims + Uri.char ':')) := by
  unfold Uri.IPvFuture
  rw [mul_assoc, mul_assoc]
  constructor
  · rintro ⟨_, ⟨v, hv, rfl⟩, tail, htail, h⟩
    obtain ⟨rfl, rfl⟩ := List.cons.inj h
    refine ⟨?_, htail⟩
    rcases List.mem_cons.mp hv with rfl | hv
    · exact .inl rfl
    · exact .inr (List.mem_singleton.mp hv)
  · rintro ⟨hv, htail⟩
    refine ⟨[ch], ⟨ch, ?_, rfl⟩, rest, htail, rfl⟩
    rcases hv with rfl | rfl
    · exact List.mem_cons_self ..
    · exact List.mem_cons_of_mem _ (List.mem_singleton_self _)

/-- What stands between the brackets is an IPv6 address or a future form. The first letter tells
which of the two rules is meant, in the function as in the grammar. -/
theorem ip_literal_iff {s : List UInt8} :
    ip_literal s = true ↔ s ∈ Uri.IPv6address + Uri.IPvFuture := by
  cases s with
  | nil =>
      refine ⟨fun h => .inl (ipv6_address_iff.mp h), ?_⟩
      rintro (h | h)
      · exact ipv6_address_iff.mpr h
      · obtain ⟨a, ⟨b, ⟨c, ⟨v, -, rfl⟩, d, -, rfl⟩, e, -, rfl⟩, f, -, h⟩ := h
        cases h
  | cons ch rest =>
      unfold ip_literal
      dsimp only
      -- a `v` decides between the two rules: no IPv6 address begins with one
      by_cases hv : ch = ascii 'v' ∨ ch = ascii 'V'
      · have hfuture : ch :: rest ∈ Uri.IPv6address + Uri.IPvFuture ↔
            rest ∈ plus (letter Uri.HEXDIG) *
              (Uri.char '.' * plus (Uri.unreserved + Uri.sub_delims + Uri.char ':')) := by
          constructor
          · rintro (h | h)
            · exact absurd h (not_v_IPv6address hv)
            · exact (mem_IPvFuture.mp h).2
          · exact fun h => .inr (mem_IPvFuture.mpr ⟨hv, h⟩)
        have hversion : avoids (plus (letter Uri.HEXDIG)) (ascii '.') :=
          uses_plus (uses_letter fun a h => by
            rintro rfl
            revert h
            decide)
        rw [if_pos (by simpa using hv), hfuture]
        rcases cut_cases '.' rest with ⟨hcut, hdot⟩ | ⟨version, tail, hcut, rfl, hdot⟩
        · rw [hcut]
          exact ⟨fun h => (by cases h), fun h => absurd h (not_mem_cut hdot)⟩
        · rw [hcut]
          refine Iff.trans ?_ (mem_cut hversion hdot).symm
          rw [mem_plus_letter, mem_future]
          simp only [Bool.and_eq_true, Bool.not_eq_true', List.all_eq_true, hex_iff,
            ← Bool.not_eq_true, List.contains_iff_mem, List.isEmpty_iff, and_assoc]
          tauto
      · have hnot : ¬(decide (ch = ascii 'v') || decide (ch = ascii 'V')) = true := by
          simpa using hv
        rw [if_neg hnot, ipv6_address_iff]
        refine ⟨.inl, ?_⟩
        rintro (h | h)
        · exact h
        · exact absurd (mem_IPvFuture.mp h).1 hv

/-- The characters that may stand between the brackets of a host; a closing bracket is not among
them. -/
theorem uses_address :
    uses (Uri.IPv6address + Uri.IPvFuture) (fun ch => allowed_letter [':'] ch = true) := by
  have hfuture : uses (Uri.unreserved + Uri.sub_delims + Uri.char ':')
      (fun ch => allowed_letter [':'] ch = true) := by
    rw [future_eq]
    refine uses_letter fun ch hch => ?_
    rw [allowed_letter, hch]
    rfl
  have hv : uses (Uri.chars ['v', 'V']) (fun ch => allowed_letter [':'] ch = true) := by
    rw [chars_cons, chars_cons, chars_nil, add_zero]
    exact uses_add (uses_char (by decide)) (uses_char (by decide))
  exact uses_add (uses_IPv6address (fun _ => hex_allowed) (by decide) (by decide))
    (uses_mul (uses_mul (uses_mul hv (uses_plus (uses_letter fun _ => hex_allowed)))
      (uses_char (by decide))) (uses_plus hfuture))

/-- A port is digits, and may have none. -/
theorem port_iff {s : List UInt8} : s.all digit = true ↔ s ∈ Uri.port := by
  unfold Uri.port
  rw [mem_star_letter, List.all_eq_true]
  simp only [digit_iff]

/-- `[ ":" port ]`: nothing, or a colon and digits, of which there may be none. -/
theorem port_suffix_iff {s : List UInt8} : s ∈ opt (Uri.char ':' * Uri.port) ↔
    s = [] ∨ ∃ port, s = ascii ':' :: port ∧ port.all digit = true := by
  rw [mem_opt]
  apply or_congr Iff.rfl
  constructor
  · rintro ⟨_, ⟨_, rfl, rfl⟩, port, hport, rfl⟩
    exact ⟨port, rfl, port_iff.mpr hport⟩
  · rintro ⟨port, rfl, hport⟩
    exact ⟨[_], ⟨_, rfl, rfl⟩, port, port_iff.mp hport, rfl⟩

/-- Unreserved characters alone are a registered name, which is how an IPv4 address is one. -/
theorem reg_name_of_unreserved {s : List UInt8} (h : ∀ ch ∈ s, unreserved ch = true) :
    s ∈ Uri.reg_name := by
  rw [reg_name_eq, ← component_iff (by decide)]
  have hpercent : ascii '%' ∉ s := by
    intro hmem
    have := h _ hmem
    revert this
    decide
  rw [component_plain hpercent]
  intro ch hch
  rw [h ch hch]
  rfl

/-- An IPv4 address is a name, since digits and dots are unreserved. -/
theorem reg_name_of_IPv4address {s : List UInt8} (h : s ∈ Uri.IPv4address) :
    s ∈ Uri.reg_name := by
  apply reg_name_of_unreserved
  have hover : uses Uri.IPv4address (unreserved · = true) :=
    uses_IPv4address (fun ch hch => hex_unreserved (hex_iff.mpr (.inl hch))) (by decide)
  exact hover s h

/-- An address in brackets with its port, cut at the first closing bracket. -/
theorem mem_IP_literal {s : List UInt8} :
    s ∈ Uri.IP_literal * opt (Uri.char ':' * Uri.port) ↔
    ∃ rest, s = ascii '[' :: rest ∧ rest ∈ (Uri.IPv6address + Uri.IPvFuture) *
      (Uri.char ']' * opt (Uri.char ':' * Uri.port)) := by
  unfold Uri.IP_literal
  rw [mul_assoc, mul_assoc]
  constructor
  · rintro ⟨_, ⟨_, rfl, rfl⟩, rest, hrest, rfl⟩
    exact ⟨rest, rfl, hrest⟩
  · rintro ⟨rest, rfl, hrest⟩
    exact ⟨[_], ⟨_, rfl, rfl⟩, rest, hrest, rfl⟩

/-! ### With the port

A host that is a name and its port are separated by the first colon, as names contain none.
Behind a bracket there is a colon or nothing. A port may be empty, and its digits are not
bounded. -/

/-- A host is an address in brackets or a registered name; IPv4 addresses are among the names.
-/
theorem mem_host {s : List UInt8} : s ∈ Uri.host ↔ s ∈ Uri.IP_literal ∨ s ∈ Uri.reg_name := by
  unfold Uri.host
  constructor
  · rintro ((h | h) | h)
    · exact .inl h
    · exact .inr (reg_name_of_IPv4address h)
    · exact .inr h
  · rintro (h | h)
    · exact .inl (.inl h)
    · exact .inr h

/-- A host with its port is an address in brackets or a name, each with its port. -/
theorem mem_host_port {s : List UInt8} : s ∈ Uri.host * opt (Uri.char ':' * Uri.port) ↔
    s ∈ Uri.IP_literal * opt (Uri.char ':' * Uri.port) ∨
      s ∈ Uri.reg_name * opt (Uri.char ':' * Uri.port) := by
  constructor
  · rintro ⟨host, hhost, port, hport, rfl⟩
    exact (mem_host.mp hhost).imp (⟨host, ·, port, hport, rfl⟩) (⟨host, ·, port, hport, rfl⟩)
  · rintro (⟨host, hhost, port, hport, rfl⟩ | ⟨host, hhost, port, hport, rfl⟩)
    · exact ⟨host, mem_host.mpr (.inl hhost), port, hport, rfl⟩
    · exact ⟨host, mem_host.mpr (.inr hhost), port, hport, rfl⟩

/-- A port uses digits, and the colon in front of them. -/
theorem uses_port {p : UInt8 → Prop} (hdigit : ∀ ch, Uri.DIGIT ch → p ch)
    (hcolon : p (ascii ':')) : uses (opt (Uri.char ':' * Uri.port)) p :=
  uses_opt (uses_mul (uses_char hcolon) (uses_star (uses_letter hdigit)))

theorem uses_reg_name : uses Uri.reg_name (fun ch => allowed_letter [] ch = true) := by
  rw [reg_name_eq]
  exact uses_star (uses_allowed [])

/-- An address in brackets and perhaps a port: the first closing bracket ends the address, since
neither form contains one. -/
theorem bracketed_iff {rest : List UInt8} : host_and_port (ascii '[' :: rest) = true ↔
    rest ∈ (Uri.IPv6address + Uri.IPvFuture) *
      (Uri.char ']' * opt (Uri.char ':' * Uri.port)) := by
  have haddress : avoids (Uri.IPv6address + Uri.IPvFuture) (ascii ']') :=
    avoids_of_uses uses_address (by decide)
  unfold host_and_port
  rw [if_pos (by rfl), List.drop_one, List.tail_cons]
  rcases cut_cases ']' rest with ⟨hcut, hmem⟩ | ⟨address, suffix, hcut, rfl, hmem⟩
  · rw [hcut]
    exact ⟨fun h => (by cases h), fun h => absurd h (not_mem_cut hmem)⟩
  · rw [hcut]
    refine Iff.trans ?_ (mem_cut haddress hmem).symm
    dsimp only
    rw [Bool.and_eq_true, ip_literal_iff, port_suffix_iff]
    apply and_congr Iff.rfl
    cases suffix with
    | nil => exact ⟨fun _ => .inl rfl, fun _ => rfl⟩
    | cons ch port =>
        dsimp only
        rw [Bool.and_eq_true, beq_iff_eq]
        constructor
        · rintro ⟨rfl, hport⟩
          exact .inr ⟨port, rfl, hport⟩
        · rintro (h | ⟨_, ⟨⟩, hport⟩)
          · cases h
          · exact ⟨rfl, hport⟩

/-- A host without brackets is a name, and the first colon begins its port, since no name
contains a colon. -/
theorem named_iff {s : List UInt8} (hbracket : s.head? ≠ some (ascii '[')) :
    host_and_port s = true ↔ s ∈ Uri.reg_name * opt (Uri.char ':' * Uri.port) := by
  have hname : avoids Uri.reg_name (ascii ':') := avoids_of_uses uses_reg_name (by decide)
  have hcomponent : ∀ name, component [] name = true ↔ name ∈ Uri.reg_name := by
    intro name
    rw [reg_name_eq]
    exact component_iff (by decide)
  unfold host_and_port
  rw [if_neg hbracket]
  rcases cut_cases ':' s with ⟨hcut, hmem⟩ | ⟨name, port, hcut, rfl, hmem⟩
  · rw [hcut]
    exact (hcomponent s).trans (mem_opt_after_none hmem).symm
  · rw [hcut]
    refine Iff.trans ?_ (mem_opt_after hname hmem).symm
    dsimp only
    rw [Bool.and_eq_true, hcomponent, port_iff]

/-- The bracket tells the two apart: a name has none. -/
theorem host_and_port_iff {s : List UInt8} :
    host_and_port s = true ↔ s ∈ Uri.host * opt (Uri.char ':' * Uri.port) := by
  rw [mem_host_port, mem_IP_literal]
  by_cases hbracket : s.head? = some (ascii '[')
  · obtain ⟨rest, rfl⟩ : ∃ rest, s = ascii '[' :: rest := by
      cases s with
      | nil => cases hbracket
      | cons ch rest => exact ⟨rest, congrArg (· :: rest) (Option.some.inj hbracket)⟩
    have hname : uses (Uri.reg_name * opt (Uri.char ':' * Uri.port))
        (fun ch => allowed_letter [':'] ch = true) :=
      uses_mul (uses_reg_name.mono (allowed_letter_mono (by simp)))
        (uses_port (fun _ hch => hex_allowed (.inl hch)) (by decide))
    rw [bracketed_iff]
    constructor
    · exact fun h => .inl ⟨rest, rfl, h⟩
    · rintro (⟨_, ⟨⟩, h⟩ | h)
      · exact h
      · exact absurd (List.mem_cons_self ..) ((avoids_of_uses hname (by decide)).not_mem h)
  · rw [named_iff hbracket]
    refine ⟨.inr, ?_⟩
    rintro (⟨rest, rfl, -⟩ | h)
    · exact absurd rfl hbracket
    · exact h

/-! ## The authority

The user information ends at the first `@`, because neither it nor the host contains another.
The host and the port are what remains.

What is left of the brackets and of the port was settled with the host. -/

theorem uses_host_port : uses (Uri.host * opt (Uri.char ':' * Uri.port))
    (fun ch => allowed_letter [':', '[', ']'] ch = true) := by
  have hhost : uses Uri.host (fun ch => allowed_letter [':', '[', ']'] ch = true) := by
    intro s hs
    rcases mem_host.mp hs with h | h
    · exact uses_mul (uses_mul (uses_char (by decide))
        (uses_address.mono (allowed_letter_mono (by simp)))) (uses_char (by decide)) s h
    · exact uses_reg_name.mono (allowed_letter_mono (by simp)) s h
  exact uses_mul hhost (uses_port (fun _ hch => hex_allowed (.inl hch)) (by decide))

/-- The characters of an authority; the slash is not among them, which ends it. -/
theorem uses_authority :
    uses Uri.authority (fun ch => allowed_letter [':', '[', ']', '@'] ch = true) := by
  have huserinfo : uses Uri.userinfo (fun ch => allowed_letter [':', '[', ']', '@'] ch = true) := by
    rw [userinfo_eq]
    exact uses_star ((uses_allowed [':']).mono (allowed_letter_mono (by simp)))
  exact uses_mul (uses_opt (uses_mul huserinfo (uses_char (by decide))))
    (uses_host_port.mono (allowed_letter_mono (by simp)))

/-- The function cuts at the `@` if there is one, and checks both sides as the rule has them. -/
theorem valid_authority_iff {s : List UInt8} :
    valid_authority s = true ↔ s ∈ Uri.authority := by
  have huserinfo : avoids Uri.userinfo (ascii '@') := by
    rw [userinfo_eq]
    exact uses_star (avoids_allowed (by decide))
  have hhost : avoids (Uri.host * opt (Uri.char ':' * Uri.port)) (ascii '@') :=
    avoids_of_uses uses_host_port (by decide)
  unfold valid_authority Uri.authority
  rcases cut_cases '@' s with ⟨hcut, hmem⟩ | ⟨info, host, hcut, rfl, hmem⟩
  · rw [hcut]
    exact host_and_port_iff.trans (mem_opt_before_none hmem).symm
  · rw [hcut]
    refine Iff.trans ?_ (mem_opt_before huserinfo hhost hmem).symm
    dsimp only
    rw [Bool.and_eq_true, host_and_port_iff, component_iff (by decide), userinfo_eq]

/-! ## The part after the scheme

Two slashes begin an authority, which ends at the next slash; what follows is a path that is
empty or begins with that slash. Without them there is only a path. -/

/-- After two slashes: the authority ends before the first slash. -/
theorem mem_authority_path {s : List UInt8} : s ∈ Uri.authority * Uri.path_abempty ↔
    (∃ authority path, cut '/' s = some (authority, path) ∧ authority ∈ Uri.authority ∧
      ascii '/' :: path ∈ Uri.path_abempty) ∨ (cut '/' s = none ∧ s ∈ Uri.authority) := by
  have havoids : avoids Uri.authority (ascii '/') := avoids_of_uses uses_authority (by decide)
  constructor
  · rintro ⟨authority, hauthority, path, hpath, rfl⟩
    have hslash := havoids.not_mem hauthority
    rcases abempty_cases.mp hpath with rfl | ⟨seg, -, tail, -, rfl⟩
    · right
      dsimp only
      rw [List.append_nil]
      exact ⟨cut_eq_none.mpr hslash, hauthority⟩
    · exact .inl ⟨authority, seg ++ tail, cut_eq_some.mpr ⟨rfl, hslash⟩, hauthority, hpath⟩
  · rintro (⟨authority, path, hcut, hauthority, hpath⟩ | ⟨-, hauthority⟩)
    · obtain ⟨rfl, -⟩ := cut_eq_some.mp hcut
      exact ⟨authority, hauthority, _, hpath, rfl⟩
    · exact ⟨s, hauthority, [], Language.nil_mem_kstar _, List.append_nil s⟩

/-- With two slashes in front there is an authority, and without them none. -/
theorem mem_hier_part {s : List UInt8} : s ∈ Uri.hier_part ↔
    (∃ rest, s = ascii '/' :: ascii '/' :: rest ∧ rest ∈ Uri.authority * Uri.path_abempty) ∨
      s ∈ Uri.path_absolute + Uri.path_rootless + Uri.path_empty := by
  have hslashes : s ∈ Uri.char '/' * Uri.char '/' * Uri.authority * Uri.path_abempty ↔
      ∃ rest, s = ascii '/' :: ascii '/' :: rest ∧ rest ∈ Uri.authority * Uri.path_abempty := by
    rw [mul_assoc, mul_assoc]
    constructor
    · rintro ⟨_, ⟨_, rfl, rfl⟩, _, ⟨_, ⟨_, rfl, rfl⟩, rest, hrest, rfl⟩, rfl⟩
      exact ⟨rest, rfl, hrest⟩
    · rintro ⟨rest, rfl, hrest⟩
      exact ⟨[_], ⟨_, rfl, rfl⟩, _, ⟨[_], ⟨_, rfl, rfl⟩, rest, hrest, rfl⟩, rfl⟩
  rw [← hslashes]
  unfold Uri.hier_part
  rw [add_assoc, add_assoc, ← add_assoc Uri.path_absolute]
  exact Iff.rfl

/-- The function looks for the two slashes and the next one, and the rule has its authority in
the same place. -/
theorem hier_part_iff {s : List UInt8} : hier_part s = true ↔ s ∈ Uri.hier_part := by
  rw [mem_hier_part, path_iff]
  unfold hier_part
  by_cases hslashes : [ascii '/', ascii '/'].isPrefixOf s = true
  · obtain ⟨rest, rfl⟩ : ∃ rest, s = ascii '/' :: ascii '/' :: rest := by
      obtain ⟨rest, rfl⟩ := List.isPrefixOf_iff_prefix.mp hslashes
      exact ⟨rest, rfl⟩
    rw [if_pos hslashes]
    have hauthority : (∃ rest', ascii '/' :: ascii '/' :: rest = ascii '/' :: ascii '/' :: rest' ∧
        rest' ∈ Uri.authority * Uri.path_abempty) ↔ rest ∈ Uri.authority * Uri.path_abempty := by
      constructor
      · rintro ⟨_, ⟨⟩, h⟩
        exact h
      · exact fun h => ⟨rest, rfl, h⟩
    -- the path that begins with two slashes is none without an authority
    have hnot : ¬ ([ascii '/', ascii '/'].isPrefixOf (ascii '/' :: ascii '/' :: rest) = false ∧
        component [':', '@', '/'] (ascii '/' :: ascii '/' :: rest) = true) := by
      rintro ⟨h, -⟩
      rw [hslashes] at h
      cases h
    rw [hauthority, mem_authority_path, or_iff_left hnot]
    have hdrop : (ascii '/' :: ascii '/' :: rest).drop 2 = rest := rfl
    rw [hdrop]
    dsimp only
    -- with no other slash the path behind the authority is empty
    cases hcut : cut '/' rest with
    | none =>
        dsimp only
        rw [valid_authority_iff]
        constructor
        · exact fun h => .inr ⟨rfl, h⟩
        · rintro (⟨_, _, ⟨⟩, -⟩ | ⟨-, h⟩)
          exact h
    | some parts =>
        obtain ⟨authority, path⟩ := parts
        dsimp only
        rw [Bool.and_eq_true, valid_authority_iff]
        constructor
        · rintro ⟨hauth, hpath⟩
          exact .inl ⟨authority, path, rfl, hauth, abempty_iff.mpr ⟨.inr rfl, hpath⟩⟩
        · rintro (⟨_, _, ⟨⟩, hauth, hpath⟩ | ⟨h, -⟩)
          · exact ⟨hauth, (abempty_iff.mp hpath).2⟩
          · cases h
  · rw [if_neg hslashes]
    constructor
    · exact fun h => .inr ⟨Bool.not_eq_true _ ▸ hslashes, h⟩
    · rintro (⟨rest, rfl, -⟩ | ⟨-, h⟩)
      · exact absurd rfl hslashes
      · exact h

/-- The characters of this part; `?` and `#` are not among them, so the query and the fragment
begin at the first of each. -/
theorem uses_hier_part :
    uses Uri.hier_part (fun ch => allowed_letter [':', '[', ']', '@', '/'] ch = true) := by
  have hrun : uses (Uri.pchar + Uri.char '/')∗
      (fun ch => allowed_letter [':', '[', ']', '@', '/'] ch = true) := by
    rw [pchar_slash_eq]
    exact uses_star ((uses_allowed _).mono (allowed_letter_mono (by simp)))
  intro s hs
  rcases mem_hier_part.mp hs with ⟨rest, rfl, hrest⟩ | hpath
  · have hwhole := uses_mul (uses_authority.mono (allowed_letter_mono (by simp)))
      (fun t ht => hrun t (abempty_path ht)) rest hrest
    rw [List.forall_mem_cons, List.forall_mem_cons]
    exact ⟨by decide, by decide, hwhole⟩
  · exact hrun s (path_component.mp (path_iff.mp hpath).2)

/-! ## The whole

The scheme ends at the first colon, and the query and the fragment are what follows the first
`?` and `#`. With the cuts in place the statement is put together from the parts.

In the other direction the derivation has its separators where the cuts are, since each part
avoids the separator that ends it. -/

/-- A scheme begins with a letter and goes on with letters, digits and three other characters.
-/
theorem scheme_iff {first : UInt8} {rest : List UInt8} : first :: rest ∈ Uri.scheme ↔
    (alpha first &&
      rest.all fun ch => alpha ch || digit ch || ['+', '-', '.'].any (ascii · == ch)) = true := by
  have hletter : letter Uri.ALPHA + letter Uri.DIGIT + Uri.chars ['+', '-', '.'] =
      letter fun ch => (alpha ch || digit ch || ['+', '-', '.'].any (ascii · == ch)) = true := by
    apply Language.ext
    intro s
    simp only [Bool.or_eq_true, alpha_iff, digit_iff, any_ascii_iff]
    constructor
    · rintro ((⟨ch, h, rfl⟩ | ⟨ch, h, rfl⟩) | ⟨ch, h, rfl⟩)
      · exact ⟨ch, .inl (.inl h), rfl⟩
      · exact ⟨ch, .inl (.inr h), rfl⟩
      · exact ⟨ch, .inr h, rfl⟩
    · rintro ⟨ch, (h | h) | h, rfl⟩
      · exact .inl (.inl ⟨ch, h, rfl⟩)
      · exact .inl (.inr ⟨ch, h, rfl⟩)
      · exact .inr ⟨ch, h, rfl⟩
  unfold Uri.scheme
  rw [hletter, Bool.and_eq_true, alpha_iff, List.all_eq_true]
  constructor
  · rintro ⟨_, ⟨_, hfirst, rfl⟩, tail, htail, h⟩
    obtain ⟨rfl, rfl⟩ := List.cons.inj h
    exact ⟨hfirst, mem_star_letter.mp htail⟩
  · rintro ⟨hfirst, hrest⟩
    exact ⟨[first], ⟨first, hfirst, rfl⟩, rest, mem_star_letter.mpr hrest, rfl⟩

/-- A scheme does not contain the colon that ends it. -/
theorem avoids_scheme : avoids Uri.scheme (ascii ':') := by
  intro s hs
  cases s with
  | nil => exact nofun
  | cons first rest =>
      have hscheme := scheme_iff.mp hs
      rw [Bool.and_eq_true, List.all_eq_true] at hscheme
      rw [List.forall_mem_cons]
      constructor
      · rintro rfl
        exact absurd hscheme.1 (by decide)
      · rintro ch hch rfl
        exact absurd (hscheme.2 _ hch) (by decide)

/-- The function accepts a text exactly when the rule derives it. The fragment is cut off first,
then the query, and each may be missing. -/
theorem valid_resource_uri_iff (uri : List UInt8) :
    valid_resource_uri uri = true ↔ uri ∈ Uri.URI := by
  have hassoc : Uri.URI = Uri.scheme * (Uri.char ':' * (Uri.hier_part *
      opt (Uri.char '?' * Uri.query) * opt (Uri.char '#' * Uri.fragment))) := by
    simp only [Uri.URI, mul_assoc]
  -- what stands before the fragment cannot contain its separator, nor what stands before the query
  have hquery : avoids (Uri.hier_part * opt (Uri.char '?' * Uri.query)) (ascii '#') := by
    refine uses_mul (avoids_of_uses uses_hier_part (by decide))
      (uses_opt (uses_mul (uses_char (by decide)) ?_))
    rw [query_eq]
    exact uses_star (avoids_allowed (by decide))
  have hhier : avoids Uri.hier_part (ascii '?') := avoids_of_uses uses_hier_part (by decide)
  rw [hassoc, fragment_eq, query_eq] at *
  unfold valid_resource_uri
  rcases cut_cases ':' uri with ⟨hcut, hmem⟩ | ⟨scheme, rest, hcut, rfl, hmem⟩
  · rw [hcut]
    exact ⟨fun h => (by cases h), fun h => absurd h (not_mem_cut hmem)⟩
  · rw [hcut]
    refine Iff.trans ?_ (mem_cut avoids_scheme hmem).symm
    cases scheme with
    | nil =>
        refine ⟨fun h => (by cases h), ?_⟩
        rintro ⟨⟨_, ⟨_, -, rfl⟩, _, -, h⟩, -⟩
        cases h
    | cons first scheme =>
        dsimp only
        rw [Bool.and_eq_true, scheme_iff]
        apply and_congr Iff.rfl
        refine Iff.trans ?_ (cut_suffix_iff hquery rest).symm
        cases hfragment : cut_suffix '#' rest with
        | none => exact ⟨fun h => (by cases h), fun ⟨_, h, _⟩ => by cases h⟩
        | some rest' =>
            have hrest' : (∃ r, some rest' = some r ∧
                r ∈ Uri.hier_part * opt (Uri.char '?' * (allowed [':', '@', '/', '?'])∗)) ↔
                rest' ∈ Uri.hier_part * opt (Uri.char '?' * (allowed [':', '@', '/', '?'])∗) := by
              constructor
              · rintro ⟨_, ⟨⟩, h⟩
                exact h
              · exact fun h => ⟨rest', rfl, h⟩
            rw [hrest', cut_suffix_iff hhier rest']
            dsimp only
            cases hquery' : cut_suffix '?' rest' with
            | none => exact ⟨fun h => (by cases h), fun ⟨_, h, _⟩ => by cases h⟩
            | some rest'' =>
                dsimp only
                rw [hier_part_iff]
                constructor
                · exact fun h => ⟨rest'', rfl, h⟩
                · rintro ⟨_, ⟨⟩, h⟩
                  exact h

/-! ## The loops

As they stand in the source: the index of `component`, the rounds over an IPv4 address, and
the text that is left of a part. The model goes through the same characters by recursion on
the text or on its pieces. A loop has ended when its fuel is not used up.

For each loop the statement is about every text: with as many rounds as the text has characters,
and one more, it has ended, and what it returned is what the model's recursion returns. The IPv4
loop has four rounds whatever the text is. -/

/-- `for (i = 0; i < text.size(); ++i)`, from the index `i`. -/
def component_loop (extra : List Char) (text : List UInt8) : (fuel i : Nat) → Option Bool
  | 0, _ => none
  | fuel + 1, i =>
      match text[i]? with
      | none => some true
      | some ch =>
          if ch = ascii '%' then
            match text[i + 1]?, text[i + 2]? with
            | some high, some low =>
                if !hex high || !hex low then some false
                else component_loop extra text fuel (i + 3)
            | _, _ => some false
          else if unreserved ch || sub_delim ch || extra.any (ascii · == ch) then
            component_loop extra text fuel (i + 1)
          else some false

/-- `for (i = 0; i < 4; ++i)`, with the rounds that are left. -/
def ipv4_loop : (left : Nat) → (ipv4 : List UInt8) → Bool
  | 0, _ => true
  | left + 1, ipv4 =>
      match cut '.' ipv4 with
      | none => ipv4_octet ipv4 && left == 0 && ipv4_loop left ipv4
      | some (octet, rest) => ipv4_octet octet && left != 0 && ipv4_loop left rest

/-- `while (!part.empty())`. -/
def count_groups_loop (tail : Bool) : (fuel : Nat) → (part : List UInt8) → (groups : Nat) →
    Option (Option Nat)
  | 0, _, _ => none
  | fuel + 1, part, groups =>
      if part.isEmpty then some (some groups)
      else
        let (group, rest) := match cut ':' part with
          | none => (part, none)
          | some (group, rest) => (group, some rest)
        if group.isEmpty then some none
        else if group.contains (ascii '.') then
          if !tail || rest.isSome then some none
          else if ipv4_loop 4 group then some (some (groups + 2))
          else some none
        else if group.length ≤ 4 && group.all hex then
          match rest with
          | none => some (some (groups + 1))
          | some rest =>
              if rest.isEmpty then some none
              else count_groups_loop tail fuel rest (groups + 1)
        else some none

/-- The index only grows, so as many rounds as there are characters left are enough. -/
theorem component_loop_ends (extra : List Char) (text : List UInt8) {fuel i : Nat}
    (h : text.length - i < fuel) :
    component_loop extra text fuel i = some (component extra (text.drop i)) := by
  induction fuel generalizing i with
  | zero => omega
  | succ fuel ih =>
      rw [component_loop]
      by_cases hi : i < text.length
      · have hdrop : text.drop i = text[i] :: text.drop (i + 1) := List.drop_eq_getElem_cons hi
        have hone : text[i + 1]? = (text.drop (i + 1))[0]? := by
          rw [List.getElem?_drop, Nat.add_zero]
        have htwo : text[i + 2]? = (text.drop (i + 1))[1]? := by
          rw [List.getElem?_drop]
        have hthree : text.drop (i + 3) = (text.drop (i + 1)).drop 2 := by
          rw [List.drop_drop]
        -- the loop reads by index what the recursion reads off the front of the rest
        rw [List.getElem?_eq_getElem hi, hdrop, component.eq_def, hone, htwo,
          ih (show text.length - (i + 3) < fuel by omega),
          ih (show text.length - (i + 1) < fuel by omega), hthree]
        dsimp only
        by_cases hpercent : text[i] = ascii '%'
        · rw [if_pos hpercent, if_pos hpercent]
          match text.drop (i + 1) with
          | [] => rfl
          | [_] => rfl
          | high :: low :: rest =>
              simp only [List.getElem?_cons_zero, List.getElem?_cons_succ, List.drop_succ_cons,
                List.drop_zero]
              cases hex high with
              | false => rfl
              | true =>
                  cases hex low with
                  | false => rfl
                  | true => rfl
        · rw [if_neg hpercent, if_neg hpercent]
          cases unreserved text[i] || sub_delim text[i] || extra.any (ascii · == text[i]) with
          | false => rfl
          | true => rfl
      · rw [List.getElem?_eq_none (by omega), List.drop_eq_nil_of_le (by omega)]
        rfl

/-- The rounds meet the pieces between the dots, and there have to be as many. -/
theorem ipv4_loop_eq (left : Nat) (ipv4 : List UInt8) : ipv4_loop (left + 1) ipv4 =
    ((ipv4.splitOn (ascii '.')).length = left + 1 &&
      (ipv4.splitOn (ascii '.')).all ipv4_octet) := by
  induction left generalizing ipv4 with
  | zero =>
      rcases cut_cases '.' ipv4 with ⟨hcut, hmem⟩ | ⟨octet, rest, hcut, rfl, hmem⟩
      · rw [ipv4_loop, hcut, List.splitOn_eq_singleton hmem]
        simp [ipv4_loop]
      · have hne := List.splitOn_ne_nil (ascii '.') rest
        rw [ipv4_loop, hcut, List.splitOn_append_cons_self_of_not_mem hmem]
        simp [hne]
  | succ left ih =>
      rcases cut_cases '.' ipv4 with ⟨hcut, hmem⟩ | ⟨octet, rest, hcut, rfl, hmem⟩
      · rw [ipv4_loop, hcut, List.splitOn_eq_singleton hmem]
        simp
      · rw [ipv4_loop, hcut, List.splitOn_append_cons_self_of_not_mem hmem]
        dsimp only
        rw [ih rest, List.length_cons, List.all_cons]
        cases ipv4_octet octet with
        | false => simp
        | true => simp

/-- The separator goes with the group before it, so each round leaves less. -/
theorem count_groups_loop_ends (tail : Bool) {fuel : Nat} {part : List UInt8} (groups : Nat)
    (h : part.length < fuel) :
    count_groups_loop tail fuel part groups =
      some (count_groups tail (ipv6_pieces part) groups) := by
  induction fuel generalizing part groups with
  | zero => omega
  | succ fuel ih =>
      rw [count_groups_loop]
      by_cases hempty : part = []
      · subst hempty
        rfl
      · have hipv4 : ∀ group, ipv4_loop 4 group = ipv4_address group := ipv4_loop_eq 3
        rw [if_neg (by simpa using hempty), ipv6_pieces_of_ne_nil hempty]
        simp only [hipv4]
        -- one round: the group before the first separator, or the whole part if there is none
        rcases cut_cases ':' part with ⟨hcut, hmem⟩ | ⟨group, rest, hcut, rfl, hmem⟩
        · rw [hcut, List.splitOn_eq_singleton hmem, count_groups]
          dsimp only
          by_cases hgroup : part.isEmpty
          · rw [if_pos hgroup, if_pos hgroup]
          · rw [if_neg hgroup, if_neg hgroup]
            by_cases hdot : part.contains (ascii '.')
            · rw [if_pos hdot, if_pos hdot]
              cases tail with
              | false => rfl
              | true =>
                  cases ipv4_address part with
                  | false => rfl
                  | true => rfl
            · rw [if_neg hdot, if_neg hdot]
              by_cases hhex : part.length ≤ 4 && part.all hex
              · rw [if_pos hhex, if_pos hhex, count_groups]
              · rw [if_neg hhex, if_neg hhex]
        · rw [hcut, List.splitOn_append_cons_self_of_not_mem hmem, count_groups]
          dsimp only
          by_cases hgroup : group.isEmpty
          · rw [if_pos hgroup, if_pos hgroup]
          · rw [if_neg hgroup, if_neg hgroup]
            by_cases hdot : group.contains (ascii '.')
            · have hmore : (rest.splitOn (ascii ':')).isEmpty = false := by simp
              rw [if_pos hdot, if_pos hdot, hmore]
              simp
            · rw [if_neg hdot, if_neg hdot]
              by_cases hhex : group.length ≤ 4 && group.all hex
              · rw [if_pos hhex, if_pos hhex]
                -- a separator at the end leaves an empty piece, which both refuse
                by_cases hrest : rest = []
                · subst hrest
                  simp [count_groups]
                · have hlt : rest.length < fuel := by
                    rw [List.length_append, List.length_cons] at h
                    omega
                  rw [if_neg (by simpa using hrest), ih _ hlt, ipv6_pieces_of_ne_nil hrest]
              · rw [if_neg hhex, if_neg hhex]

/-- The predicate is the `URI` rule, and its loops end on every text: `component` and
`count_groups` within as many rounds as there are characters, and one more to see the end. -/
theorem resource_uri_syntax :
    (∀ uri, valid_resource_uri uri = true ↔ uri ∈ Uri.URI) ∧
    (∀ extra text,
      component_loop extra text (text.length + 1) 0 = some (component extra text)) ∧
    (∀ ipv4, ipv4_loop 4 ipv4 = ipv4_address ipv4) ∧
    ∀ tail part groups, count_groups_loop tail (part.length + 1) part groups =
      some (count_groups tail (ipv6_pieces part) groups) := by
  refine ⟨valid_resource_uri_iff, fun extra text => ?_, ipv4_loop_eq 3, fun tail part groups => ?_⟩
  · have hends := component_loop_ends extra text (i := 0) (Nat.lt_succ_self text.length)
    rwa [List.drop_zero] at hends
  · exact count_groups_loop_ends tail groups (Nat.lt_succ_self part.length)

end SynapseMcp
