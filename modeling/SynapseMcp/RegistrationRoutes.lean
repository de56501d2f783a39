/-
A resource that is reached as a dialect, and the same resource reached by a reference.

The dialect's key is active while its document is inspected, the key of a referenced document is
not. So the two inspections go the same way up to a declaration that names the resource itself.
One that is the top of its resource, and so on back to the resource, makes the chain of dialects
a cycle; then the second inspection goes round it once more and throws too. A declaration below
a top makes the difference.
-/
import SynapseMcp.RegistrationDialects

set_option autoImplicit false

namespace SynapseMcp.schema_backend

open Traversal

/-! ## What a check marks

A key enters `checked_dialects_` at the end of its check and never leaves it. A document that
was loaded was inspected, and its inspection checked what it declares at the top. A second check
of that text then returns at once, which is what makes the two routes agree where nothing is
refused.

`check_marks`, `inspect_marks` and `load_marks` hold at a depth together. IDs, anchors and
references are entered in other tables, which is said of each of them beforehand. -/

section Marks

variable {uri order converted : Type} [DecidableEq order]
variable (lib : schema_library uri order converted) (catalog : schema_catalog)

/-- `check_dialect` takes nothing out of `checked_dialects_`. -/
def check_marks (depth : Nat) : Prop :=
  ∀ (identifier : String) (r t : registration uri order converted),
    check_dialect lib catalog depth identifier r = .ok t →
    r.checked_dialects_ ⊆ t.checked_dialects_

/-- Nor does `inspect`. -/
def inspect_marks (depth : Nat) : Prop :=
  ∀ (schema : schema_ref) (base : String) (r t : registration uri order converted),
    inspect lib catalog depth schema base r = .ok t → r.checked_dialects_ ⊆ t.checked_dialects_

/-- Nor does `load_resource`. -/
def load_marks (depth : Nat) : Prop :=
  ∀ (key : String) (r : registration uri order converted) (document : schema_ref)
    (t : registration uri order converted),
    load_resource lib catalog depth key r = .ok (document, t) →
    r.checked_dialects_ ⊆ t.checked_dialects_

variable {lib catalog} {depth : Nat} {r t : registration uri order converted}
  {schema : schema_ref} {base inner key text : String}

/-- The anchors of an object are entered in `resources_` only. -/
theorem add_anchors_checked
    (h : ["$anchor", "$dynamicAnchor"].foldlM
      (fun r name => add_anchor lib schema inner name r) r = .ok t) :
    t.checked_dialects_ = r.checked_dialects_ := by
  refine foldlM_rest (I := fun _ s => s.checked_dialects_ = r.checked_dialects_) ?_ rfl h
  intro name _ s t hs hadd
  unfold add_anchor at hadd
  split at hadd
  · exact Except.ok.inj hadd ▸ hs
  · obtain ⟨text, -, hadd⟩ := bind_eq_ok.mp hadd
    obtain ⟨v, -, hadd⟩ := bind_eq_ok.mp hadd
    cases Except.ok.inj hadd
    exact hs

omit [DecidableEq order] in
/-- The references of an object go to `references_` only, so no dialect counts as checked that
was not before. -/
theorem add_references_checked
    (h : ["$ref", "$dynamicRef"].foldlM
      (fun r name => add_reference lib schema inner name r) r = .ok t) :
    t.checked_dialects_ = r.checked_dialects_ := by
  refine foldlM_rest (I := fun _ s => s.checked_dialects_ = r.checked_dialects_) ?_ rfl h
  intro name _ s t hs hadd
  unfold add_reference at hadd
  split at hadd
  · exact Except.ok.inj hadd ▸ hs
  · obtain ⟨outer, -, hadd⟩ := bind_eq_ok.mp hadd
    obtain ⟨text, -, hadd⟩ := bind_eq_ok.mp hadd
    obtain ⟨v, -, hadd⟩ := bind_eq_ok.mp hadd
    cases Except.ok.inj hadd
    exact hs

/-- A check that returns leaves the dialect checked. -/
theorem checked_of_check (h : check_dialect lib catalog (depth + 1) text r = .ok t) :
    ∃ key, dialect_named lib text = some key ∧
      (key = draft202012 ∨ key ∈ t.checked_dialects_) := by
  obtain ⟨u, hu, habsolute, hfragment, ⟨hdone, rfl⟩ | ⟨document, r₁, next, r₂, -, -, -, rfl⟩⟩ :=
    check_dialect_cases h
  · exact ⟨_, by simp [dialect_named, hu, habsolute, hfragment], hdone⟩
  · exact ⟨_, by simp [dialect_named, hu, habsolute, hfragment], .inr List.mem_cons_self⟩

/-- From an object that was inspected to the checks of what it declares. -/
theorem inspect_step_marks (hcheck : check_marks lib catalog depth)
    (hinspect : inspect_marks lib catalog depth)
    (h : inspect lib catalog (depth + 1) schema base r = .ok t) :
    r.checked_dialects_ ⊆ t.checked_dialects_ ∧
      (schema.value.is_object = true → r.inspected schema = false → ∀ text,
        schema.value.find? "$schema" = some (.string text) → ∃ r₁ r₂,
          check_dialect lib catalog depth text r₁ = .ok r₂ ∧
            r₂.checked_dialects_ ⊆ t.checked_dialects_) := by
  rcases inspect_cases h with ⟨hdone, rfl⟩ | ⟨-, -, inner, r₁, r₂, r₃, r₄, hbase, hid, hdialect, -,
    hanchors, hreferences, hchildren⟩
  -- nothing was done, so it was no object or was inspected before
  · refine ⟨List.Subset.refl _, fun hobject hnew => ?_⟩
    rcases hdone with hvalue | hmarked
    · rw [hobject] at hvalue
      cases hvalue
    · rw [hnew] at hmarked
      cases hmarked
  obtain ⟨ht, -, -⟩ := register_id_spec hbase hid
  have hfirst : r₁.checked_dialects_ = r.checked_dialects_ := by rw [ht]
  -- the objects below add to the checked dialects and take none away
  have hbelow : r₄.checked_dialects_ ⊆ t.checked_dialects_ :=
    foldlM_rest (I := fun _ s => r₄.checked_dialects_ ⊆ s.checked_dialects_)
      (fun child _ s u hs hi => List.Subset.trans hs (hinspect _ _ _ _ hi))
      (List.Subset.refl _) hchildren
  rw [add_references_checked hreferences, add_anchors_checked hanchors] at hbelow
  rw [← hfirst]
  rcases hdialect with ⟨hnone, rfl⟩ | ⟨text, htext, hc⟩
  · refine ⟨hbelow, fun _ _ text htext => ?_⟩
    rw [hnone] at htext
    cases htext
  · refine ⟨List.Subset.trans (hcheck _ _ _ hc) hbelow, fun _ _ text' htext' => ?_⟩
    rw [htext] at htext'
    cases htext'
    exact ⟨r₁, r₂, hc, hbelow⟩

variable (lib catalog) in
/-- The three at every depth, by one induction, since each calls the others one level down. -/
theorem recursion_marks (depth : Nat) : check_marks lib catalog depth ∧
    inspect_marks lib catalog depth ∧ load_marks lib catalog depth := by
  induction depth with
  | zero =>
      refine ⟨?_, ?_, ?_⟩
      · intro identifier r t h
        rw [check_dialect] at h
        cases h
      · intro schema base r t h
        rw [inspect] at h
        cases h
      · intro key r document t h
        rw [load_resource] at h
        cases h
  | succ depth ih =>
      obtain ⟨hcheck, hinspect, hload⟩ := ih
      refine ⟨?_, ?_, ?_⟩
      · intro identifier r t h
        obtain ⟨u, -, -, -, ⟨-, rfl⟩ | ⟨document, r₁, text, r₂, hl, -, hc, rfl⟩⟩ :=
          check_dialect_cases h
        · exact List.Subset.refl _
        · have hboth := List.Subset.trans (hload _ _ _ _ hl) (hcheck _ _ _ hc)
          exact List.Subset.trans hboth (List.subset_cons_self _ _)
      · intro schema base r t h
        exact (inspect_step_marks hcheck hinspect h).1
      · intro key r document t h
        obtain ⟨u, -, ⟨entry, -, -, rfl⟩ | ⟨-, value, converted, -, -, -, -, hi⟩⟩ :=
          load_resource_cases h
        · exact List.Subset.refl _
        · have hsubset := hinspect _ _ _ _ hi
          exact hsubset

/-- What a document declares at the top is checked when the document was loaded. -/
theorem checked_of_load {root : json} {document : schema_ref}
    (hwf : r.wf lib root catalog none) (hnew : r.find lib key = .ok none)
    (h : load_resource lib catalog depth key r = .ok (document, t))
    (htext : document.value.find? "$schema" = some (.string text)) :
    ∃ key, dialect_named lib text = some key ∧
      (key = draft202012 ∨ key ∈ t.checked_dialects_) := by
  obtain ⟨u, hu, hnone⟩ := find_eq_ok hnew
  -- each of the three calls on the way needs a depth of its own
  cases depth with
  | zero =>
      rw [load_resource] at h
      cases h
  | succ depth =>
  obtain ⟨u', hu', ⟨entry, hentry, -, -⟩ | ⟨-, value, converted, hvalue, hconvert, rfl, -, hi⟩⟩ :=
    load_resource_cases h
  · obtain rfl := Option.some.inj (hu.symm.trans hu')
    rw [hnone] at hentry
    cases hentry
  obtain rfl := Option.some.inj (hu.symm.trans hu')
  obtain ⟨-, -, hfresh, -⟩ := hwf.load hu hnone hvalue hconvert rfl
  cases depth with
  | zero =>
      rw [inspect] at hi
      cases hi
  | succ depth =>
  -- only an object has a `$schema`, so the value was inspected
  have hobject : value.is_object = true := by
    cases value with
    | object members => rfl
    | _ => cases htext
  obtain ⟨hcheck, hinspect, -⟩ := recursion_marks lib catalog depth
  obtain ⟨-, hdeclared⟩ := inspect_step_marks hcheck hinspect hi
  obtain ⟨r₁, r₂, hc, hsubset⟩ := hdeclared hobject hfresh text htext
  cases depth with
  | zero =>
      rw [check_dialect] at hc
      cases hc
  | succ depth =>
  obtain ⟨key', hnamed, hdone⟩ := checked_of_check hc
  exact ⟨key', hnamed, hdone.imp_right (hsubset ·)⟩

end Marks

/-! ## One dialect more that is active

The run for the dialect has one key more at the outer end of `active_dialects_`; everything else
in the two states is equal. The functions that do not read this list go the same way in both, so
for each there is an equation: adding the key and making the call may change places.

`also` puts the key at the end of the list, where the outermost check is, and not at its front.
So it stays there whatever is checked inside, and the list of the second run is a prefix of the
first one's at any time. -/

section Also

variable {uri order converted : Type} [DecidableEq order]

/-- The outermost active dialect. -/
def registration.also (K : String) (r : registration uri order converted) :
    registration uri order converted :=
  { r with active_dialects_ := r.active_dialects_ ++ [K] }

/-- The key is not checked, and neither is what is active. -/
def registration.apart (K : String) (r : registration uri order converted) : Prop :=
  K ∉ r.checked_dialects_ ∧ ∀ key ∈ r.active_dialects_, key ∉ r.checked_dialects_

/-- Where one run meets the dialect again, the other goes round once more, or has not the depth
for it. -/
def lost (e₁ e₂ : registration_error) : Prop :=
  e₁ = cyclic ∧ (e₂ = cyclic ∨ e₂ = .unfinished)

variable {lib : schema_library uri order converted} {root : json} {catalog : schema_catalog}
  {depth : Nat} {r t : registration uri order converted} {schema declaration : schema_ref}
  {checks : List link} {base inner identifier key text K : String}

/-- `register_id` does not look at what is active, so the two runs stay apart by the one key, or
throw the same error. -/
theorem register_id_also : register_id lib schema base (r.also K) =
    (register_id lib schema base r).map (·.also K) := by
  unfold register_id
  by_cases hid : (!schema.value.contains "$id") = true
  · rw [if_pos hid, if_pos hid]
    rfl
  rw [if_neg hid, if_neg hid]
  cases lib.parse base with
  | none => rfl
  | some u =>
      dsimp only [registration.also, got, bind, Except.bind]
      by_cases hduplicate : ((emplace (rebase schema base r.resources_) (lib.compared u)
          ⟨schema, base⟩).lookup (lib.compared u)).any
            (fun entry => decide (entry.value.place ≠ schema.place)) = true
      · rw [if_pos hduplicate, if_pos hduplicate]
        rfl
      · rw [if_neg hduplicate, if_neg hduplicate]
        rfl

/-- `add_anchor` does not either, and comes to the same in both runs. -/
theorem add_anchor_also (name : String) : add_anchor lib schema base name (r.also K) =
    (add_anchor lib schema base name r).map (·.also K) := by
  unfold add_anchor
  cases schema.value.find? name with
  | none => rfl
  | some value =>
      dsimp only
      cases get_string value with
      | error e => rfl
      | ok text =>
          cases hu : lib.parse (base ++ "#" ++ text) with
          | none => simp [hu, got, bind, Except.bind, Except.map]
          | some u =>
              simp only [hu, got, bind, Except.bind, Except.map, pure, Except.pure]
              rfl

omit [DecidableEq order] in
/-- Nor does `add_reference`, which resolves the text and puts it on the list in both. -/
theorem add_reference_also (name : String) : add_reference lib schema base name (r.also K) =
    (add_reference lib schema base name r).map (·.also K) := by
  unfold add_reference
  cases schema.value.find? name with
  | none => rfl
  | some value =>
      dsimp only
      cases lib.parse base with
      | none => rfl
      | some outer =>
          cases get_string value with
          | error e => rfl
          | ok text =>
              cases hu : lib.parse text with
              | none => simp [hu, got, bind, Except.bind, Except.map]
              | some u =>
                  simp only [hu, got, bind, Except.bind, Except.map, pure, Except.pure]
                  rfl

omit [DecidableEq order] in
/-- A loop over steps that go the same way: when no step looks at the key below the active ones,
neither does the loop, whether it returns or throws. -/
theorem foldlM_also {f : registration uri order converted → String →
      Except registration_error (registration uri order converted)}
    (h : ∀ r name, f (registration.also K r) name = (f r name).map (·.also K)) (l : List String) :
    l.foldlM f (r.also K) = (l.foldlM f r).map (·.also K) := by
  induction l generalizing r with
  | nil => rfl
  | cons name l ih =>
      rw [List.foldlM_cons, List.foldlM_cons, h]
      cases f r name with
      | error e => rfl
      | ok t => exact ih

/-! ### The dialect again

`check_dialect` is the one function that reads the list. For a key other than `K` both runs find
the same. For `K` itself one run throws at once, and the other goes into a resource that is
registered by then: it comes to the declaration at its top, and where the tops lead round, this
is a dialect that is active there too. -/

/-- A check of a dialect that can be checked, with the two tests on its URI behind it: done, a
cycle, or the resource is loaded and its own `$schema` checked. -/
theorem check_named (hnamed : dialect_named lib text = some key) :
    check_dialect lib catalog (depth + 1) text r =
      if key = draft202012 ∨ key ∈ r.checked_dialects_ then .ok r
      else if key ∈ r.active_dialects_ then .error cyclic
      else do
        let (document, r) ← load_resource lib catalog depth key
          { r with active_dialects_ := key :: r.active_dialects_ }
        match document.value.find? "$schema" with
        | none => .error (.policy_error "Unsupported schema dialect")
        | some declared => do
            let text ← get_string declared
            let r ← check_dialect lib catalog depth text r
            return { r with
              active_dialects_ := r.active_dialects_.erase key
              checked_dialects_ := key :: r.checked_dialects_ } := by
  obtain ⟨u, hu, hsupported, rfl⟩ := dialect_named_eq_some.mp hnamed
  rw [check_dialect, got_eq_ok.mpr hu]
  change (if _ then _ else _) = _
  exact (if_neg hsupported).trans rfl

/-- A dialect that is active. -/
theorem check_active (hnamed : dialect_named lib text = some key) (hdraft : key ≠ draft202012)
    (hchecked : key ∉ r.checked_dialects_) (hactive : key ∈ r.active_dialects_) :
    check_dialect lib catalog (depth + 1) text r = .error cyclic := by
  rw [check_named hnamed, if_neg (not_or.mpr ⟨hdraft, hchecked⟩), if_pos hactive]

/-- The refusals of that check, in the same three cases. -/
theorem check_named_refusals (hnamed : dialect_named lib text = some key) :
    check_dialect_refusals lib catalog (depth + 1) text declaration checks r =
      if key = draft202012 ∨ key ∈ r.checked_dialects_ then []
      else if key ∈ r.active_dialects_ then [⟨key, declaration, checks, r⟩]
      else
        load_resource_refusals lib catalog depth key (⟨key, declaration⟩ :: checks)
            { r with active_dialects_ := key :: r.active_dialects_ } ++
          onward (load_resource lib catalog depth key
            { r with active_dialects_ := key :: r.active_dialects_ }) fun loaded =>
            match loaded.1.value.find? "$schema" with
            | none => []
            | some declared => onward (get_string declared) fun text =>
                check_dialect_refusals lib catalog depth text loaded.1
                  (⟨key, declaration⟩ :: checks) loaded.2 := by
  obtain ⟨u, hu, hsupported, rfl⟩ := dialect_named_eq_some.mp hnamed
  rw [check_dialect_refusals, got_eq_ok.mpr hu]
  change (if _ then _ else _) = _
  exact (if_neg hsupported).trans rfl

/-- A resource that is registered is returned as it stands, and nothing is inspected for it. -/
theorem load_top (h : r.top lib key schema) :
    load_resource lib catalog (depth + 1) key r = .ok (schema, r) := by
  obtain ⟨u, entry, hu, hentry, rfl⟩ := h
  have hfind : r.find lib key = .ok (some entry) := by
    rw [registration.find, got_eq_ok.mpr hu]
    change Except.ok (r.resources_.lookup (lib.compared u)) = _
    rw [hentry]
  rw [load_resource, hfind]
  rfl

/-- The dialect is not active here, but what its resource declares is. -/
theorem check_again (hnamed : dialect_named lib identifier = some K) (hK : K ≠ draft202012)
    (hnot : K ∉ r.active_dialects_) (hapart : r.apart K) (htop : r.top lib K schema)
    {next : String} (hnext : declares lib schema.value next) (hdraft : next ≠ draft202012)
    (hactive : next = K ∨ next ∈ r.active_dialects_) :
    check_dialect lib catalog (depth + 1) identifier r = .error cyclic ∨
      check_dialect lib catalog (depth + 1) identifier r = .error .unfinished := by
  have hdone : ¬(K = draft202012 ∨ K ∈ r.checked_dialects_) := not_or.mpr ⟨hK, hapart.1⟩
  rw [check_named hnamed, if_neg hdone, if_neg hnot]
  cases depth with
  -- without a level left the document is not loaded, and the recursion is cut
  | zero =>
      right
      rw [load_resource]
      rfl
  | succ depth =>
      left
      have htop' : registration.top lib
          { r with active_dialects_ := K :: r.active_dialects_ } K schema := htop
      obtain ⟨text, htext, hnamed⟩ := hnext
      -- what the resource declares is this dialect again, or one that is being checked already
      have hnext : check_dialect lib catalog (depth + 1) text
          { r with active_dialects_ := K :: r.active_dialects_ } = .error cyclic := by
        apply check_active hnamed hdraft
        · change next ∉ r.checked_dialects_
          rcases hactive with rfl | hmem
          · exact hapart.1
          · exact hapart.2 next hmem
        · exact List.mem_cons.mpr hactive
      rw [load_top htop']
      change (match schema.value.find? "$schema" with
        | none => _
        | some declared => _) = _
      rw [htext]
      change (check_dialect lib catalog (depth + 1) text _ >>= _) = _
      rw [hnext]
      rfl

/-- A check below the one for `K`. -/
structure link.below (lib : schema_library uri order converted) (K : String) (l : link) : Prop where
  declares : declares lib l.declaration.value l.key
  draft : l.key ≠ draft202012
  other : l.key ≠ K

/-- Back at the outermost check: its resource declares one of the dialects that are active. -/
theorem declared_of_circles {d : schema_ref} {S : List String}
    (h : r.circles lib K (checks ++ [⟨K, d⟩]) declaration) (hbelow : ∀ l ∈ checks, l.below lib K)
    (hS : ∀ l ∈ checks, l.key ∈ S) {next : String} (hnext : declares lib declaration.value next)
    (hdraft : next ≠ draft202012) (hmem : next ∈ S) :
    ∃ schema next, r.top lib K schema ∧ declares lib schema.value next ∧ next ≠ draft202012 ∧
      next ∈ S := by
  induction checks generalizing declaration next with
  | nil => exact ⟨declaration, next, h.1, hnext, hdraft, hmem⟩
  | cons l checks ih =>
      rw [List.forall_mem_cons] at hbelow hS
      obtain ⟨htop, hkey | hcircles⟩ := h
      · exact absurd hkey hbelow.1.other
      · exact ih hcircles hbelow.2 hS.2 hbelow.1.declares hbelow.1.draft hS.1

end Also

/-! ## The two runs

`Mirrors` compares a call in the two states: as long as every refusal of the first run is at the
tops, both return, in states that still differ by `K` alone, or both throw, the same error or a
`lost` pair. The condition on the refusals is handed down from a log to its parts, so a proof
goes through the statements of a function in turn. The induction is on the depth, for the three
functions at once, and the checks are all below the one for `K`.

In the second case of `Mirrors` both throw. As long as the dialect `K` is not met the errors are
the same. Where it is, the first run throws for the cycle, and the second goes into a resource
that is there already, from which it takes the declaration that leads back to where it is: so it
throws for the same cycle, or has used up the depth on the way. That a run with enough depth
does not end so is known from `recursion_finishes`. -/

section Mirror

variable {uri order converted : Type} [DecidableEq order]
variable (lib : schema_library uri order converted) (catalog : schema_catalog) (K : String)
  (d : schema_ref)

/-- `check_dialect`, for the text that an object declares. -/
def check_mirrors (depth : Nat) : Prop :=
  ∀ identifier declaration checks (r : registration uri order converted),
    (∀ l ∈ checks, l.below lib K) → r.active_dialects_ = checks.map link.key → r.apart K →
    declaration.value.find? "$schema" = some (.string identifier) →
    Mirrors lost (refusal.at_tops lib) (registration.also K) (registration.apart K)
      (check_dialect_refusals lib catalog depth identifier declaration (checks ++ [⟨K, d⟩])
        (r.also K))
      (check_dialect lib catalog depth identifier (r.also K))
      (check_dialect lib catalog depth identifier r)

/-- `inspect`, with the checks that go on. -/
def inspect_mirrors (depth : Nat) : Prop :=
  ∀ schema base checks (r : registration uri order converted),
    (∀ l ∈ checks, l.below lib K) → r.active_dialects_ = checks.map link.key → r.apart K →
    Mirrors lost (refusal.at_tops lib) (registration.also K) (registration.apart K)
      (inspect_refusals lib catalog depth schema base (checks ++ [⟨K, d⟩]) (r.also K))
      (inspect lib catalog depth schema base (r.also K))
      (inspect lib catalog depth schema base r)

/-- `load_resource`, which returns the document beside the state. -/
def load_mirrors (depth : Nat) : Prop :=
  ∀ key checks (r : registration uri order converted),
    (∀ l ∈ checks, l.below lib K) → r.active_dialects_ = checks.map link.key → r.apart K →
    Mirrors lost (refusal.at_tops lib) (fun loaded => (loaded.1, loaded.2.also K))
      (fun loaded : schema_ref × registration uri order converted => loaded.2.apart K)
      (load_resource_refusals lib catalog depth key (checks ++ [⟨K, d⟩]) (r.also K))
      (load_resource lib catalog depth key (r.also K))
      (load_resource lib catalog depth key r)

variable {lib catalog K d} {depth : Nat}

/-- The dialect is `K`, and the runs part; or it is another one, and they stay together, down
into its document and back. -/
theorem check_dialect_mirrors (hK : K ≠ draft202012) (hload : load_mirrors lib catalog K d depth)
    (hcheck : check_mirrors lib catalog K d depth) :
    check_mirrors lib catalog K d (depth + 1) := by
  intro identifier declaration checks r hbelow hactive hapart hdeclared
  obtain ⟨hcheckcosts, -, hloadcosts⟩ := recursion_costs lib catalog depth
  have hnotK : K ∉ r.active_dialects_ := by
    rw [hactive]
    intro hmem
    obtain ⟨l, hl, hkey⟩ := List.mem_map.mp hmem
    exact (hbelow l hl).other hkey
  by_cases hnamed : dialect_named lib identifier = some K
  · -- here the one run is refused, and the other goes round
    intro hrefusals
    have hactive' : K ∈ (r.also K).active_dialects_ :=
      List.mem_append_right _ List.mem_cons_self
    have hchecked' : K ∉ (r.also K).checked_dialects_ := hapart.1
    rw [check_named_refusals hnamed, if_neg (not_or.mpr ⟨hK, hchecked'⟩), if_pos hactive']
      at hrefusals
    rw [check_active hnamed hK hchecked' hactive']
    have hcircles := hrefusals _ (List.mem_singleton_self _)
    obtain ⟨schema, next, htop, hnext, hdraft, hmem⟩ :=
      declared_of_circles (S := K :: r.active_dialects_) hcircles hbelow
        (fun l hl => List.mem_cons_of_mem K (hactive ▸ List.mem_map_of_mem hl))
        ⟨identifier, hdeclared, hnamed⟩ hK List.mem_cons_self
    have hagain : check_dialect lib catalog (depth + 1) identifier r = .error cyclic ∨
        check_dialect lib catalog (depth + 1) identifier r = .error .unfinished :=
      check_again hnamed hK hnotK hapart htop hnext hdraft (List.mem_cons.mp hmem)
    refine ⟨.inr ?_, fun t ht => ?_⟩
    · rcases hagain with h | h
      · exact ⟨cyclic, cyclic, rfl, h, rfl, .inl rfl⟩
      · exact ⟨cyclic, .unfinished, rfl, h, rfl, .inr rfl⟩
    · rcases hagain with h | h
      · rw [h] at ht
        cases ht
      · rw [h] at ht
        cases ht
  · rw [check_dialect_refusals, check_dialect, check_dialect]
    refine .value fun u hu => ?_
    by_cases hsupported : (!lib.is_absolute u || lib.fragment u ≠ "") = true
    · rw [if_pos hsupported, if_pos hsupported, if_pos hsupported]
      exact .raised
    rw [if_neg hsupported, if_neg hsupported, if_neg hsupported]
    have hkey : dialect_named lib identifier = some (resource_key lib u) :=
      dialect_named_eq_some.mpr ⟨u, got_eq_ok.mp hu, hsupported, rfl⟩
    have hne : resource_key lib u ≠ K := fun heq => hnamed (heq ▸ hkey)
    dsimp only
    by_cases hdone : resource_key lib u = draft202012 ∨
        resource_key lib u ∈ r.checked_dialects_
    · have hdone' : resource_key lib u = draft202012 ∨
          resource_key lib u ∈ (r.also K).checked_dialects_ := hdone
      rw [if_pos hdone', if_pos hdone', if_pos hdone]
      refine .same rfl ?_
      rintro t ⟨⟩
      exact hapart
    have hdone' : ¬(resource_key lib u = draft202012 ∨
        resource_key lib u ∈ (r.also K).checked_dialects_) := hdone
    rw [if_neg hdone', if_neg hdone', if_neg hdone]
    have hiff : resource_key lib u ∈ (r.also K).active_dialects_ ↔
        resource_key lib u ∈ r.active_dialects_ := by
      change resource_key lib u ∈ r.active_dialects_ ++ [K] ↔ _
      rw [List.mem_append, List.mem_singleton, or_iff_left hne]
    by_cases hmem : resource_key lib u ∈ r.active_dialects_
    · rw [if_pos (hiff.mpr hmem), if_pos (hiff.mpr hmem), if_pos hmem]
      exact .raised
    rw [if_neg (mt hiff.mp hmem), if_neg (mt hiff.mp hmem), if_neg hmem]
    rw [not_or] at hdone
    -- from here on the check of this dialect is the innermost one, in both runs
    have hbelow' : ∀ l ∈ (⟨resource_key lib u, declaration⟩ : link) :: checks,
        l.below lib K := by
      rw [List.forall_mem_cons]
      exact ⟨⟨⟨identifier, hdeclared, hkey⟩, hdone.1, hne⟩, hbelow⟩
    have hapart' : registration.apart K
        { r with active_dialects_ := resource_key lib u :: r.active_dialects_ } := by
      refine ⟨hapart.1, ?_⟩
      change ∀ key ∈ resource_key lib u :: r.active_dialects_, key ∉ r.checked_dialects_
      rw [List.forall_mem_cons]
      exact ⟨hdone.2, hapart.2⟩
    have hactive' : resource_key lib u :: r.active_dialects_ =
        ((⟨resource_key lib u, declaration⟩ : link) :: checks).map link.key := by
      rw [List.map_cons, hactive]
    refine (hload _ _ { r with active_dialects_ := resource_key lib u :: r.active_dialects_ }
      hbelow' hactive' hapart').bind ?_
    rintro ⟨document, r₁⟩ hl hapart₁
    have hactive₁ := (hloadcosts _ _ _ _ hl).active
    dsimp only
    cases hschema : document.value.find? "$schema" with
    | none => exact .raised
    | some declared =>
        refine .value fun text htext => ?_
        rw [get_string_eq_ok.mp htext] at hschema
        refine .after (hcheck text document _ r₁ hbelow' (hactive₁.trans hactive') hapart₁ hschema)
          fun r₂ hr₂ hapart₂ => ?_
        have hactive₂ := (hcheckcosts _ _ _ hr₂).active.trans hactive₁
        change r₂.active_dialects_ = resource_key lib u :: r.active_dialects_ at hactive₂
        have hfirst : resource_key lib u ∈ r₂.active_dialects_ := hactive₂ ▸ List.mem_cons_self
        -- the key is taken out again, and `K` stays at the outer end
        have herase : r₂.active_dialects_.erase (resource_key lib u) = r.active_dialects_ := by
          rw [hactive₂]
          exact List.erase_cons_head _ _
        refine ⟨?_, ?_⟩
        · change Except.ok _ = Except.ok _
          simp only [registration.also, List.erase_append_left [K] hfirst]
        · rintro t ⟨⟩
          refine ⟨?_, ?_⟩
          · exact List.not_mem_cons_of_ne_of_not_mem (Ne.symm hne) hapart₂.1
          · intro key hactive'
            change key ∈ r₂.active_dialects_.erase (resource_key lib u) at hactive'
            rw [herase] at hactive'
            refine List.not_mem_cons_of_ne_of_not_mem (fun heq => hmem (heq ▸ hactive')) ?_
            exact hapart₂.2 key (hactive₂ ▸ List.mem_cons_of_mem _ hactive')

/-- The statements of `inspect` in order, and the objects below, each in the state that the one
before it left. -/
theorem inspect_step_mirrors (hcheck : check_mirrors lib catalog K d depth)
    (hinspect : inspect_mirrors lib catalog K d depth) :
    inspect_mirrors lib catalog K d (depth + 1) := by
  intro schema base checks r hbelow hactive hapart
  obtain ⟨hcheckcosts, hinspectcosts, -⟩ := recursion_costs lib catalog depth
  rw [inspect_refusals, inspect, inspect]
  -- `also K` adds a key to the checked ones and no value to the inspected ones
  by_cases hdone : (!schema.value.is_object || r.inspected schema) = true
  · have hdone' : (!schema.value.is_object || (r.also K).inspected schema) = true := hdone
    rw [if_pos hdone', if_pos hdone', if_pos hdone]
    refine .same rfl ?_
    rintro t ⟨⟩
    exact hapart
  have hdone' : ¬(!schema.value.is_object || (r.also K).inspected schema) = true := hdone
  rw [if_neg hdone', if_neg hdone', if_neg hdone]
  refine .value fun inner hbase => ?_
  have hregister : register_id lib schema inner ((r.also K).mark schema base) =
      (register_id lib schema inner (r.mark schema base)).map (registration.also K) := by
    change register_id lib schema inner ((r.mark schema base).also K) = _
    exact register_id_also
  refine .before hregister fun r₁ hid => ?_
  obtain ⟨ht, -, -⟩ := register_id_spec hbase hid
  have hactive₁ : r₁.active_dialects_ = checks.map link.key := by
    rw [ht]
    exact hactive
  have hapart₁ : r₁.apart K := by
    rw [ht]
    exact hapart
  -- the declared dialect is the one place where the added key can matter
  have hdeclared : Mirrors lost (refusal.at_tops lib) (registration.also K)
      (registration.apart K)
      (check_declared_refusals
        (fun text r => check_dialect_refusals lib catalog depth text schema
          (checks ++ [⟨K, d⟩]) r) schema.value (r₁.also K))
      (check_declared (fun text r => check_dialect lib catalog depth text r) schema.value
        (r₁.also K))
      (check_declared (fun text r => check_dialect lib catalog depth text r) schema.value r₁) := by
    unfold check_declared_refusals check_declared
    cases hschema : schema.value.find? "$schema" with
    | none =>
        refine .same rfl ?_
        rintro t ⟨⟩
        exact hapart₁
    | some declared =>
        refine .value fun text htext => ?_
        rw [get_string_eq_ok.mp htext] at hschema
        exact hcheck text schema checks r₁ hbelow hactive₁ hapart₁ hschema
  refine hdeclared.bind fun r₂ hdialect hapart₂ => ?_
  refine .value fun _ _ => ?_
  refine .before (foldlM_also (fun _ name => add_anchor_also name) _) fun r₃ hanchors => ?_
  refine .before (foldlM_also (fun _ name => add_reference_also name) _) fun r₄ hreferences => ?_
  -- the checks under way are the same after it as before
  have hcosts : r₁.costs r₂ := by
    rcases check_declared_cases hdialect with ⟨-, rfl⟩ | ⟨text, -, hc⟩
    · exact .refl _
    · exact hcheckcosts _ _ _ hc
  have hactive₄ : r₄.active_dialects_ = checks.map link.key := by
    rw [(add_references_costs hreferences).1, (add_anchors_costs hanchors).active, hcosts.active,
      hactive₁]
  have hapart₄ : r₄.apart K := by
    unfold registration.apart
    rw [hactive₄, add_references_checked hreferences, add_anchors_checked hanchors, ← hactive₁,
      ← hcosts.active]
    exact hapart₂
  refine .imp (I := fun s : registration uri order converted =>
    s.apart K ∧ s.active_dialects_ = checks.map link.key) ?_ fun _ h => h.1
  -- the objects below, one after the other, each from the state the last one left
  refine .foldlM (I := fun _ (s : registration uri order converted) =>
    s.apart K ∧ s.active_dialects_ = checks.map link.key) ?_ ⟨hapart₄, hactive₄⟩
  rintro child rest s ⟨haparts, hactives⟩ hlog
  obtain ⟨hshadows, hnext⟩ := hinspect child inner checks s hbelow hactives haparts hlog
  refine ⟨hshadows, fun t ht => ⟨hnext t ht, ?_⟩⟩
  exact (hinspectcosts _ _ _ _ ht).active.trans hactives

/-- A resource that is registered is returned in both runs; a document is inspected in both. -/
theorem load_resource_mirrors (hinspect : inspect_mirrors lib catalog K d depth) :
    load_mirrors lib catalog K d (depth + 1) := by
  intro key checks r hbelow hactive hapart
  rw [load_resource_refusals, load_resource, load_resource]
  have hfind : (r.also K).find lib key = r.find lib key := rfl
  rw [hfind]
  refine .value fun found _ => ?_
  cases found with
  | some entry =>
      refine .same rfl ?_
      rintro loaded ⟨⟩
      exact hapart
  | none =>
  cases catalog.lookup key with
  | none => exact .raised
  | some value =>
  dsimp only
  refine .value fun _ _ => ?_
  refine .value fun u _ => ?_
  refine .value fun document _ => ?_
  have hmirrors := hinspect ⟨⟨.catalog key, []⟩, value⟩ key checks
    { r with
      resources_ := emplace r.resources_ (lib.compared u) ⟨⟨⟨.catalog key, []⟩, value⟩, key⟩
      converted_ := emplace r.converted_ key document } hbelow hactive hapart
  refine .after hmirrors fun t _ hapartt => ⟨rfl, ?_⟩
  rintro loaded ⟨⟩
  exact hapartt

variable (lib catalog d) in
/-- The three functions at every depth. At depth zero both runs throw the same error. -/
theorem recursion_mirrors (hK : K ≠ draft202012) (depth : Nat) :
    check_mirrors lib catalog K d depth ∧ inspect_mirrors lib catalog K d depth ∧
      load_mirrors lib catalog K d depth := by
  induction depth with
  | zero =>
      refine ⟨?_, ?_, ?_⟩
      · intro identifier declaration checks r _ _ _ _
        rw [check_dialect, check_dialect]
        exact .raised
      · intro schema base checks r _ _ _
        rw [inspect, inspect]
        exact .raised
      · intro key checks r _ _ _
        rw [load_resource, load_resource]
        exact .raised
  | succ depth ih =>
      obtain ⟨hcheck, hinspect, hload⟩ := ih
      exact ⟨check_dialect_mirrors hK hload hcheck, inspect_step_mirrors hcheck hinspect,
        load_resource_mirrors hinspect⟩

end Mirror

/-! ## Between two references

References are followed one by one, with nothing active between them. That is where a resource
may be reached by a reference that could as well have been reached as a dialect, and the
verdicts are compared in such a state.

`visits` is the run of the constructor up to a reference: the root has been inspected and the
references before the index have been answered. In these states `active_dialects_` is empty, so
the state with one key active is the one the check goes on in, and the comparison can begin. -/

section Visits

variable {uri order converted : Type} [DecidableEq order]

/-- The states at the references of a run of the constructor, by the index of the next. -/
inductive registration.visits (lib : schema_library uri order converted) (root : json)
    (catalog : schema_catalog) : Nat → registration uri order converted → Prop
  | inspected {u r} : validate_schema lib root = .ok () →
      lib.parse lib.default_base_uri = some u →
      inspect lib catalog (4 * objects_in root catalog + 2) ⟨⟨.root, []⟩, root⟩
        lib.default_base_uri (.start lib root u) = .ok r →
      visits lib root catalog 0 r
  | answered {index r u t} : visits lib root catalog index r →
      r.references_[index]? = some u →
      inspect_reference lib catalog (4 * objects_in root catalog + 2) u r = .ok t →
      visits lib root catalog (index + 1) t

variable {lib : schema_library uri order converted} {root : json} {catalog : schema_catalog}
  {depth index : Nat} {r t : registration uri order converted} {identifier key : String} {u : uri}

/-- Nothing is being checked there: the tables are well formed with nothing pending, and no
dialect is active. -/
theorem registration.visits.idle (h : registration.visits lib root catalog index r) :
    r.wf lib root catalog none ∧ r.active_dialects_ = [] := by
  induction h with
  | @inspected u r hvalid hu hinspect =>
      obtain ⟨-, hspec, -⟩ := recursion_spec lib root catalog (4 * objects_in root catalog + 2)
      obtain ⟨-, hcosts, -⟩ := recursion_costs lib catalog (4 * objects_in root catalog + 2)
      obtain ⟨-, hwf, -⟩ := hspec _ _ _ _ _ (wf_start u) (by rintro p ⟨⟩; exact ⟨rfl, rfl⟩)
        (@genuine_document _ _ .root _ rfl) nofun hinspect
      exact ⟨hwf, (hcosts _ _ _ _ hinspect).active⟩
  | answered hvisits hu hinspect ih =>
      obtain ⟨-, hwf, -⟩ := inspect_reference_spec ih.1 hinspect
      obtain ⟨-, hcosts⟩ := inspect_reference_finishes ih.1 ih.2 (le_refl _)
      exact ⟨hwf, (hcosts _ hinspect).active.trans ih.2⟩

/-- A resource that is new is refused as a dialect exactly if it is refused as a reference,
where the dialect is met again along the tops of the resources. -/
theorem verdict_same (hvisits : registration.visits lib root catalog index r)
    (hu : lib.parse identifier = some u) (hnamed : dialect_named lib identifier = some key)
    (hdraft : key ≠ draft202012) (hbuiltin : lib.builtin_resources.lookup key = none)
    (hnew : r.find lib key = .ok none) (hdepth : 4 * objects_in root catalog + 2 ≤ depth)
    {d : schema_ref}
    (htops : ∀ n ∈ check_dialect_refusals lib catalog (depth + 1) identifier d [] r,
      n.at_tops lib) :
    check_dialect lib catalog (depth + 1) identifier r = .error cyclic ↔
      inspect_reference lib catalog depth u r = .error cyclic := by
  obtain ⟨hwf, hactive⟩ := hvisits.idle
  have hkey : resource_key lib u = key ∧ lib.fragment u = "" := by
    obtain ⟨v, hv, hsupported, hkey⟩ := dialect_named_eq_some.mp hnamed
    rw [hu, Option.some.injEq] at hv
    subst hv
    simp only [Bool.or_eq_true, Bool.not_eq_true', decide_eq_true_eq, not_or, Bool.not_eq_false,
      Decidable.not_not] at hsupported
    exact ⟨hkey, hsupported.2⟩
  have hreference : inspect_reference lib catalog depth u r =
      (load_resource lib catalog depth key r).map Prod.snd := by
    unfold inspect_reference
    dsimp only
    rw [hkey.1, hbuiltin, if_neg (by simp), hkey.2]
    cases load_resource lib catalog depth key r with
    | error e => rfl
    | ok loaded => rfl
  -- a dialect that is checked has a resource
  have hchecked : key ∉ r.checked_dialects_ := by
    intro hmem
    obtain ⟨v, entry, -, hv, hentry, -⟩ := hwf.checked key hmem
    obtain ⟨v', hv', hnone⟩ := find_eq_ok hnew
    obtain rfl := Option.some.inj (hv.symm.trans hv')
    rw [hnone] at hentry
    cases hentry
  have hdone : ¬(key = draft202012 ∨ key ∈ r.checked_dialects_) := not_or.mpr ⟨hdraft, hchecked⟩
  have hinactive : key ∉ r.active_dialects_ := by
    rw [hactive]
    exact List.not_mem_nil
  have hapart : r.apart key := by
    refine ⟨hchecked, ?_⟩
    rw [hactive]
    exact nofun
  -- with nothing active, the state in the check is the one with `key` beside the empty list
  have halso : r.also key = { r with active_dialects_ := key :: r.active_dialects_ } := by
    unfold registration.also
    rw [hactive]
    rfl
  obtain ⟨-, -, hload⟩ := recursion_mirrors lib catalog d hdraft depth
  rw [check_named_refusals hnamed, if_neg hdone, if_neg hinactive, List.forall_mem_append]
    at htops
  obtain ⟨hshadows, -⟩ := hload key [] r nofun hactive hapart (halso ▸ htops.1)
  rw [halso] at hshadows
  -- the depth is enough, so the run that goes round ends in the cycle
  have hfinishes : load_resource lib catalog depth key r ≠ .error .unfinished := by
    obtain ⟨-, -, hfinishes⟩ := recursion_finishes lib root catalog depth
    have hroom : room root catalog r ≤ 2 * objects_in root catalog := room_le
    exact hfinishes key r hwf (within_of_none hactive) (by omega)
  rw [hreference, check_named hnamed, if_neg hdone, if_neg hinactive]
  cases hy : load_resource lib catalog depth key r with
  | error e =>
      rw [hy] at hshadows hfinishes
      rcases hshadows with hx | ⟨e₁, e₂, hx, he, rfl, hlost⟩
      · rw [hx]
        exact ⟨fun h => congrArg Except.error (Except.error.inj h),
          fun h => congrArg Except.error (Except.error.inj h)⟩
      · cases he
        rcases hlost with rfl | rfl
        · rw [hx]
          exact ⟨fun _ => rfl, fun _ => rfl⟩
        · exact absurd rfl hfinishes
  | ok loaded =>
      obtain ⟨document, t⟩ := loaded
      rw [hy] at hshadows
      rcases hshadows with hx | ⟨e₁, e₂, -, he, -⟩
      · refine ⟨fun h => ?_, nofun⟩
        rw [hx] at h
        change (match document.value.find? "$schema" with
          | none => _
          | some declared => _) = _ at h
        cases hschema : document.value.find? "$schema" with
        | none =>
            rw [hschema] at h
            exact absurd (Except.error.inj h) (by decide)
        | some declared =>
            rw [hschema] at h
            obtain ⟨text, htext⟩ : ∃ text, declared = .string text := by
              cases declared with
              | string text => exact ⟨text, rfl⟩
              | _ => cases h
            subst htext
            -- what the document declares was checked when it was loaded
            obtain ⟨next, hnext, hnextdone⟩ := checked_of_load hwf hnew hy hschema
            obtain ⟨depth, rfl⟩ : ∃ n, depth = n + 1 := ⟨depth - 1, by omega⟩
            have hcheck : check_dialect lib catalog (depth + 1) text (t.also key) =
                .ok (t.also key) := by
              rw [check_named hnext]
              exact if_pos hnextdone
            change (check_dialect lib catalog (depth + 1) text (t.also key) >>= _) = _ at h
            rw [hcheck] at h
            cases h
      · cases he

variable (lib root catalog) in
/-- The constructor throws for a cyclic dialect where one is met again, and rightly so exactly
where each is met along the tops of the resources. Under the same condition the verdict on a new
resource is the same for a reference to it and for a declaration that names it. -/
theorem dialect_cycles :
    (registration.make lib root catalog = .error cyclic ↔
      registration.make_refusals lib catalog root ≠ []) ∧
    ((registration.make lib root catalog = .error cyclic →
        ∀ n ∈ registration.make_refusals lib catalog root, n.deserved lib catalog) ↔
      ∀ n ∈ registration.make_refusals lib catalog root, n.at_tops lib) ∧
    ∀ (index depth : Nat) (r : registration uri order converted) (u : uri)
      (identifier key : String) (d : schema_ref),
      registration.visits lib root catalog index r → lib.parse identifier = some u →
      dialect_named lib identifier = some key → key ≠ draft202012 →
      lib.builtin_resources.lookup key = none → r.find lib key = .ok none →
      4 * objects_in root catalog + 2 ≤ depth →
      (∀ n ∈ check_dialect_refusals lib catalog (depth + 1) identifier d [] r, n.at_tops lib) →
      (check_dialect lib catalog (depth + 1) identifier r = .error cyclic ↔
        inspect_reference lib catalog depth u r = .error cyclic) := by
  obtain ⟨hraised, hsound⟩ := make_reports lib root catalog
  refine ⟨hraised, ⟨?_, ?_⟩, ?_⟩
  · intro hdeserved n hn
    have hthrown := hraised.mpr (List.ne_nil_of_mem hn)
    exact (hsound n hn).deserved_iff.mp (hdeserved hthrown n hn)
  · intro htops _ n hn
    exact (hsound n hn).deserved_iff.mpr (htops n hn)
  · intro index depth r u identifier key d hvisits hu hnamed hdraft hbuiltin hnew hdepth htops
    exact verdict_same hvisits hu hnamed hdraft hbuiltin hnew hdepth htops

end Visits

/-! ## A dialect with a definition in itself

The document of the dialect declares draft 2020-12, and a resource embedded in it declares the
dialect.

The embedded resource is an object below the top of the document, and its declaration is what
refuses the root. Nothing about the embedded resource depends on the dialect being checked: the
chain of the dialect's own declarations is one step long and ends at the draft. -/

namespace embedded_dialect

open tree_registration (lib)

/-- The URI of the dialect. -/
def meta_uri : String := "https://test.invalid/meta"

/-- A root that declares the dialect. -/
def declaring : json := .object [("$schema", .string meta_uri)]

/-- A root that refers to the document. -/
def referring : json := .object [("$ref", .string meta_uri)]

/-- The catalog with that document. -/
def catalog : schema_catalog :=
  [(meta_uri, .object
    [("$defs", .object
        [("tree", .object
          [("$id", .string "https://test.invalid/tree"), ("$schema", .string meta_uri)])]),
      ("$schema", .string draft202012)])]

/-- The object that names a dialect again is not the resource of the innermost check. -/
def apart (n : refusal tree_registration.parts String json) : Bool :=
  match n.checks with
  | [] => true
  | l :: _ =>
      match lib.parse l.key with
      | none => true
      | some u =>
          match n.state.resources_.lookup (lib.compared u) with
          | none => true
          | some entry => entry.value.place ≠ n.declaration.place

/-- Such a refusal is not along the tops, which asks that the object that names the dialect
again is the resource of the innermost check itself. -/
theorem not_at_tops {n : refusal tree_registration.parts String json} (h : apart n = true) :
    ¬n.at_tops lib := by
  intro htops
  unfold refusal.at_tops at htops
  unfold apart at h
  cases hchecks : n.checks with
  | nil =>
      rw [hchecks] at htops
      exact htops
  | cons l checks =>
      rw [hchecks] at htops h
      obtain ⟨⟨u, entry, hu, hentry, hvalue⟩, -⟩ := htops
      simp [hu, hentry, hvalue] at h

/-- A root that declares the dialect is refused, though the chain ends at draft 2020-12. A root
that refers to the same document is registered. -/
theorem dialect_cycles_embedded :
    registration.make lib declaring catalog = .error cyclic ∧
    (∀ n ∈ registration.make_refusals lib catalog declaring, ¬n.deserved lib catalog) ∧
    ∃ r, registration.make lib referring catalog = .ok r := by
  have hrefused : (registration.make lib declaring catalog).map (fun _ => ()) =
      .error cyclic := by decide +kernel
  have haccepted : (registration.make lib referring catalog).map (fun _ => ()) = .ok () := by
    decide +kernel
  have hapart : (registration.make_refusals lib catalog declaring).all apart = true := by
    decide +kernel
  refine ⟨?_, ?_, ?_⟩
  · cases hmake : registration.make lib declaring catalog with
    | error e =>
        rw [hmake] at hrefused
        exact congrArg Except.error (Except.error.inj hrefused)
    | ok r =>
        rw [hmake] at hrefused
        cases hrefused
  · intro n hn hdeserved
    have hsound := (make_reports lib declaring catalog).entries n hn
    exact not_at_tops (List.all_eq_true.mp hapart n hn) (hsound.deserved_iff.mp hdeserved)
  · cases hmake : registration.make lib referring catalog with
    | error e =>
        rw [hmake] at haccepted
        cases haccepted
    | ok r => exact ⟨r, rfl⟩

end embedded_dialect

end SynapseMcp.schema_backend
