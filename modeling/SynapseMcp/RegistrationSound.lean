/-
What a registration that returns has established.

Each of the functions that call each other covers what it marks, keeps `registration.wf`
and establishes its own answer; the three hold together, by induction on the depth. What
an object asks for (`registration.settled`) only the end of its own call provides, so the
objects being inspected are marked without being settled. The loop over the references
finds nothing half inspected.
-/
import SynapseMcp.RegistrationTables

set_option autoImplicit false

namespace SynapseMcp.schema_backend

open Traversal

section Inversion

variable {uri order converted : Type} [DecidableEq order]
variable {lib : schema_library uri order converted} {catalog : schema_catalog} {depth : Nat}
  {r t : registration uri order converted} {schema : schema_ref} {base key name : String}

/-! ## What a call that returned went through

Each function is read backwards once: from a call that returned to the values it went through,
with the state at each of them. The induction below works with these, and the bodies are not
unfolded again. The errors are all gone by then; what is left are the checks that were passed.

For `inspect` there are five of these states: behind the entry with its `$id`, the dialect, the
anchors, the references and the subschemas. The vocabularies are checked and leave nothing. -/

/-- A lookup that returned parsed its key, and found what the table has under it. -/
theorem find_eq_ok {found : Option resource} (h : r.find lib key = .ok found) :
    ∃ u, lib.parse key = some u ∧ r.resources_.lookup (lib.compared u) = found := by
  obtain ⟨u, hu, hfound⟩ := bind_eq_ok.mp h
  exact ⟨u, got_eq_ok.mp hu, Except.ok.inj hfound⟩

/-- The dialect is absolute and without a fragment. It is the draft, or checked already; or its
document was loaded with the dialect active, and the dialect of the document checked. -/
theorem check_dialect_cases {identifier : String}
    (h : check_dialect lib catalog (depth + 1) identifier r = .ok t) :
    ∃ u, lib.parse identifier = some u ∧ lib.is_absolute u = true ∧ lib.fragment u = "" ∧
      ((resource_key lib u = draft202012 ∨ resource_key lib u ∈ r.checked_dialects_) ∧ t = r ∨
        ∃ document r₁ text r₂,
          load_resource lib catalog depth (resource_key lib u)
            { r with active_dialects_ := resource_key lib u :: r.active_dialects_ } =
              .ok (document, r₁) ∧
          document.value.find? "$schema" = some (.string text) ∧
          check_dialect lib catalog depth text r₁ = .ok r₂ ∧
          t = { r₂ with
            active_dialects_ := r₂.active_dialects_.erase (resource_key lib u)
            checked_dialects_ := resource_key lib u :: r₂.checked_dialects_ }) := by
  rw [check_dialect] at h
  obtain ⟨u, hu, h⟩ := bind_eq_ok.mp h
  split at h
  · cases h
  rename_i hsupported
  simp only [Bool.or_eq_true, Bool.not_eq_true', decide_eq_true_eq, not_or, Bool.not_eq_false,
    Decidable.not_not] at hsupported
  refine ⟨u, got_eq_ok.mp hu, hsupported.1, hsupported.2, ?_⟩
  dsimp only at h
  split at h
  · rename_i hdone
    exact .inl ⟨hdone, (Except.ok.inj h).symm⟩
  -- no dialect is active twice: a cycle is refused here
  split at h
  · cases h
  obtain ⟨⟨document, r₁⟩, hload, h⟩ := bind_eq_ok.mp h
  dsimp only at h
  split at h
  · cases h
  rename_i declared hdeclared
  obtain ⟨text, htext, h⟩ := bind_eq_ok.mp h
  obtain ⟨r₂, hcheck, h⟩ := bind_eq_ok.mp h
  rw [get_string_eq_ok.mp htext] at hdeclared
  exact .inr ⟨document, r₁, text, r₂, hload, hdeclared, hcheck, (Except.ok.inj h).symm⟩

omit [DecidableEq order] in
/-- An object that declares a dialect has had it checked. -/
theorem check_declared_cases
    {check : String → registration uri order converted →
      Except registration_error (registration uri order converted)} {value : json}
    (h : check_declared check value r = .ok t) :
    value.find? "$schema" = none ∧ t = r ∨
      ∃ text, value.find? "$schema" = some (.string text) ∧ check text r = .ok t := by
  unfold check_declared at h
  split at h
  · rename_i hnone
    exact .inl ⟨hnone, (Except.ok.inj h).symm⟩
  · rename_i declared hdeclared
    obtain ⟨text, htext, hcheck⟩ := bind_eq_ok.mp h
    rw [get_string_eq_ok.mp htext] at hdeclared
    exact .inr ⟨text, hdeclared, hcheck⟩

/-- The value was no object or was inspected already; or it was entered, and its dialect, its
vocabularies, anchors, references and subschemas were gone through in this order. -/
theorem inspect_cases (h : inspect lib catalog (depth + 1) schema base r = .ok t) :
    (schema.value.is_object = false ∨ r.inspected schema = true) ∧ t = r ∨
      schema.value.is_object = true ∧ r.inspected schema = false ∧
        ∃ inner r₁ r₂ r₃ r₄, schema_base lib schema.value base = .ok inner ∧
          register_id lib schema inner (r.mark schema base) = .ok r₁ ∧
          (schema.value.find? "$schema" = none ∧ r₂ = r₁ ∨
            ∃ text, schema.value.find? "$schema" = some (.string text) ∧
              check_dialect lib catalog depth text r₁ = .ok r₂) ∧
          check_vocabularies schema.value = .ok () ∧
          ["$anchor", "$dynamicAnchor"].foldlM
            (fun r name => add_anchor lib schema inner name r) r₂ = .ok r₃ ∧
          ["$ref", "$dynamicRef"].foldlM
            (fun r name => add_reference lib schema inner name r) r₃ = .ok r₄ ∧
          (subschemas schema).foldlM
            (fun r child => inspect lib catalog depth child inner r) r₄ = .ok t := by
  rw [inspect] at h
  split at h
  · rename_i hdone
    simp only [Bool.or_eq_true, Bool.not_eq_true'] at hdone
    exact .inl ⟨hdone, (Except.ok.inj h).symm⟩
  rename_i hnew
  simp only [Bool.or_eq_true, Bool.not_eq_true', not_or, Bool.not_eq_false,
    Bool.not_eq_true] at hnew
  obtain ⟨inner, hbase, h⟩ := bind_eq_ok.mp h
  obtain ⟨r₁, hid, h⟩ := bind_eq_ok.mp h
  obtain ⟨r₂, hdialect, h⟩ := bind_eq_ok.mp h
  obtain ⟨⟨⟩, hvocabulary, h⟩ := bind_eq_ok.mp h
  obtain ⟨r₃, hanchors, h⟩ := bind_eq_ok.mp h
  obtain ⟨r₄, hreferences, h⟩ := bind_eq_ok.mp h
  exact .inr ⟨hnew.1, hnew.2, inner, r₁, r₂, r₃, r₄, hbase, hid, check_declared_cases hdialect,
    hvocabulary, hanchors, hreferences, h⟩

/-- The document was found under its key; or it was in the catalog and valid, was put into the
tables, and its root was inspected. -/
theorem load_resource_cases {document : schema_ref}
    (h : load_resource lib catalog (depth + 1) key r = .ok (document, t)) :
    ∃ u, lib.parse key = some u ∧
      ((∃ entry, r.resources_.lookup (lib.compared u) = some entry ∧ document = entry.value ∧
          t = r) ∨
        r.resources_.lookup (lib.compared u) = none ∧
          ∃ value converted, catalog.lookup key = some value ∧ lib.convert value = some converted ∧
            document = ⟨⟨.catalog key, []⟩, value⟩ ∧ validate_schema lib value = .ok () ∧
            inspect lib catalog depth document key
              { r with
                resources_ := emplace r.resources_ (lib.compared u) ⟨document, key⟩
                converted_ := emplace r.converted_ key converted } = .ok t) := by
  rw [load_resource] at h
  obtain ⟨found, hfound, h⟩ := bind_eq_ok.mp h
  obtain ⟨u, hu, hlookup⟩ := find_eq_ok hfound
  refine ⟨u, hu, ?_⟩
  split at h
  · rename_i entry
    cases h
    exact .inl ⟨entry, hlookup, rfl, rfl⟩
  split at h
  · cases h
  rename_i value hvalue
  obtain ⟨⟨⟩, hvalid, h⟩ := bind_eq_ok.mp h
  dsimp only at h
  obtain ⟨u', hu', h⟩ := bind_eq_ok.mp h
  obtain ⟨document', hconvert, h⟩ := bind_eq_ok.mp h
  obtain ⟨r₁, hinspect, h⟩ := bind_eq_ok.mp h
  have hsame : u' = u := Option.some.inj ((got_eq_ok.mp hu').symm.trans hu)
  subst hsame
  cases h
  exact .inr ⟨hlookup, value, document', hvalue, got_eq_ok.mp hconvert, rfl, hvalid, hinspect⟩

/-- A reference leads to a bundled resource; or its document was loaded, and its fragment is
empty, or names an anchor there, or is a pointer to a value that was inspected. -/
theorem inspect_reference_cases {u : uri}
    (h : inspect_reference lib catalog depth u r = .ok t) :
    (lib.builtin_resources.lookup (resource_key lib u)).isSome ∧ t = r ∨
      ∃ document r₁, load_resource lib catalog depth (resource_key lib u) r = .ok (document, r₁) ∧
        (lib.fragment u = "" ∧ t = r₁ ∨
          ∃ v entry, lib.parse (resource_key lib u) = some v ∧
            r₁.resources_.lookup (lib.compared v) = some entry ∧ lib.fragment u ≠ "" ∧
            ((lib.fragment u).toList.head? ≠ some '/' ∧
                (∃ anchor, lib.parse (entry.base ++ "#" ++ lib.fragment u) = some anchor ∧
                  (r₁.anchors_.lookup (lib.compared anchor)).isSome) ∧ t = r₁ ∨
              (lib.fragment u).toList.head? = some '/' ∧
                ∃ target, document.at_pointer (lib.fragment u) = some target ∧
                  (r₁.inspected target = true ∧ t = r₁ ∨
                    r₁.inspected target = false ∧ validate_schema lib target.value = .ok () ∧
                      inspect lib catalog depth target entry.base r₁ = .ok t))) := by
  unfold inspect_reference at h
  dsimp only at h
  split at h
  · rename_i hbuiltin
    exact .inl ⟨hbuiltin, (Except.ok.inj h).symm⟩
  obtain ⟨⟨document, r₁⟩, hload, h⟩ := bind_eq_ok.mp h
  refine .inr ⟨document, r₁, hload, ?_⟩
  dsimp only at h
  split at h
  · rename_i hempty
    exact .inl ⟨hempty, (Except.ok.inj h).symm⟩
  rename_i hfragment
  -- the fragment is resolved against the base of the document just loaded
  obtain ⟨found, hfind, h⟩ := bind_eq_ok.mp h
  obtain ⟨entry, hentry, h⟩ := bind_eq_ok.mp h
  obtain ⟨v, hv, hlookup⟩ := find_eq_ok hfind
  rw [got_eq_ok.mp hentry] at hlookup
  refine .inr ⟨v, entry, hv, hlookup, hfragment, ?_⟩
  split at h
  -- without a slash it names an anchor, which must be registered
  · rename_i hslash
    obtain ⟨anchor, hanchor, h⟩ := bind_eq_ok.mp h
    split at h
    · cases h
    · rename_i hregistered
      refine .inl ⟨hslash, ⟨anchor, got_eq_ok.mp hanchor, ?_⟩, (Except.ok.inj h).symm⟩
      simpa [Option.isSome_iff_ne_none] using hregistered
  -- a pointer: its target is inspected unless it was before
  · rename_i hslash
    obtain ⟨target, htarget, h⟩ := bind_eq_ok.mp h
    refine .inr ⟨by simpa using hslash, target, got_eq_ok.mp htarget, ?_⟩
    split at h
    · rename_i hmarked
      exact .inl ⟨hmarked, (Except.ok.inj h).symm⟩
    · rename_i hmarked
      obtain ⟨⟨⟩, hvalid, h⟩ := bind_eq_ok.mp h
      exact .inr ⟨by simpa using hmarked, hvalid, h⟩

/-- Every entry of the vocabularies is a boolean, and those that are required are supported. -/
theorem check_vocabularies_ok {value : json} (h : check_vocabularies value = .ok ())
    {entries : json} (hentries : value.find? "$vocabulary" = some entries) :
    ∀ entry ∈ json.items entries, ∃ required, entry.2 = .boolean required ∧
      (required = true → supported_vocabulary entry.1 = true) := by
  rw [check_vocabularies, hentries] at h
  have hall : ∀ items : List (String × json), items.forM check_vocabulary = .ok () →
      ∀ entry ∈ items, check_vocabulary entry = .ok () := by
    intro items
    induction items with
    | nil => simp
    | cons first rest ih =>
        intro hitems
        obtain ⟨⟨⟩, hfirst, hrest⟩ := bind_eq_ok.mp hitems
        rw [List.forall_mem_cons]
        exact ⟨hfirst, ih hrest⟩
  intro entry hentry
  have hcheck := hall _ h entry hentry
  unfold check_vocabulary at hcheck
  split at hcheck
  · rename_i required hrequired
    refine ⟨required, hrequired, fun htrue => ?_⟩
    subst htrue
    by_contra hsupported
    rw [if_pos (by simpa using hsupported)] at hcheck
    cases hcheck
  · cases hcheck

end Inversion

/-! ## What an inspected object asks for

What an object names is there: its `$id` leads to it, its dialect leads to the draft, its
anchors and references are in the tables, and its subschemas are inspected under the base it has
inside. All of this only grows, so it is enough to have it once. The traversal of the objects is
that of `Traversal`: what an object asks for is settled by the end of its own call, and the
calls in between may leave it open.

A base is part of what is asked for. The same object asks for other things under another base,
since its anchors and references are resolved against it; so an inspection is an object with a
base. An object is inspected once, by its place, so that one base is all it has to be settled
for. -/

section Settled

variable {uri order converted : Type} [DecidableEq order]

/-- What the object asks for under the base it has inside. -/
structure registration.provides (lib : schema_library uri order converted)
    (r : registration uri order converted) (schema : schema_ref) (inner : String) : Prop where
  subschemas : ∀ child ∈ subschemas schema, child.value.is_object = true →
    ∃ n ∈ r.inspected_, n.schema = child
  dialect : ∀ value, schema.value.find? "$schema" = some value →
    ∃ identifier, value = .string identifier ∧ reaches_draft lib r identifier
  vocabularies : ∀ value, schema.value.find? "$vocabulary" = some value →
    ∀ entry ∈ json.items value, ∃ required, entry.2 = .boolean required ∧
      (required = true → supported_vocabulary entry.1 = true)
  anchors : ∀ name ∈ ["$anchor", "$dynamicAnchor"], ∀ value,
    schema.value.find? name = some value → ∃ text u, value = .string text ∧
      lib.parse (inner ++ "#" ++ text) = some u ∧
      (r.anchors_.lookup (lib.compared u)).isSome
  references : ∀ name ∈ ["$ref", "$dynamicRef"], ∀ value,
    schema.value.find? name = some value → ∃ outer text u, lib.parse inner = some outer ∧
      value = .string text ∧ lib.parse text = some u ∧ lib.resolve outer u ∈ r.references_

/-- The object was inspected, and what it asks for under its base is there. -/
def registration.settled (lib : schema_library uri order converted)
    (r : registration uri order converted) (n : inspection) : Prop :=
  ∃ inner, schema_base lib n.schema.value n.base = .ok inner ∧ r.provides lib n.schema inner

/-- What was there is there in a larger state: no step takes an inspected schema, an anchor, a
checked dialect or a reference back. -/
theorem registration.settled.mono {lib : schema_library uri order converted}
    {r t : registration uri order converted} {n : inspection} (h : r.settled lib n)
    (hle : r ≤ t) : t.settled lib n := by
  obtain ⟨inner, hbase, hp⟩ := h
  refine ⟨inner, hbase, ?_, ?_, hp.vocabularies, ?_, ?_⟩
  · intro child hchild hobject
    obtain ⟨m, hm, hschema⟩ := hp.subschemas child hchild hobject
    exact ⟨m, hle.inspected m hm, hschema⟩
  · intro value hvalue
    obtain ⟨identifier, heq, hreaches⟩ := hp.dialect value hvalue
    exact ⟨identifier, heq, hreaches.mono hle⟩
  · intro name hname value hvalue
    obtain ⟨text, u, heq, hu, hsome⟩ := hp.anchors name hname value hvalue
    exact ⟨text, u, heq, hu, hle.anchors _ hsome⟩
  · intro name hname value hvalue
    obtain ⟨outer, text, u, houter, heq, hu, hmem⟩ := hp.references name hname value hvalue
    exact ⟨outer, text, u, houter, heq, hu, hle.references.subset hmem⟩

/-- The traversal. -/
def inspections (lib : schema_library uri order converted) :
    Marking (registration uri order converted) inspection where
  marked r n := n ∈ r.inspected_
  settled r n := r.settled lib n
  settled_mono hle h := h.mono hle

/-- A step that inspects nothing has nothing to settle. -/
theorem covers_of_same {lib : schema_library uri order converted}
    {r t : registration uri order converted} (hle : r ≤ t) (h : t.inspected_ = r.inspected_) :
    Covers (inspections lib) r t := by
  refine .of_grows hle fun n hn => ?_
  change n ∈ t.inspected_ at hn
  rw [h] at hn
  exact hn

end Settled

/-! ## The functions that call each other

Three statements, one for each function: the state stays well formed, what the call inspected is
settled, and the call has its own answer, which is that the dialect leads to the draft, that the
object was inspected, or that the document has an entry under its key. An object that had been
marked before and is still being inspected is the caller's to settle. -/

section Recursion

variable {uri order converted : Type} [DecidableEq order]
variable (lib : schema_library uri order converted) (root : json) (catalog : schema_catalog)

/-- The answer of a dialect that was checked: its declarations end at draft 2020-12. -/
def check_spec (depth : Nat) : Prop :=
  ∀ identifier r t, r.wf lib root catalog none →
    check_dialect lib catalog depth identifier r = .ok t →
    Covers (inspections lib) r t ∧ t.wf lib root catalog none ∧ reaches_draft lib t identifier

/-- The answer of an object that was inspected: it is in the tables, and under the base of the
call unless it had been there before. -/
def inspect_spec (depth : Nat) : Prop :=
  ∀ schema base pending r t, r.wf lib root catalog pending →
    (∀ p ∈ pending, p = ⟨schema, base⟩ ∧ r.inspected schema = false) →
    genuine root catalog schema → r.loaded lib schema.place →
    inspect lib catalog depth schema base r = .ok t →
    Covers (inspections lib) r t ∧ t.wf lib root catalog none ∧
      (schema.value.is_object = true → ∃ n ∈ t.inspected_, n.schema = schema ∧
        (r.inspected schema = false → n.base = base))

/-- The answer of a document that was loaded: there is an entry under its key. -/
def load_spec (depth : Nat) : Prop :=
  ∀ key r document t, r.wf lib root catalog none →
    load_resource lib catalog depth key r = .ok (document, t) →
    Covers (inspections lib) r t ∧ t.wf lib root catalog none ∧
      ∃ u entry, lib.parse key = some u ∧ t.resources_.lookup (lib.compared u) = some entry ∧
        entry.value = document

variable {lib root catalog} {depth : Nat}

/-- The document declares the next dialect on the way to the draft; its own key goes into the
checked ones when the rest of the way has been gone. -/
theorem check_dialect_step (hload : load_spec lib root catalog depth)
    (hcheck : check_spec lib root catalog depth) : check_spec lib root catalog (depth + 1) := by
  intro identifier r t hwf h
  obtain ⟨u, hu, habsolute, hfragment, hdone | ⟨document, r₁, text, r₂, hl, hdeclared, hc, ht⟩⟩ :=
    check_dialect_cases h
  -- nothing to do: the draft itself, or a dialect that was checked
  · obtain ⟨hkey, rfl⟩ := hdone
    refine ⟨.refl _ _, hwf, ?_⟩
    rcases hkey with hdraft | hchecked
    · exact .draft hu habsolute hfragment hdraft
    · obtain ⟨v, entry, next, hv, hentry, hdeclared, hreaches⟩ := hwf.checked _ hchecked
      exact .declared hu habsolute hfragment hv hentry hdeclared hreaches
  -- the dialect becomes active, which no table shows
  · have hle₀ : r ≤ { r with active_dialects_ := resource_key lib u :: r.active_dialects_ } :=
      ⟨fun _ hn => hn, fun k entry hentry => ⟨entry, hentry, rfl, fun _ => rfl⟩, fun _ hk => hk,
        List.prefix_refl _⟩
    have hwf₀ := hwf.keep hle₀ rfl rfl rfl (fun _ he => .inl he) (fun _ hk => .inl hk)
    obtain ⟨hcovers₁, hwf₁, v, entry, hv, hentry, rfl⟩ := hload _ _ _ _ hwf₀ hl
    obtain ⟨hcovers₂, hwf₂, hreaches⟩ := hcheck _ _ _ hwf₁ hc
    have hle₂ : r₂ ≤ t := by
      subst ht
      exact ⟨fun _ hn => hn, fun k entry hentry => ⟨entry, hentry, rfl, fun _ => rfl⟩,
        fun _ hk => hk, List.prefix_refl _⟩
    obtain ⟨entry', hentry', hvalue, -⟩ := (hcovers₂.grows.trans hle₂).resources _ _ hentry
    have hdeclared' : entry'.value.value.find? "$schema" = some (.string text) := by
      rw [hvalue]
      exact hdeclared
    -- the rest of the way was gone by the check of the declared dialect
    have hchecked : t.checked lib (resource_key lib u) :=
      ⟨v, entry', text, hv, hentry', hdeclared', hreaches.mono hle₂⟩
    refine ⟨?_, ?_, .declared hu habsolute hfragment hv hentry' hdeclared' (hreaches.mono hle₂)⟩
    · exact (covers_of_same hle₀ rfl).trans
        (hcovers₁.trans (hcovers₂.trans (covers_of_same hle₂ (by rw [ht]))))
    · refine hwf₂.keep hle₂ (by rw [ht]) (by rw [ht]) (by rw [ht]) ?_ ?_
      · intro entry hmem
        rw [ht] at hmem
        exact .inl hmem
      · intro key hmem
        rw [ht] at hmem
        rcases List.mem_cons.mp hmem with rfl | hold
        · exact .inr hchecked
        · exact .inl hold

/-- The document stands in the tables, pending, until its root is entered; what the inspection
answers is then the answer of the load. -/
theorem load_resource_step (hinspect : inspect_spec lib root catalog depth) :
    load_spec lib root catalog (depth + 1) := by
  intro key r document t hwf h
  obtain ⟨u, hu, ⟨entry, hentry, rfl, rfl⟩ |
    ⟨hnone, value, converted, hvalue, hconvert, rfl, -, hi⟩⟩ := load_resource_cases h
  · exact ⟨.refl _ _, hwf, u, entry, hu, hentry, rfl⟩
  · obtain ⟨hwf', hle, hfresh, hloaded⟩ := hwf.load hu hnone hvalue hconvert rfl
    obtain ⟨hcovers, hwf'', -⟩ := hinspect _ _ _ _ _ hwf'
      (by rintro p ⟨⟩; exact ⟨rfl, hfresh⟩) (@genuine_document _ _ (.catalog key) _ hvalue)
      hloaded hi
    have hself : (emplace r.resources_ (lib.compared u) ⟨⟨⟨.catalog key, []⟩, value⟩, key⟩).lookup
        (lib.compared u) = some ⟨⟨⟨.catalog key, []⟩, value⟩, key⟩ := by
      rw [lookup_emplace, hnone, beq_self_eq_true, if_pos rfl]
      rfl
    obtain ⟨entry', hentry', hvalue', -⟩ := hcovers.grows.resources _ _ hself
    exact ⟨(Covers.of_grows hle fun _ hn => hn).trans hcovers, hwf'', u, entry', hu, hentry',
      hvalue'⟩

/-- The part of `inspect` between entering the object and going on to the ones below. -/
theorem inspect_object {schema : schema_ref} {base inner : String}
    {r₁ r₂ r₃ r₄ : registration uri order converted} (hcheck : check_spec lib root catalog depth)
    (hwf : r₁.wf lib root catalog none) (hmarked : (⟨schema, base⟩ : inspection) ∈ r₁.inspected_)
    (hbase : schema_base lib schema.value base = .ok inner)
    (hdialect : schema.value.find? "$schema" = none ∧ r₂ = r₁ ∨
      ∃ text, schema.value.find? "$schema" = some (.string text) ∧
        check_dialect lib catalog depth text r₁ = .ok r₂)
    (hanchors : ["$anchor", "$dynamicAnchor"].foldlM
      (fun r name => add_anchor lib schema inner name r) r₂ = .ok r₃)
    (hreferences : ["$ref", "$dynamicRef"].foldlM
      (fun r name => add_reference lib schema inner name r) r₃ = .ok r₄) :
    Covers (inspections lib) r₁ r₄ ∧ r₄.wf lib root catalog none ∧
      (∀ value, schema.value.find? "$schema" = some value →
        ∃ identifier, value = .string identifier ∧ reaches_draft lib r₄ identifier) ∧
      (∀ name ∈ ["$anchor", "$dynamicAnchor"], ∀ value, schema.value.find? name = some value →
        ∃ text u, value = .string text ∧ lib.parse (inner ++ "#" ++ text) = some u ∧
          (r₄.anchors_.lookup (lib.compared u)).isSome) ∧
      ∀ name ∈ ["$ref", "$dynamicRef"], ∀ value, schema.value.find? name = some value →
        ∃ outer text u, lib.parse inner = some outer ∧ value = .string text ∧
          lib.parse text = some u ∧ lib.resolve outer u ∈ r₄.references_ := by
  -- the dialect first: what it loads is covered by the checks of the documents it loads
  have hchecked : Covers (inspections lib) r₁ r₂ ∧ r₂.wf lib root catalog none ∧
      ∀ value, schema.value.find? "$schema" = some value →
        ∃ identifier, value = .string identifier ∧ reaches_draft lib r₂ identifier := by
    rcases hdialect with ⟨hnone, rfl⟩ | ⟨text, htext, hc⟩
    · exact ⟨.refl _ _, hwf, fun value hvalue => by rw [hnone] at hvalue; cases hvalue⟩
    · obtain ⟨hcovers, hwf₂, hreaches⟩ := hcheck _ _ _ hwf hc
      refine ⟨hcovers, hwf₂, fun value hvalue => ⟨text, ?_, hreaches⟩⟩
      exact Option.some.inj (hvalue.symm.trans htext)
  obtain ⟨hcovers₂, hwf₂, hreaches⟩ := hchecked
  -- then the anchors, which mark nothing: the inspected values stay the same
  obtain ⟨hcovers₃, ⟨hwf₃, -⟩, hregistered⟩ := Covers.foldlM (M := inspections lib)
    (P := fun s => s.wf lib root catalog none ∧ (⟨schema, base⟩ : inspection) ∈ s.inspected_)
    (Q := fun name s => ∀ value, schema.value.find? name = some value →
      ∃ text u, value = .string text ∧ lib.parse (inner ++ "#" ++ text) = some u ∧
        (s.anchors_.lookup (lib.compared u)).isSome)
    (fun name s t hle hq value hvalue => by
      obtain ⟨text, u, heq, hu, hsome⟩ := hq value hvalue
      exact ⟨text, u, heq, hu, hle.anchors _ hsome⟩)
    (fun name hname s t hs hadd => by
      obtain ⟨hwft, hle, hsame, hq⟩ := hs.1.add_anchor hs.2 hbase hname hadd
      exact ⟨covers_of_same hle hsame, ⟨hwft, hle.inspected _ hs.2⟩, hq⟩)
    ⟨hwf₂, hcovers₂.grows.inspected _ hmarked⟩ hanchors
  -- and the references, which are only recorded here
  obtain ⟨hcovers₄, hwf₄, hreferred⟩ := Covers.foldlM (M := inspections lib)
    (P := fun s => s.wf lib root catalog none)
    (Q := fun name s => ∀ value, schema.value.find? name = some value →
      ∃ outer text u, lib.parse inner = some outer ∧ value = .string text ∧
        lib.parse text = some u ∧ lib.resolve outer u ∈ s.references_)
    (fun name s t hle hq value hvalue => by
      obtain ⟨outer, text, u, houter, heq, hu, hmem⟩ := hq value hvalue
      exact ⟨outer, text, u, houter, heq, hu, hle.references.subset hmem⟩)
    (fun name _ s t hs hadd => by
      obtain ⟨hwft, hle, hsame, hq⟩ := hs.add_reference hadd
      exact ⟨covers_of_same hle hsame, hwft, hq⟩)
    hwf₃ hreferences
  -- what an earlier part established stays, since the tables only grow
  refine ⟨hcovers₂.trans (hcovers₃.trans hcovers₄), hwf₄, ?_, ?_, hreferred⟩
  · intro value hvalue
    obtain ⟨identifier, heq, h⟩ := hreaches value hvalue
    exact ⟨identifier, heq, h.mono (hcovers₃.grows.trans hcovers₄.grows)⟩
  · intro name hname value hvalue
    obtain ⟨text, u, heq, hu, hsome⟩ := hregistered name hname value hvalue
    exact ⟨text, u, heq, hu, hcovers₄.grows.anchors _ hsome⟩

/-- The object is settled by its own call: the part before the subschemas gives all but them,
and the loop over them gives the rest. -/
theorem inspect_step (hcheck : check_spec lib root catalog depth)
    (hinspect : inspect_spec lib root catalog depth) :
    inspect_spec lib root catalog (depth + 1) := by
  intro schema base pending r t hwf hpending hgenuine hloaded h
  rcases inspect_cases h with ⟨hdone, rfl⟩ | ⟨hobject, hnew, inner, r₁, r₂, r₃, r₄, hbase, hid,
    hdialect, hvocabulary, hanchors, hreferences, hchildren⟩
  · -- a document that is pending was not inspected, so it is no object
    refine ⟨.refl _ _, { hwf with homed := ?_ }, ?_⟩
    · intro entry hentry hobject
      refine .inl ((hwf.homed entry hentry hobject).resolve_right fun hpend => ?_)
      obtain ⟨hpair, hnew⟩ := hpending _ hpend
      rcases hdone with hvalue | hmarked
      · rw [show entry.2.value = schema from congrArg inspection.schema hpair, hvalue] at hobject
        cases hobject
      · rw [hnew] at hmarked
        cases hmarked
    · intro hobject
      rcases hdone with hvalue | hmarked
      · rw [hobject] at hvalue
        cases hvalue
      · obtain ⟨n, hn, heq⟩ := hwf.of_inspected hgenuine hmarked
        exact ⟨n, hn, heq, fun hnew => by rw [hnew] at hmarked; cases hmarked⟩
  · obtain ⟨hwf₁, hle₁, hinspected₁⟩ := hwf.enter (fun p hp => (hpending p hp).1) hobject hgenuine
      hloaded hnew hbase hid
    have hmarked : (⟨schema, base⟩ : inspection) ∈ r₁.inspected_ := by simp [hinspected₁]
    obtain ⟨hcovers₄, hwf₄, hreaches, hregistered, hreferred⟩ :=
      inspect_object hcheck hwf₁ hmarked hbase hdialect hanchors hreferences
    obtain ⟨hcovers, ⟨hwft, -⟩, hbelow⟩ := Covers.foldlM (M := inspections lib)
      (P := fun s => s.wf lib root catalog none ∧ s.loaded lib schema.place)
      (Q := fun child s => child.value.is_object = true → ∃ n ∈ s.inspected_, n.schema = child)
      (fun child s t hle hq hchild => by
        obtain ⟨n, hn, heq⟩ := hq hchild
        exact ⟨n, hle.inspected n hn, heq⟩)
      (fun child hchild s t hs hi => by
        have hinside := inside_subschemas root catalog hchild
        obtain ⟨hc, hwft, hobj⟩ := hinspect child inner none s t hs.1 none_pending
          (hinside.genuine hgenuine) (hs.2.of_document hinside.document) hi
        refine ⟨hc, ⟨hwft, hs.2.mono hc.grows⟩, fun hchild => ?_⟩
        obtain ⟨n, hn, heq, -⟩ := hobj hchild
        exact ⟨n, hn, heq⟩)
      ⟨hwf₄, hloaded.mono (hle₁.trans hcovers₄.grows)⟩ hchildren
    have hsettled : t.settled lib ⟨schema, base⟩ := by
      refine ⟨inner, hbase, hbelow, ?_, ?_, ?_, ?_⟩
      · intro value hvalue
        obtain ⟨identifier, heq, hr⟩ := hreaches value hvalue
        exact ⟨identifier, heq, hr.mono hcovers.grows⟩
      · intro value hvalue
        exact check_vocabularies_ok hvocabulary hvalue
      · intro name hname value hvalue
        obtain ⟨text, u, heq, hu, hsome⟩ := hregistered name hname value hvalue
        exact ⟨text, u, heq, hu, hcovers.grows.anchors _ hsome⟩
      · intro name hname value hvalue
        obtain ⟨outer, text, u, houter, heq, hu, hmem⟩ := hreferred name hname value hvalue
        exact ⟨outer, text, u, houter, heq, hu, hcovers.grows.references.subset hmem⟩
    have hall : Covers (inspections lib) r₁ t := hcovers₄.trans hcovers
    refine ⟨.visit (n := ⟨schema, base⟩) hle₁ ?_ hall hsettled, hwft, fun _ =>
      ⟨_, hall.grows.inspected _ hmarked, rfl, fun _ => rfl⟩⟩
    intro m hm
    have hm' : m ∈ r.inspected_ ++ [⟨schema, base⟩] := hinspected₁ ▸ hm
    rcases List.mem_append.mp hm' with hold | hlast
    · exact .inl hold
    · exact .inr (List.mem_singleton.mp hlast)

variable (lib root catalog) in
/-- All three specifications at any depth. At depth zero no call returns, and each step uses the
ones below it. -/
theorem recursion_spec (depth : Nat) : check_spec lib root catalog depth ∧
    inspect_spec lib root catalog depth ∧ load_spec lib root catalog depth := by
  induction depth with
  | zero =>
      refine ⟨?_, ?_, ?_⟩
      · intro identifier r t _ h
        rw [check_dialect] at h
        cases h
      · intro schema base pending r t _ _ _ _ h
        rw [inspect] at h
        cases h
      · intro key r document t _ h
        rw [load_resource] at h
        cases h
  | succ depth ih =>
      obtain ⟨hcheck, hinspect, hload⟩ := ih
      exact ⟨check_dialect_step hload hcheck, inspect_step hcheck hinspect,
        load_resource_step hinspect⟩

end Recursion

/-! ## The references

A reference is answered when the loop has come to it, and stays answered. The loop reads a list
that grows at its end, so the references before the index are the same in every later state.

To be answered is said in terms of the tables, not of the call that answered it. So it can be
read off the state the constructor ends in, however the reference got there and whichever round
it was that found the resource. -/

section References

variable {uri order converted : Type} [DecidableEq order]

/-- A reference leads to a bundled resource, or to one of `resources_`: to the whole of it, to
an anchor registered for its canonical base, or through a JSON Pointer to a value of it, which
was inspected if it is an object. -/
def registration.answered (lib : schema_library uri order converted)
    (r : registration uri order converted) (u : uri) : Prop :=
  (lib.builtin_resources.lookup (resource_key lib u)).isSome ∨
    ∃ v entry, lib.parse (resource_key lib u) = some v ∧
      r.resources_.lookup (lib.compared v) = some entry ∧
      (lib.fragment u = "" ∨
        (lib.fragment u).toList.head? ≠ some '/' ∧
          (∃ anchor, lib.parse (entry.base ++ "#" ++ lib.fragment u) = some anchor ∧
            (r.anchors_.lookup (lib.compared anchor)).isSome) ∨
        (lib.fragment u).toList.head? = some '/' ∧
          ∃ target, entry.value.at_pointer (lib.fragment u) = some target ∧
            (target.value.is_object = true → ∃ n ∈ r.inspected_, n.schema = target))

variable {lib : schema_library uri order converted} {root : json} {catalog : schema_catalog}
  {depth : Nat} {r t : registration uri order converted}

/-- What a reference leads to is there in a larger state, and where it was inspected it stays
so. -/
theorem registration.answered.mono {u : uri} (h : r.answered lib u)
    (hwf : r.wf lib root catalog none) (hle : r ≤ t) : t.answered lib u := by
  rcases h with hbuiltin | ⟨v, entry, hv, hentry, hfragment⟩
  · exact .inl hbuiltin
  obtain ⟨entry', hentry', hvalue, hbase⟩ := hle.resources _ _ hentry
  refine .inr ⟨v, entry', hv, hentry', ?_⟩
  rcases hfragment with hempty | ⟨hslash, anchor, hanchor, hsome⟩ | ⟨hslash, target, htarget, hobj⟩
  · exact .inl hempty
  · -- the object was inspected, so its base stays
    have hfixed : r.inspected entry.value = true ∨ entry.value.value.is_object = false := by
      rw [or_iff_not_imp_right, Bool.not_eq_false]
      intro hobject
      obtain ⟨n, hn, heq, -⟩ :=
        (hwf.homed _ (mem_resources hentry) hobject).resolve_right nofun
      exact inspected_iff.mpr ⟨n, hn, by rw [heq]⟩
    rw [← hbase hfixed] at hanchor
    exact .inr (.inl ⟨hslash, anchor, hanchor, hle.anchors _ hsome⟩)
  · rw [← hvalue] at htarget
    refine .inr (.inr ⟨hslash, target, htarget, fun hobject => ?_⟩)
    obtain ⟨n, hn, heq⟩ := hobj hobject
    exact ⟨n, hle.inspected n hn, heq⟩

/-- The round of a reference answers it, and settles whatever it inspects. -/
theorem inspect_reference_spec {u : uri} (hwf : r.wf lib root catalog none)
    (h : inspect_reference lib catalog depth u r = .ok t) :
    Covers (inspections lib) r t ∧ t.wf lib root catalog none ∧ t.answered lib u := by
  obtain ⟨-, hinspect, hload⟩ := recursion_spec lib root catalog depth
  rcases inspect_reference_cases h with ⟨hbuiltin, rfl⟩ | ⟨document, r₁, hl, hrest⟩
  · exact ⟨.refl _ _, hwf, .inl hbuiltin⟩
  obtain ⟨hcovers, hwf₁, v, entry, hv, hentry, rfl⟩ := hload _ _ _ _ hwf hl
  rcases hrest with ⟨hempty, rfl⟩ | ⟨v', entry', hv', hentry', -, hrest⟩
  · exact ⟨hcovers, hwf₁, .inr ⟨v, entry, hv, hentry, .inl hempty⟩⟩
  obtain rfl := Option.some.inj (hv.symm.trans hv')
  obtain rfl := Option.some.inj (hentry.symm.trans hentry')
  obtain ⟨hgenuine, hloaded⟩ := hwf₁.resources _ (mem_resources hentry)
  rcases hrest with ⟨hslash, hanchor, rfl⟩ | ⟨hslash, target, htarget, hrest⟩
  · exact ⟨hcovers, hwf₁, .inr ⟨v, entry, hv, hentry, .inr (.inl ⟨hslash, hanchor⟩)⟩⟩
  have hinside := inside_pointer root catalog htarget
  rcases hrest with ⟨hmarked, rfl⟩ | ⟨hnew, -, hi⟩
  · refine ⟨hcovers, hwf₁, .inr ⟨v, entry, hv, hentry, .inr (.inr ⟨hslash, target, htarget, ?_⟩)⟩⟩
    exact fun _ => hwf₁.of_inspected (hinside.genuine hgenuine) hmarked
  · obtain ⟨hcovers', hwft, hobj⟩ := hinspect _ _ none _ _ hwf₁ none_pending
      (hinside.genuine hgenuine) (hloaded.of_document hinside.document) hi
    obtain ⟨entry', hentry', hvalue, -⟩ := hcovers'.grows.resources _ _ hentry
    rw [← hvalue] at htarget
    refine ⟨hcovers.trans hcovers', hwft,
      .inr ⟨v, entry', hv, hentry', .inr (.inr ⟨hslash, target, htarget, fun hobject => ?_⟩)⟩⟩
    obtain ⟨n, hn, heq, -⟩ := hobj hobject
    exact ⟨n, hn, heq⟩

/-- What a list has at an index is what any list that goes on from it has there. -/
theorem prefix_getElem? {α : Type} {l l' : List α} (h : l <+: l') {i : Nat} (hi : i < l.length) :
    l'[i]? = l[i]? := by
  obtain ⟨rest, rfl⟩ := h
  exact List.getElem?_append_left hi

/-- The loop from an index on, when the references before it are answered. -/
theorem inspect_references_spec {steps index : Nat} (hwf : r.wf lib root catalog none)
    (hindex : index ≤ r.references_.length)
    (hanswered : ∀ i < index, ∀ u, r.references_[i]? = some u → r.answered lib u)
    (h : inspect_references lib catalog depth steps index r = .ok t) :
    Covers (inspections lib) r t ∧ t.wf lib root catalog none ∧
      ∀ u ∈ t.references_, t.answered lib u := by
  induction steps generalizing index r with
  | zero => cases h
  | succ steps ih =>
      rw [inspect_references] at h
      split at h
      · rename_i hend
        cases h
        refine ⟨.refl _ _, hwf, fun u hu => ?_⟩
        obtain ⟨i, hi⟩ := List.mem_iff_getElem?.mp hu
        have hlt : i < t.references_.length := (List.getElem?_eq_some_iff.mp hi).1
        rw [List.getElem?_eq_none_iff] at hend
        exact hanswered i (by omega) u hi
      · rename_i u hu
        obtain ⟨r₁, hfirst, h⟩ := bind_eq_ok.mp h
        obtain ⟨hcovers, hwf₁, hnew⟩ := inspect_reference_spec hwf hfirst
        have hlt : index < r.references_.length := (List.getElem?_eq_some_iff.mp hu).1
        have hlength := hcovers.grows.references.length_le
        obtain ⟨hcovers', hwft, hall⟩ := ih hwf₁ (by omega) (fun i hi u' hu' => by
          rw [prefix_getElem? hcovers.grows.references (by omega)] at hu'
          by_cases hlast : i = index
          · subst hlast
            obtain rfl := Option.some.inj (hu.symm.trans hu')
            exact hnew
          · exact (hanswered i (by omega) u' hu').mono hwf hcovers.grows) h
        exact ⟨hcovers.trans hcovers', hwft, hall⟩

end References

/-! ## The constructor

The constructor enters the root and then goes through the references. When it returns nothing is
half inspected, so every inspected object is settled; and everything the root leads to, by
subschemas and references, is inspected or bundled.

`accounts` is `provides` with the references answered, and not only listed: once the loop is
over both come to the same. Objects under unknown keywords are not among the subschemas, and a
pointer into them inspects what it leads to; such an object counts as inspected from then on. -/

section Constructor

variable {uri order converted : Type} [DecidableEq order]

/-- An object was inspected under a base: everything it names is there. -/
structure registration.accounts (lib : schema_library uri order converted)
    (r : registration uri order converted) (schema : schema_ref) (inner : String) : Prop where
  subschemas : ∀ child ∈ subschemas schema, child.value.is_object = true →
    ∃ n ∈ r.inspected_, n.schema = child
  references : ∀ name ∈ ["$ref", "$dynamicRef"], ∀ value,
    schema.value.find? name = some value → ∃ outer text u, lib.parse inner = some outer ∧
      value = .string text ∧ lib.parse text = some u ∧ r.answered lib (lib.resolve outer u)
  dialect : ∀ value, schema.value.find? "$schema" = some value →
    ∃ identifier, value = .string identifier ∧ reaches_draft lib r identifier
  vocabularies : ∀ value, schema.value.find? "$vocabulary" = some value →
    ∀ entry ∈ json.items value, ∃ required, entry.2 = .boolean required ∧
      (required = true → supported_vocabulary entry.1 = true)

/-- What a constructor that returned has established. -/
structure registration.sound (lib : schema_library uri order converted) (root : json)
    (catalog : schema_catalog) (r : registration uri order converted) : Prop where
  whole : root.is_object = true →
    (⟨⟨⟨.root, []⟩, root⟩, lib.default_base_uri⟩ : inspection) ∈ r.inspected_
  inspected : ∀ n ∈ r.inspected_, ∃ inner, schema_base lib n.schema.value n.base = .ok inner ∧
    r.accounts lib n.schema inner
  distinct : (r.inspected_.map fun n => n.schema.place).Nodup
  /-- The base of a resource is the one inside its object. -/
  canonical : ∀ entry ∈ r.resources_, entry.2.value.value.is_object = true → r.homed lib entry.2
  anchors : ∀ entry ∈ r.anchors_, r.anchored lib entry
  /-- Every document is the root or one of the catalog. -/
  documents : (∀ n ∈ r.inspected_, genuine root catalog n.schema) ∧
    ∀ entry ∈ r.resources_, genuine root catalog entry.2.value
  /-- What the compiler is given is bundled, or converted from one of these documents. -/
  resolved : ∀ u document, r.resolve lib u = .ok document →
    (∃ key, lib.builtin_resources.lookup key = some document) ∨
      (∃ schema, genuine root catalog schema ∧ lib.convert schema.value = some document) ∨
        document = lib.null

variable {lib : schema_library uri order converted} {root : json} {catalog : schema_catalog}
  {r : registration uri order converted}

/-- What a resolved URI gives to the validator is a bundled document, the conversion of a
document that the tables know, or null. -/
theorem registration.wf.resolved (h : r.wf lib root catalog none) {u : uri} {document : converted}
    (hu : r.resolve lib u = .ok document) :
    (∃ key, lib.builtin_resources.lookup key = some document) ∨
      (∃ schema, genuine root catalog schema ∧ lib.convert schema.value = some document) ∨
        document = lib.null := by
  unfold registration.resolve at hu
  dsimp only at hu
  split at hu
  · rename_i found hfound
    cases hu
    exact .inl ⟨_, hfound⟩
  split at hu
  · rename_i found hfound
    cases hu
    have hmem : (resource_key lib u, document) ∈ r.converted_ := by
      obtain ⟨l, l', heq, -⟩ := List.lookup_eq_some_iff.mp hfound
      rw [heq]
      exact List.mem_append_right _ List.mem_cons_self
    obtain ⟨value, hvalue, hconvert⟩ := h.converted _ hmem
    exact .inr (.inl ⟨_, @genuine_document _ _ (.catalog _) _ hvalue, hconvert⟩)
  · obtain ⟨found, hfind, hu⟩ := bind_eq_ok.mp hu
    obtain ⟨v, -, hlookup⟩ := find_eq_ok hfind
    split at hu
    · rename_i entry
      exact .inr (.inl ⟨_, (h.resources _ (mem_resources hlookup)).1, got_eq_ok.mp hu⟩)
    · cases hu
      exact .inr (.inr rfl)

/-- The tables the constructor starts from are well formed, with the root as the one object that
is pending. -/
theorem wf_start (u : uri) : (registration.start lib root u).wf lib root catalog
    (some ⟨⟨⟨.root, []⟩, root⟩, lib.default_base_uri⟩) := by
  refine ⟨List.nodup_nil, nofun, ?_, ?_, nofun, nofun, nofun⟩
  · intro entry hentry
    rw [List.mem_singleton.mp hentry]
    exact ⟨@genuine_document _ _ .root _ rfl, nofun⟩
  · intro entry hentry _
    rw [List.mem_singleton.mp hentry]
    exact .inr rfl

/-- A registration that returns has inspected everything the root leads to, with every
reference answered and every dialect and vocabulary supported. -/
theorem registration_sound (h : registration.make lib root catalog = .ok r) :
    r.sound lib root catalog := by
  obtain ⟨⟨⟩, -, h⟩ := bind_eq_ok.mp h
  obtain ⟨u, hu, h⟩ := bind_eq_ok.mp h
  obtain ⟨r₁, hinspect, h⟩ := bind_eq_ok.mp h
  obtain ⟨-, hspec, -⟩ := recursion_spec lib root catalog
    (4 * objects_in root catalog + 2)
  obtain ⟨hcovers₁, hwf₁, hroot⟩ := hspec _ _ _ _ _ (wf_start u)
    (by rintro p ⟨⟩; exact ⟨rfl, rfl⟩) (@genuine_document _ _ .root _ rfl) nofun hinspect
  obtain ⟨hcovers₂, hwf, hanswered⟩ := inspect_references_spec hwf₁ (Nat.zero_le _) nofun h
  have hclosed := (hcovers₁.trans hcovers₂).closed nofun
  refine ⟨?_, ?_, hwf.distinct, ?_, hwf.anchors, ⟨fun n hn => (hwf.inspected n hn).2.1,
    fun entry hentry => (hwf.resources entry hentry).1⟩, fun u document hu => hwf.resolved hu⟩
  · intro hobject
    obtain ⟨⟨schema, base⟩, hn, rfl, hbase⟩ := hroot hobject
    obtain rfl : base = lib.default_base_uri := hbase rfl
    exact hcovers₂.grows.inspected _ hn
  · intro n hn
    obtain ⟨inner, hbase, hp⟩ := hclosed n hn
    refine ⟨inner, hbase, hp.subschemas, ?_, hp.dialect, hp.vocabularies⟩
    intro name hname value hvalue
    obtain ⟨outer, text, v, houter, heq, hv, hmem⟩ := hp.references name hname value hvalue
    exact ⟨outer, text, v, houter, heq, hv, hanswered _ hmem⟩
  · intro entry hentry hobject
    exact (hwf.homed entry hentry hobject).resolve_right nofun

end Constructor

/-! ## A root that leads to two documents

The root declares a dialect of the catalog and refers to a definition in a tree, which
refers to the tree's anchor. -/

namespace tree_registration

/-- A URI in its parts, without the ones none of these has. -/
structure parts where
  scheme : String
  host : String
  path : String
  fragment : String

def parts.string (u : parts) : String :=
  (if u.scheme = "" then "" else u.scheme ++ "://" ++ u.host ++ u.path) ++
    if u.fragment = "" then "" else "#" ++ u.fragment

/-- The URIs there are. -/
def uris : List parts :=
  [⟨"https", "jsoncons.com", "", ""⟩,
    ⟨"https", "json-schema.org", "/draft/2020-12/schema", ""⟩,
    ⟨"https", "test.invalid", "/meta", ""⟩,
    ⟨"https", "test.invalid", "/tree", ""⟩,
    ⟨"https", "test.invalid", "/tree", "/$defs/entry"⟩,
    ⟨"https", "test.invalid", "/tree", "node"⟩,
    ⟨"", "", "", "node"⟩]

def lib : schema_library parts String json where
  parse text := uris.find? fun u => u.string = text
  string := parts.string
  compared := parts.string
  is_absolute u := u.scheme ≠ ""
  fragment := parts.fragment
  resolve base u := if u.scheme = "" then { base with fragment := u.fragment } else u
  scheme := parts.scheme
  encoded_userinfo _ := ""
  host := parts.host
  port _ := ""
  encoded_path := parts.path
  encoded_query _ := ""
  encoded scheme _ host _ path _ fragment := ⟨scheme, host, path, fragment⟩
  default_base_uri := "https://jsoncons.com"
  convert := some
  is_valid _ := some true
  builtin_resources := []
  null := .null

def root : json :=
  .object [("$ref", .string "https://test.invalid/tree#/$defs/entry"),
    ("$schema", .string "https://test.invalid/meta")]

def catalog : schema_catalog :=
  [("https://test.invalid/meta", .object
      [("$schema", .string draft202012),
        ("$vocabulary", .object
          [("https://json-schema.org/draft/2020-12/vocab/core", .boolean true),
            ("https://test.invalid/vocabulary", .boolean false)])]),
    ("https://test.invalid/tree", .object
      [("$defs", .object [("entry", .object [("$dynamicRef", .string "#node")])]),
        ("$dynamicAnchor", .string "node"),
        ("$id", .string "https://test.invalid/tree")])]

/-- The root, the dialect, the tree and its entry are inspected. -/
theorem registration_sound_tree : ∃ r, registration.make lib root catalog = .ok r ∧
    r.inspected_.length = 4 ∧ r.sound lib root catalog := by
  have hcount : (registration.make lib root catalog).map (fun r => r.inspected_.length) = .ok 4 :=
    by decide +kernel
  cases hmake : registration.make lib root catalog with
  | error e =>
      rw [hmake] at hcount
      cases hcount
  | ok r =>
      rw [hmake] at hcount
      exact ⟨r, rfl, Except.ok.inj hcount, registration_sound hmake⟩

end tree_registration

end SynapseMcp.schema_backend
