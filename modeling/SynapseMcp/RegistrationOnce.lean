/-
A registration comes to every object once and loads every document once.

The functions of the constructor are followed by a list of what they come to, also where
they throw: then the list is what they came to before. A list is a function of the same
arguments as the call, and asks the call itself for the state it goes on from.
-/
import SynapseMcp.RegistrationFinishes

set_option autoImplicit false

namespace SynapseMcp.schema_backend

open Traversal

/-! ## The log

The source has no log; what it has is an order of effects, and an exception that ends the
constructor leaves the effects behind. Each list below follows the body of its function and adds
an entry where the function puts an address into `inspected_` or begins to load a document. A
part of the body that throws ends the list there, and the callers' lists end with it, which is
what `onward` says. So the list of a constructor that throws is everything it came to, and "no
object twice" can be said of it as well. -/

/-- What a registration comes to, each at most once: the inspection of an object, by its
address, and the loading of a document, by its key in the catalog. -/
inductive event where
  /-- The address went into `inspected_`. -/
  | inspected (place : place)
  /-- The document was found in the catalog by a call that registers it. -/
  | loaded (key : String)
  deriving DecidableEq

section Log

variable {uri order converted : Type} [DecidableEq order]
variable (lib : schema_library uri order converted) (catalog : schema_catalog)

/-- The dialect of an object is checked when the object declares one, and then the list is that
of the check. -/
def check_declared_log (log : String → registration uri order converted → List event)
    (schema : json) (r : registration uri order converted) : List event :=
  match schema.find? "$schema" with
  | none => []
  | some declared => onward (get_string declared) fun text => log text r

mutual

/-- A dialect that is built in, checked already or active comes to nothing. For any other the
document is loaded, and then the dialect of the document is checked. -/
def check_dialect_log : Nat → String → registration uri order converted → List event
  | 0, _, _ => []
  | depth + 1, identifier, r =>
      onward (got (lib.parse identifier)) fun u =>
        if !lib.is_absolute u || lib.fragment u ≠ "" then []
        else
          let key := resource_key lib u
          if key = draft202012 ∨ key ∈ r.checked_dialects_ then []
          else if key ∈ r.active_dialects_ then []
          else
            let r := { r with active_dialects_ := key :: r.active_dialects_ }
            load_resource_log depth key r ++
              onward (load_resource lib catalog depth key r) fun loaded =>
                match loaded.1.value.find? "$schema" with
                | none => []
                | some declared => onward (get_string declared) fun text =>
                    check_dialect_log depth text loaded.2

/-- The entry of an object is made at once, before its identifier, its dialect and its
subschemas are looked at, so it is there whichever of these throws. -/
def inspect_log : Nat → schema_ref → String → registration uri order converted → List event
  | 0, _, _, _ => []
  | depth + 1, schema, base, r =>
      if !schema.value.is_object || r.inspected schema then []
      else
        .inspected schema.place ::
          onward (schema_base lib schema.value base) fun inner =>
          onward (register_id lib schema inner (r.mark schema base)) fun r =>
          check_declared_log (fun text r => check_dialect_log depth text r) schema.value r ++
          onward (check_declared (fun text r => check_dialect lib catalog depth text r)
            schema.value r) fun r =>
          onward (check_vocabularies schema.value) fun _ =>
          onward (["$anchor", "$dynamicAnchor"].foldlM
            (fun r name => add_anchor lib schema inner name r) r) fun r =>
          onward (["$ref", "$dynamicRef"].foldlM
            (fun r name => add_reference lib schema inner name r) r) fun r =>
          foldlM_log (fun r child => inspect lib catalog depth child inner r)
            (fun r child => inspect_log depth child inner r) (subschemas schema) r

/-- The entry of a document is made when it is found in the catalog and not in the table of
resources; then it is validated, converted, put into the tables and inspected. -/
def load_resource_log : Nat → String → registration uri order converted → List event
  | 0, _, _ => []
  | depth + 1, key, r =>
      onward (r.find lib key) fun found =>
        match found with
        | some _ => []
        | none =>
            match catalog.lookup key with
            | none => []
            | some value =>
                .loaded key ::
                  onward (validate_schema lib value) fun _ =>
                  onward (got (lib.parse key)) fun u =>
                  onward (got (lib.convert value)) fun document_ =>
                  inspect_log depth ⟨⟨.catalog key, []⟩, value⟩ key
                    { r with
                      resources_ := emplace r.resources_ (lib.compared u)
                        ⟨⟨⟨.catalog key, []⟩, value⟩, key⟩
                      converted_ := emplace r.converted_ key document_ }

end

/-- A reference to a resource that is built in comes to nothing. Any other loads its document,
and a pointer into the document inspects what it points to. -/
def inspect_reference_log (depth : Nat) (u : uri) (r : registration uri order converted) :
    List event :=
  let key := resource_key lib u
  if (lib.builtin_resources.lookup key).isSome then []
  else
    load_resource_log lib catalog depth key r ++
      onward (load_resource lib catalog depth key r) fun loaded =>
        let fragment := lib.fragment u
        if fragment = "" then []
        else
          onward (loaded.2.find lib key) fun found =>
          onward (got found) fun entry =>
          if fragment.toList.head? ≠ some '/' then []
          else
            onward (got (loaded.1.at_pointer fragment)) fun target =>
            if loaded.2.inspected target then []
            else
              onward (validate_schema lib target.value) fun _ =>
              inspect_log lib catalog depth target entry.base loaded.2

/-- One round for each reference, in the order in which the references were added; those that a
round adds are read by later rounds. -/
def inspect_references_log (depth : Nat) :
    Nat → Nat → registration uri order converted → List event
  | 0, _, _ => []
  | steps + 1, index, r =>
      match r.references_[index]? with
      | none => []
      | some u =>
          inspect_reference_log lib catalog depth u r ++
            onward (inspect_reference lib catalog depth u r) fun r =>
              inspect_references_log depth steps (index + 1) r

/-- What the constructor comes to. -/
def registration.make_log (root : json) : List event :=
  onward (validate_schema lib root) fun _ =>
  onward (got (lib.parse lib.default_base_uri)) fun u =>
  let depth := 4 * objects_in root catalog + 2
  inspect_log lib catalog depth ⟨⟨.root, []⟩, root⟩ lib.default_base_uri (.start lib root u) ++
    onward (inspect lib catalog depth ⟨⟨.root, []⟩, root⟩ lib.default_base_uri
      (.start lib root u)) fun r =>
    inspect_references_log lib catalog depth (2 * objects_in root catalog + 1) 0 r

end Log

/-! ## What the state has seen

That an entry is not made twice is a matter of the tables: `inspect` returns at once when the
address is in `inspected_`, and `load_resource` when the key resolves to a resource. So each
entry has its trace in the state, `seen`, and a call makes exactly the entries whose traces it
adds. For the documents one fact has to go along, `filed`: a document that was converted is
found under its own key, so that its trace in `converted_` keeps `load_resource` from loading it
again. -/

section Seen

variable {uri order converted : Type} [DecidableEq order]

/-- The trace of an entry in the tables: the address is among the inspected objects, or there is
a converted document under the key. -/
def registration.seen (r : registration uri order converted) : event → Prop
  | .inspected place => ∃ n ∈ r.inspected_, n.schema.place = place
  | .loaded key => (r.converted_.lookup key).isSome

/-- A document that was converted is found under its key. -/
def registration.filed (lib : schema_library uri order converted)
    (r : registration uri order converted) : Prop :=
  ∀ key, (r.converted_.lookup key).isSome →
    ∃ u, lib.parse key = some u ∧ (r.resources_.lookup (lib.compared u)).isSome

variable {lib : schema_library uri order converted} {catalog : schema_catalog} {depth : Nat}
  {r t : registration uri order converted} {schema : schema_ref} {base inner key name : String}

omit [DecidableEq order] in
/-- Only the two tables matter for what was seen; a call that changes neither changes no trace.
-/
theorem seen_of_same (hinspected : t.inspected_ = r.inspected_)
    (hconverted : t.converted_ = r.converted_) (n : event) : t.seen n ↔ r.seen n := by
  cases n with
  | inspected place => rw [registration.seen, registration.seen, hinspected]
  | loaded key => rw [registration.seen, registration.seen, hconverted]

/-- No resource is ever taken out of its table, so a document stays found under its key as long
as no other is converted. -/
theorem registration.filed.mono (h : r.filed lib) (hconverted : t.converted_ = r.converted_)
    (hresources : ∀ k, (r.resources_.lookup k).isSome → (t.resources_.lookup k).isSome) :
    t.filed lib := by
  intro key hkey
  rw [hconverted] at hkey
  obtain ⟨u, hu, hsome⟩ := h key hkey
  exact ⟨u, hu, hresources _ hsome⟩

/-- The calls that make no entry of their own: they change neither of the two tables, and drop
no resource. -/
theorem once_of_same {f : registration uri order converted →
      Except registration_error (registration uri order converted)} (hfiled : r.filed lib)
    (h : ∀ t, f r = .ok t → t.inspected_ = r.inspected_ ∧ t.converted_ = r.converted_ ∧
      ∀ k, (r.resources_.lookup k).isSome → (t.resources_.lookup k).isSome) :
    Once registration.seen (registration.filed lib) id r [] (f r) := by
  cases hf : f r with
  | error e => exact .error e
  | ok t =>
      obtain ⟨hinspected, hconverted, hresources⟩ := h t hf
      exact .ok (hfiled.mono hconverted hresources) (seen_of_same hinspected hconverted)

/-- Registering an identifier moves the base of an entry or adds one, and takes none away; it
inspects nothing and converts nothing. -/
theorem register_id_once (hfiled : r.filed lib) :
    Once registration.seen (registration.filed lib) id r [] (register_id lib schema base r) := by
  refine once_of_same (f := register_id lib schema base) hfiled fun t h => ?_
  rcases register_id_cases h with ⟨-, rfl⟩ | ⟨u, entry, rfl, -, -, -⟩
  · exact ⟨rfl, rfl, fun _ hk => hk⟩
  · refine ⟨rfl, rfl, fun k hk => ?_⟩
    obtain ⟨entry', hentry'⟩ := Option.isSome_iff_exists.mp hk
    apply Option.isSome_iff_exists.mpr
    refine ⟨rebased schema base entry', lookup_emplace_of_some ?_⟩
    rw [lookup_rebase, hentry']
    rfl

/-- An anchor goes into the table of anchors and is no entry of the log. -/
theorem add_anchor_once (hfiled : r.filed lib) :
    Once registration.seen (registration.filed lib) id r []
      (add_anchor lib schema base name r) := by
  refine once_of_same (f := add_anchor lib schema base name) hfiled fun t h => ?_
  unfold add_anchor at h
  split at h
  · cases Except.ok.inj h
    exact ⟨rfl, rfl, fun _ hk => hk⟩
  · obtain ⟨text, -, h⟩ := bind_eq_ok.mp h
    obtain ⟨v, -, h⟩ := bind_eq_ok.mp h
    cases Except.ok.inj h
    exact ⟨rfl, rfl, fun _ hk => hk⟩

/-- A reference is put on the list of those to be resolved, which comes to nothing until its
round. -/
theorem add_reference_once (hfiled : r.filed lib) :
    Once registration.seen (registration.filed lib) id r []
      (add_reference lib schema base name r) := by
  refine once_of_same (f := add_reference lib schema base name) hfiled fun t h => ?_
  unfold add_reference at h
  split at h
  · cases Except.ok.inj h
    exact ⟨rfl, rfl, fun _ hk => hk⟩
  · obtain ⟨outer, -, h⟩ := bind_eq_ok.mp h
    obtain ⟨text, -, h⟩ := bind_eq_ok.mp h
    obtain ⟨v, -, h⟩ := bind_eq_ok.mp h
    cases Except.ok.inj h
    exact ⟨rfl, rfl, fun _ hk => hk⟩

/-- A loop over calls that make no entry makes none. -/
theorem once_loop {f : registration uri order converted → String →
      Except registration_error (registration uri order converted)}
    (hf : ∀ name r, r.filed lib →
      Once registration.seen (registration.filed lib) id r [] (f r name))
    (names : List String) (hfiled : r.filed lib) :
    Once registration.seen (registration.filed lib) id r [] (names.foldlM f r) := by
  have hall : Once _ _ id r (foldlM_log f (fun _ _ => ([] : List event)) names r) _ :=
    .foldlM hf names hfiled
  have hempty : ∀ (names : List String) (s : registration uri order converted),
      foldlM_log f (fun _ _ => ([] : List event)) names s = [] := by
    intro names
    induction names with
    | nil => exact fun _ => rfl
    | cons name names ih =>
        intro s
        rw [foldlM_log, List.nil_append]
        cases f s name with
        | error e => rfl
        | ok t => exact ih t
  rw [hempty] at hall
  exact hall

end Seen

/-! ## The functions that call each other

The statement for each function is that its list is what it adds to the traces and has no entry
twice, at every depth, whether it returns or throws. The lemmas go along the bodies with the
rules of `Traversal`: a call that makes no entry, a bind of two calls, an entry that is new, a
loop. The entries themselves are made in two places only, and there it is shown that they are
new: the address was not in `inspected_`, and the key was not found among the resources. -/

section Recursion

variable {uri order converted : Type} [DecidableEq order]
variable (lib : schema_library uri order converted) (catalog : schema_catalog)

def check_once (depth : Nat) : Prop :=
  ∀ (identifier : String) (r : registration uri order converted), r.filed lib →
    Once registration.seen (registration.filed lib) id r
      (check_dialect_log lib catalog depth identifier r)
      (check_dialect lib catalog depth identifier r)

def inspect_once (depth : Nat) : Prop :=
  ∀ (schema : schema_ref) (base : String) (r : registration uri order converted), r.filed lib →
    Once registration.seen (registration.filed lib) id r
      (inspect_log lib catalog depth schema base r) (inspect lib catalog depth schema base r)

def load_once (depth : Nat) : Prop :=
  ∀ (key : String) (r : registration uri order converted), r.filed lib →
    Once registration.seen (registration.filed lib) Prod.snd r
      (load_resource_log lib catalog depth key r) (load_resource lib catalog depth key r)

variable {lib catalog} {depth : Nat} {r t : registration uri order converted}

/-- Looking a key up changes nothing and comes to nothing. -/
theorem find_once {key : String} (hfiled : r.filed lib) :
    Once registration.seen (registration.filed lib) (fun _ => r) r [] (r.find lib key) := by
  cases r.find lib key with
  | error e => exact .error e
  | ok found => exact .ok hfiled fun _ => Iff.rfl

/-- The dialect made active leaves no trace. What is left is the list of the load and, behind
it, the list of the next dialect. -/
theorem check_dialect_once (hload : load_once lib catalog depth)
    (hcheck : check_once lib catalog depth) : check_once lib catalog (depth + 1) := by
  intro identifier r hfiled
  rw [check_dialect_log, check_dialect]
  refine .value fun u _ => ?_
  split
  · exact .error _
  dsimp only
  split
  · exact .ok hfiled fun _ => Iff.rfl
  split
  · exact .error _
  refine .of_same (t := { r with active_dialects_ := resource_key lib u :: r.active_dialects_ })
    (seen_of_same rfl rfl) ?_
  have hactive : registration.filed lib
    { r with active_dialects_ := resource_key lib u :: r.active_dialects_ } := hfiled
  refine (hload _ _ hactive).bind ?_
  rintro ⟨document, r₁⟩ - hfiled₁
  dsimp only
  cases document.value.find? "$schema" with
  | none => exact .error _
  | some declared =>
      refine .value fun text _ => ?_
      exact (hcheck text r₁ hfiled₁).after fun r₂ _ hfiled₂ =>
        .ok hfiled₂ (seen_of_same rfl rfl)

/-- The entry of the object is new, because the function did not return at once. What follows it
adds the entries of the dialect and of the subschemas, in this order. -/
theorem inspect_step_once (hcheck : check_once lib catalog depth)
    (hinspect : inspect_once lib catalog depth) : inspect_once lib catalog (depth + 1) := by
  intro schema base r hfiled
  rw [inspect_log, inspect]
  split
  · exact .ok hfiled fun _ => Iff.rfl
  rename_i hdone
  have hnew : ¬r.seen (.inspected schema.place) := by
    intro hseen
    have hinspected : r.inspected schema = true := inspected_iff.mpr hseen
    simp [hinspected] at hdone
  have hmark : ∀ n, (r.mark schema base).seen n ↔ r.seen n ∨ n = .inspected schema.place := by
    intro n
    cases n with
    | inspected place => simp [registration.seen, registration.mark, or_and_right, exists_or,
        eq_comm]
    | loaded key => simp [registration.seen, registration.mark]
  have hfiled' : (r.mark schema base).filed lib := hfiled
  refine .enter hnew hmark ?_
  refine .value fun inner _ => ?_
  refine (register_id_once hfiled').before fun r₁ _ hfiled₁ => ?_
  -- the check of a dialect is a call of the recursion, or nothing
  have hdeclared : Once registration.seen (registration.filed lib) id r₁
      (check_declared_log (fun text r => check_dialect_log lib catalog depth text r)
        schema.value r₁)
      (check_declared (fun text r => check_dialect lib catalog depth text r)
        schema.value r₁) := by
    unfold check_declared_log check_declared
    cases schema.value.find? "$schema" with
    | none => exact .ok hfiled₁ fun _ => Iff.rfl
    | some declared => exact .value fun text _ => hcheck text r₁ hfiled₁
  refine hdeclared.bind fun r₂ _ hfiled₂ => ?_
  refine .value fun _ _ => ?_
  refine (once_loop (fun _ _ hs => add_anchor_once hs) _ hfiled₂).before fun r₃ _ hfiled₃ => ?_
  refine (once_loop (fun _ _ hs => add_reference_once hs) _ hfiled₃).before fun r₄ _ hfiled₄ => ?_
  exact .foldlM (fun child s hs => hinspect child inner s hs) _ hfiled₄

/-- The entry of the document is new: had it been converted before, it would be filed, and the
lookup would have found it. When it is not valid or is not converted the call throws with this
one entry made. -/
theorem load_resource_once (hinspect : inspect_once lib catalog depth) :
    load_once lib catalog (depth + 1) := by
  intro key r hfiled
  rw [load_resource_log, load_resource]
  refine (find_once hfiled).before fun found hfind _ => ?_
  obtain ⟨u, hu, hlookup⟩ := find_eq_ok hfind
  cases found with
  | some entry => exact .ok hfiled fun _ => Iff.rfl
  | none =>
  cases catalog.lookup key with
  | none => exact .error _
  | some value =>
  dsimp only
  -- the key has no entry, so no document was converted under it
  have hnew : ¬r.seen (.loaded key) := by
    intro hseen
    obtain ⟨v, hv, hsome⟩ := hfiled key hseen
    obtain rfl := Option.some.inj (hu.symm.trans hv)
    rw [hlookup] at hsome
    cases hsome
  cases validate_schema lib value with
  | error e => exact .fails e hnew
  | ok valid =>
      rw [got_eq_ok.mpr hu]
      cases hconvert : lib.convert value with
      | none => exact .fails _ hnew
      | some document =>
          refine Once.enter (t := { r with
            resources_ := emplace r.resources_ (lib.compared u)
              ⟨⟨⟨.catalog key, []⟩, value⟩, key⟩
            converted_ := emplace r.converted_ key document }) hnew ?_ ?_
          · intro n
            cases n with
            | inspected place => simp [registration.seen]
            | loaded key' =>
                change ((emplace r.converted_ key document).lookup key').isSome ↔ _
                rw [lookup_emplace]
                by_cases hkey : key' = key
                · subst hkey
                  simp [registration.seen]
                · simp [registration.seen, hkey]
          · refine (hinspect _ key _ ?_).after fun t _ ht => .ok ht fun _ => Iff.rfl
            intro key' hkey'
            change ((emplace r.converted_ key document).lookup key').isSome at hkey'
            rw [lookup_emplace] at hkey'
            by_cases hkey : key' = key
            · subst hkey
              exact ⟨u, hu, lookup_emplace_self _ _ _⟩
            · have hold : (r.converted_.lookup key').isSome := by simpa [hkey] using hkey'
              obtain ⟨v, hv, hsome⟩ := hfiled key' hold
              obtain ⟨entry, hentry⟩ := Option.isSome_iff_exists.mp hsome
              exact ⟨v, hv, Option.isSome_iff_exists.mpr ⟨entry, lookup_emplace_of_some hentry⟩⟩

variable (lib catalog) in
/-- At every depth the three functions make the entries whose traces they add, none of them
twice. -/
theorem recursion_once (depth : Nat) : check_once lib catalog depth ∧
    inspect_once lib catalog depth ∧ load_once lib catalog depth := by
  induction depth with
  | zero =>
      refine ⟨?_, ?_, ?_⟩
      · intro identifier r _
        rw [check_dialect_log, check_dialect]
        exact .error _
      · intro schema base r _
        rw [inspect_log, inspect]
        exact .error _
      · intro key r _
        rw [load_resource_log, load_resource]
        exact .error _
  | succ depth ih =>
      obtain ⟨hcheck, hinspect, hload⟩ := ih
      exact ⟨check_dialect_once hload hcheck, inspect_step_once hcheck hinspect,
        load_resource_once hinspect⟩

/-- A reference adds what loading its document adds and, for a pointer, what the inspection of
its target adds; the anchors are only looked up. -/
theorem inspect_reference_once {u : uri} (hfiled : r.filed lib) :
    Once registration.seen (registration.filed lib) id r
      (inspect_reference_log lib catalog depth u r)
      (inspect_reference lib catalog depth u r) := by
  obtain ⟨-, hinspect, hload⟩ := recursion_once lib catalog depth
  unfold inspect_reference_log inspect_reference
  dsimp only
  split
  · exact .ok hfiled fun _ => Iff.rfl
  refine (hload _ _ hfiled).bind ?_
  rintro ⟨document, r₁⟩ - hfiled₁
  dsimp only
  split
  · exact .ok hfiled₁ fun _ => Iff.rfl
  refine .value fun found _ => ?_
  refine .value fun entry _ => ?_
  split
  · cases lib.parse (entry.base ++ "#" ++ lib.fragment u) with
    | none => exact .error _
    | some anchor =>
        change Once _ _ _ _ [] (if _ then _ else _)
        split
        · exact .error _
        · exact .ok hfiled₁ fun _ => Iff.rfl
  · refine .value fun target _ => ?_
    split
    · exact .ok hfiled₁ fun _ => Iff.rfl
    · exact .value fun _ _ => hinspect target entry.base r₁ hfiled₁

variable (lib catalog depth) in
/-- The loop adds the lists of its rounds, one after the other, by induction on the number of
rounds left. -/
theorem inspect_references_once (steps index : Nat) (hfiled : r.filed lib) :
    Once registration.seen (registration.filed lib) id r
      (inspect_references_log lib catalog depth steps index r)
      (inspect_references lib catalog depth steps index r) := by
  induction steps generalizing index r with
  | zero => exact .error _
  | succ steps ih =>
      rw [inspect_references_log, inspect_references]
      cases r.references_[index]? with
      | none => exact .ok hfiled fun _ => Iff.rfl
      | some u =>
          exact (inspect_reference_once hfiled).bind fun t _ ht => ih (r := t) (index + 1) ht

end Recursion

section Constructor

variable {uri order converted : Type} [DecidableEq order]

/-- The constructor returns or throws, and on the way, whichever it does, it inspects no
object twice and loads no document twice. What it came to when it returns is what its
tables hold. -/
theorem registration_once (lib : schema_library uri order converted) (root : json)
    (catalog : schema_catalog) :
    registration.make lib root catalog ≠ .error .unfinished ∧
      (registration.make_log lib catalog root).Nodup ∧
      ∀ r, registration.make lib root catalog = .ok r →
        (∀ place, .inspected place ∈ registration.make_log lib catalog root ↔
          ∃ n ∈ r.inspected_, n.schema.place = place) ∧
        ∀ key, .loaded key ∈ registration.make_log lib catalog root ↔
          (r.converted_.lookup key).isSome := by
  refine ⟨registration_finishes lib root catalog, ?_⟩
  unfold registration.make_log registration.make
  cases validate_schema lib root with
  | error e => exact ⟨List.nodup_nil, nofun⟩
  | ok valid =>
      cases hu : lib.parse lib.default_base_uri with
      | none => exact ⟨List.nodup_nil, nofun⟩
      | some u =>
          -- before the first inspection nothing is filed and nothing seen
          have hstart : (registration.start lib root u).filed lib := by
            intro key hkey
            cases hkey
          obtain ⟨-, hinspect, -⟩ :=
            recursion_once lib catalog (4 * objects_in root catalog + 2)
          -- the recorded references come after the root, with what it saw
          have hrest : ∀ r : registration uri order converted, r.filed lib →
              Once registration.seen (registration.filed lib) id r _ _ := fun r hr =>
            inspect_references_once lib catalog (4 * objects_in root catalog + 2)
              (2 * objects_in root catalog + 1) 0 hr
          have honce := (hinspect ⟨⟨.root, []⟩, root⟩ lib.default_base_uri _ hstart).bind
            fun r _ hr => hrest r hr
          refine ⟨honce.nodup, fun r hr => ?_⟩
          obtain ⟨-, hseen⟩ := honce.returned r hr
          -- so what was seen in the end is what the log names
          have hnone : ∀ n, ¬(registration.start lib root u).seen n := by
            intro n
            cases n with
            | inspected place => simp [registration.seen, registration.start]
            | loaded key => simp [registration.seen, registration.start]
          refine ⟨fun place => ?_, fun key => ?_⟩
          · have hplace := hseen (.inspected place)
            rw [or_iff_right (hnone _)] at hplace
            exact hplace.symm
          · have hkey := hseen (.loaded key)
            rw [or_iff_right (hnone _)] at hkey
            exact hkey.symm

end Constructor

end SynapseMcp.schema_backend
