/-
A registration comes to an end: the depth and the number of rounds the constructor gives
out suffice, for any root and any catalog.

A call of `inspect` that does not return at once inspects one object more, and a call of
`check_dialect` that does not return at once makes one dialect more active. Both are
bounded by the objects there are: a dialect that is active was declared by one of them.
Every inspected object adds two references at most, so the loop over them ends too.
-/
import SynapseMcp.RegistrationSound
import Mathlib.Data.List.Nodup

set_option autoImplicit false

namespace SynapseMcp.schema_backend

open Traversal

/-! ## The objects there are

The recursion is bounded by counting. A path to an object is listed once for every object of a
value, so the list is as long as `objects` says; and whatever a pointer or a key of the source
can reach has its place on the list, since a genuine schema is what its path leads to. -/

mutual

/-- The paths to the objects in a value. -/
def object_paths : json → List (List path_step)
  | .object members => [] :: object_paths_of_members members
  | .array elements => object_paths_of_elements 0 elements
  | .null | .boolean _ | .number_integer _ | .number_unsigned _ | .number_float _ | .string _
  | .binary _ | .discarded => []

def object_paths_of_elements : Nat → List json → List (List path_step)
  | _, [] => []
  | index, value :: rest =>
      (object_paths value).map (.element index :: ·) ++ object_paths_of_elements (index + 1) rest

def object_paths_of_members : List (String × json) → List (List path_step)
  | [] => []
  | (key, value) :: rest =>
      (object_paths value).map (.member key :: ·) ++ object_paths_of_members rest

end

mutual

/-- A value has as many paths to objects as it has objects, by recursion over the value together
with its elements and its members. -/
theorem length_object_paths (value : json) : (object_paths value).length = objects value := by
  cases value with
  | object members =>
      rw [object_paths, objects, List.length_cons, length_object_paths_of_members]
      omega
  | array elements => rw [object_paths, objects, length_object_paths_of_elements]
  | _ => rfl

theorem length_object_paths_of_elements (index : Nat) (elements : List json) :
    (object_paths_of_elements index elements).length = objects_of_elements elements := by
  cases elements with
  | nil => rfl
  | cons value rest =>
      rw [object_paths_of_elements, objects_of_elements, List.length_append, List.length_map,
        length_object_paths, length_object_paths_of_elements]

theorem length_object_paths_of_members (members : List (String × json)) :
    (object_paths_of_members members).length = objects_of_members members := by
  cases members with
  | nil => rfl
  | cons member rest =>
      obtain ⟨key, value⟩ := member
      rw [object_paths_of_members, objects_of_members, List.length_append, List.length_map,
        length_object_paths, length_object_paths_of_members]

end

/-- The paths of an element are paths of the array, each with the index of the element in front.
The list is numbered from `start`, which the induction over the elements moves. -/
theorem mem_object_paths_of_elements {elements : List json} (start : Nat) {index : Nat}
    {value : json} {path : List path_step} (h : elements[index]? = some value)
    (hpath : path ∈ object_paths value) :
    .element (start + index) :: path ∈ object_paths_of_elements start elements := by
  induction elements generalizing start index with
  | nil => cases h
  | cons first rest ih =>
      rw [object_paths_of_elements, List.mem_append]
      cases index with
      | zero =>
          cases h
          exact .inl (List.mem_map_of_mem hpath)
      | succ index =>
          have hrest := @ih (start + 1) index h
          rw [show start + 1 + index = start + (index + 1) by omega] at hrest
          exact .inr hrest

/-- The paths of a member are paths of the object. A lookup finds the first member of a name,
and it is the one whose paths are meant, whatever else stands under the same name. -/
theorem mem_object_paths_of_members {members : List (String × json)} {key : String} {value : json}
    {path : List path_step} (h : members.lookup key = some value)
    (hpath : path ∈ object_paths value) :
    .member key :: path ∈ object_paths_of_members members := by
  induction members with
  | nil => cases h
  | cons first rest ih =>
      obtain ⟨key', value'⟩ := first
      rw [object_paths_of_members, List.mem_append]
      rw [List.lookup_cons] at h
      split at h
      · rename_i heq
        cases h
        rw [eq_of_beq heq]
        exact .inl (List.mem_map_of_mem hpath)
      · exact .inr (ih h)

/-- Every object is at the end of one of the paths: a path that can be followed to an object is
listed, by induction on the path. -/
theorem mem_object_paths {value target : json} {path : List path_step}
    (h : follow value path = some target) (hobject : target.is_object = true) :
    path ∈ object_paths value := by
  induction path generalizing value with
  | nil =>
      obtain rfl := Option.some.inj h
      cases value with
      | object members => exact List.mem_cons_self
      | _ => cases hobject
  | cons step path ih =>
      cases step with
      | member key =>
          obtain ⟨inner, hinner, hrest⟩ := Option.bind_eq_some_iff.mp h
          cases value with
          | object members =>
              exact List.mem_cons_of_mem _ (mem_object_paths_of_members hinner (ih hrest))
          | _ => cases hinner
      | element index =>
          cases value with
          | array elements =>
              obtain ⟨inner, hinner, hrest⟩ := Option.bind_eq_some_iff.mp h
              have hmem := mem_object_paths_of_elements 0 hinner (ih hrest)
              rw [Nat.zero_add] at hmem
              exact hmem
          | _ => cases h

section Objects

variable {root : json} {catalog : schema_catalog}

/-- The places of the objects in the root and the catalog. -/
def object_places (root : json) (catalog : schema_catalog) : List place :=
  (object_paths root).map (⟨.root, ·⟩) ++
    catalog.flatMap fun entry => (object_paths entry.2).map (⟨.catalog entry.1, ·⟩)

/-- The places are counted by `objects_in`, which is the number the constructor computes its
depth from. -/
theorem length_object_places :
    (object_places root catalog).length = objects_in root catalog := by
  simp [object_places, objects_in, List.length_flatMap, length_object_paths]

/-- An object that is what its place leads to, in the root or in a document of the catalog, is
one of those counted. -/
theorem mem_object_places {schema : schema_ref} (h : genuine root catalog schema)
    (hobject : schema.value.is_object = true) : schema.place ∈ object_places root catalog := by
  obtain ⟨⟨document, path⟩, value⟩ := schema
  obtain ⟨whole, hwhole, hpath⟩ := Option.bind_eq_some_iff.mp h
  have hmem := mem_object_paths hpath hobject
  rw [object_places, List.mem_append]
  cases document with
  | root =>
      cases hwhole
      exact .inl (List.mem_map_of_mem hmem)
  | catalog key =>
      obtain ⟨l, l', heq, -⟩ := List.lookup_eq_some_iff.mp hwhole
      refine .inr (List.mem_flatMap.mpr ⟨(key, whole), ?_, List.mem_map_of_mem hmem⟩)
      rw [heq]
      exact List.mem_append_right _ List.mem_cons_self

end Objects

/-! ## What a call costs

A call of the recursion leaves the active dialects as it found them, because each dialect is
taken out again when its check returns; and it adds references only for objects it newly
inspects, two for each at most, one for each of the two names. Both facts go through the
recursion together, by induction on the depth, one lemma for each of the three functions. They
are what the loop over the references needs: its list can grow while it runs, but never past
twice the number of objects. -/

section Costs

variable {uri order converted : Type} [DecidableEq order]

/-- The same dialects are active, and there are at most two new references for each object
newly inspected. -/
structure registration.costs (r t : registration uri order converted) : Prop where
  active : t.active_dialects_ = r.active_dialects_
  references : t.references_.length + 2 * r.inspected_.length ≤
    r.references_.length + 2 * t.inspected_.length

variable {lib : schema_library uri order converted} {catalog : schema_catalog} {depth : Nat}
  {r t u : registration uri order converted} {schema : schema_ref} {base inner : String}

omit [DecidableEq order] in
theorem registration.costs.refl (r : registration uri order converted) : r.costs r :=
  ⟨rfl, Nat.le_refl _⟩

omit [DecidableEq order] in
/-- Costs add up along a sequence of calls, since the bound compares the references with the
objects inspected so far and not with one object. -/
theorem registration.costs.trans (h : r.costs t) (h' : t.costs u) : r.costs u := by
  have := h.references
  have := h'.references
  exact ⟨h'.active.trans h.active, by omega⟩

/-- The anchors of an object cost nothing: they are put into their own table, and neither the
references nor the active dialects are touched. -/
theorem add_anchors_costs
    (h : ["$anchor", "$dynamicAnchor"].foldlM
      (fun r name => add_anchor lib schema inner name r) r = .ok t) :
    r.costs t := by
  refine foldlM_rest (I := fun _ s => r.costs s) ?_ (.refl r) h
  intro name _ s t hs hadd
  unfold add_anchor at hadd
  split at hadd
  · exact Except.ok.inj hadd ▸ hs
  · obtain ⟨text, -, hadd⟩ := bind_eq_ok.mp hadd
    obtain ⟨v, -, hadd⟩ := bind_eq_ok.mp hadd
    cases Except.ok.inj hadd
    exact ⟨hs.active, hs.references⟩

omit [DecidableEq order] in
/-- One reference for each name at most, and there are two names. The induction counts the names
that are still to come, so that the bound is two at the start. -/
theorem add_references_costs
    (h : ["$ref", "$dynamicRef"].foldlM
      (fun r name => add_reference lib schema inner name r) r = .ok t) :
    t.active_dialects_ = r.active_dialects_ ∧ t.inspected_ = r.inspected_ ∧
      t.references_.length ≤ r.references_.length + 2 := by
  have hall := foldlM_rest
    (I := fun names s => s.active_dialects_ = r.active_dialects_ ∧
      s.inspected_ = r.inspected_ ∧
      s.references_.length + names.length ≤ r.references_.length + 2) ?_ ?_ h
  · exact hall
  · rintro name rest s t ⟨hactive, hinspected, hlength⟩ hadd
    rw [List.length_cons] at hlength
    unfold add_reference at hadd
    split at hadd
    · cases Except.ok.inj hadd
      exact ⟨hactive, hinspected, by omega⟩
    · obtain ⟨outer, -, hadd⟩ := bind_eq_ok.mp hadd
      obtain ⟨text, -, hadd⟩ := bind_eq_ok.mp hadd
      obtain ⟨v, -, hadd⟩ := bind_eq_ok.mp hadd
      cases Except.ok.inj hadd
      refine ⟨hactive, hinspected, ?_⟩
      rw [List.length_append, List.length_singleton]
      omega
  · exact ⟨rfl, rfl, Nat.le_refl _⟩

variable (lib catalog)

def check_costs (depth : Nat) : Prop :=
  ∀ (identifier : String) (r t : registration uri order converted),
    check_dialect lib catalog depth identifier r = .ok t → r.costs t

def inspect_costs (depth : Nat) : Prop :=
  ∀ (schema : schema_ref) (base : String) (r t : registration uri order converted),
    inspect lib catalog depth schema base r = .ok t → r.costs t

def load_costs (depth : Nat) : Prop :=
  ∀ (key : String) (r : registration uri order converted) (document : schema_ref)
    (t : registration uri order converted),
    load_resource lib catalog depth key r = .ok (document, t) → r.costs t

variable {lib catalog}

/-- A dialect that is checked is active only while its document is loaded and the dialect of
that document is checked; `erase` then removes the one key that was put in front. -/
theorem check_dialect_costs (hload : load_costs lib catalog depth)
    (hcheck : check_costs lib catalog depth) : check_costs lib catalog (depth + 1) := by
  intro identifier r t h
  obtain ⟨v, -, -, -, ⟨-, rfl⟩ | ⟨document, r₁, text, r₂, hl, -, hc, rfl⟩⟩ := check_dialect_cases h
  · exact .refl _
  · have hcosts₁ := hload _ _ _ _ hl
    have hcosts₂ := hcheck _ _ _ hc
    have hcosts := hcosts₁.trans hcosts₂
    refine ⟨?_, hcosts.references⟩
    change r₂.active_dialects_.erase (resource_key lib v) = r.active_dialects_
    rw [hcosts.active]
    exact List.erase_cons_head _ _

/-- An object is put into `inspected_` before anything else is done with it, and pays with that
for the two references that its own members can add; its subschemas pay for theirs. -/
theorem inspect_step_costs (hcheck : check_costs lib catalog depth)
    (hinspect : inspect_costs lib catalog depth) : inspect_costs lib catalog (depth + 1) := by
  intro schema base r t h
  rcases inspect_cases h with ⟨-, rfl⟩ | ⟨-, -, inner, r₁, r₂, r₃, r₄, hbase, hid, hdialect, -,
    hanchors, hreferences, hchildren⟩
  · exact .refl _
  obtain ⟨ht, -, -⟩ := register_id_spec hbase hid
  have hinspected : r₁.inspected_.length = r.inspected_.length + 1 := by
    rw [ht, List.length_append, List.length_singleton]
  have hnone : r₁.references_ = r.references_ := by rw [ht]
  have hactive : r₁.active_dialects_ = r.active_dialects_ := by rw [ht]
  have hdeclared : r₁.costs r₂ := by
    rcases hdialect with ⟨-, rfl⟩ | ⟨text, -, hc⟩
    · exact .refl _
    · exact hcheck _ _ _ hc
  have hbefore := hdeclared.trans (add_anchors_costs hanchors)
  obtain ⟨hactive₄, hinspected₄, hlength₄⟩ := add_references_costs hreferences
  have hafter : r₄.costs t :=
    foldlM_rest (I := fun _ s => r₄.costs s)
      (fun child _ s u hs hi => hs.trans (hinspect _ _ _ _ hi)) (.refl r₄) hchildren
  refine ⟨?_, ?_⟩
  · rw [hafter.active, hactive₄, hbefore.active, hactive]
  · have hbelow := hbefore.references
    have habove := hafter.references
    rw [hinspected₄] at habove
    rw [hnone, hinspected] at hbelow
    omega

/-- A document that is loaded costs what the inspection of its root costs, and one that was
found in the table of resources costs nothing. -/
theorem load_resource_costs (hinspect : inspect_costs lib catalog depth) :
    load_costs lib catalog (depth + 1) := by
  intro key r document t h
  obtain ⟨v, -, ⟨entry, -, -, rfl⟩ | ⟨-, value, converted, -, -, -, -, hi⟩⟩ := load_resource_cases h
  · exact .refl _
  · have hcosts := hinspect _ _ _ _ hi
    exact ⟨hcosts.active, hcosts.references⟩

variable (lib catalog) in
/-- Whatever the depth, the three functions that call each other keep the active dialects and
pay for their references. A call without depth returns nothing, so it costs nothing. -/
theorem recursion_costs (depth : Nat) : check_costs lib catalog depth ∧
    inspect_costs lib catalog depth ∧ load_costs lib catalog depth := by
  induction depth with
  | zero =>
      refine ⟨?_, ?_, ?_⟩
      · intro identifier r t h
        rw [check_dialect] at h
        cases h
      · intro schema base r t h
        rw [inspect] at h
        cases h
      · intro key r document t h
        rw [load_resource] at h
        cases h
  | succ depth ih =>
      obtain ⟨hcheck, hinspect, hload⟩ := ih
      exact ⟨check_dialect_costs hload hcheck, inspect_step_costs hcheck hinspect,
        load_resource_costs hinspect⟩

end Costs

/-! ## The depth suffices

Errors are followed through the calls by what they are not. A call `spares` an error when it
does not fail with it, and this goes through a bind, so each of the functions outside the
recursion spares the two errors that only the recursion can come to: these functions fail with
an exception or with one of four fixed texts, none of which is the text of a cyclic dialect.
`finishes` is the case of the depth. The cyclic dialect is the case that another part of the
development needs, about which dialects a registration refuses. -/

section Finishes

/-- An error that only the recursion can come to: it runs out of depth, or meets a dialect
again. -/
def registration_error.of_recursion (e : registration_error) : Prop :=
  e = .unfinished ∨ e = .policy_error "Cyclic schema dialect declaration"

/-- What the calls outside the recursion fail with: an exception, or one of the texts of their
own checks. Neither is an error that the recursion comes to. -/
theorem registration_error.of_recursion.ne {e : registration_error} (h : e.of_recursion) :
    e ≠ .exception ∧ e ≠ .policy_error "Invalid schema document" ∧
      e ≠ .policy_error "Duplicate schema resource identifier" ∧
      e ≠ .policy_error "Unsupported required schema vocabulary" := by
  rcases h with rfl | rfl <;> decide

/-- The call does not fail with `e`. -/
def spares {α : Type} (e : registration_error) (x : Except registration_error α) : Prop :=
  x ≠ .error e

variable {e : registration_error}

/-- A bind spares an error when its first part does and every continuation of a value that the
first part returns does. The continuation may use that the value was returned. -/
theorem spares_bind {α β : Type} {x : Except registration_error α}
    {f : α → Except registration_error β} (hx : spares e x)
    (hf : ∀ a, x = .ok a → spares e (f a)) : spares e (x >>= f) := by
  cases x with
  | error e' => exact fun h => hx (congrArg Except.error (Except.error.inj h))
  | ok a => exact hf a rfl

theorem spares_ok {α : Type} (a : α) : spares e (.ok a) := nofun

theorem spares_error {α : Type} {e' : registration_error} (h : e ≠ e') :
    spares e (.error e' : Except registration_error α) := fun heq => h (Except.error.inj heq).symm

/-- A library call that throws is an exception, which is not an error of the recursion. -/
theorem spares_got {α : Type} (he : e.of_recursion) (x : Option α) : spares e (got x) := by
  cases x with
  | none => exact spares_error he.ne.1
  | some a => exact spares_ok a

/-- The conversion to a string throws on every other value, and it throws the exception of the
library, not an error of the recursion. -/
theorem spares_get_string (he : e.of_recursion) (value : json) : spares e (get_string value) := by
  cases value with
  | string text => exact spares_ok text
  | _ => exact spares_error he.ne.1

/-- The call does not run out of depth. -/
def finishes {α : Type} (x : Except registration_error α) : Prop := x ≠ .error .unfinished

theorem finishes_bind {α β : Type} {x : Except registration_error α}
    {f : α → Except registration_error β} (hx : finishes x)
    (hf : ∀ a, x = .ok a → finishes (f a)) : finishes (x >>= f) := spares_bind hx hf

theorem finishes_ok {α : Type} (a : α) : finishes (.ok a) := nofun

theorem finishes_got {α : Type} (x : Option α) : finishes (got x) := spares_got (.inl rfl) x

theorem finishes_get_string (value : json) : finishes (get_string value) :=
  spares_get_string (.inl rfl) value

theorem finishes_policy_error {α : Type} (what : String) :
    finishes (.error (.policy_error what) : Except registration_error α) := nofun

variable {uri order converted : Type} [DecidableEq order]
variable {lib : schema_library uri order converted} {root : json} {catalog : schema_catalog}
  {depth : Nat} {r t : registration uri order converted} {schema : schema_ref}
  {base inner key name : String}

theorem spares_find (he : e.of_recursion) : spares e (r.find lib key) :=
  spares_bind (spares_got he _) fun _ _ => spares_ok _

omit [DecidableEq order] in
/-- The check against the meta-schema fails with its own text, or with an exception of the
library that runs it, and is no part of the recursion. -/
theorem spares_validate (he : e.of_recursion) (value : json) :
    spares e (validate_schema lib value) := by
  unfold validate_schema
  split
  · exact spares_error he.ne.2.1
  refine spares_bind (spares_got he _) fun document _ => spares_bind (spares_got he _) ?_
  intro valid _
  split
  · exact spares_error he.ne.2.1
  · exact spares_ok _

omit [DecidableEq order] in
theorem spares_schema_base (he : e.of_recursion) (value : json) :
    spares e (schema_base lib value base) := by
  unfold schema_base
  split
  · exact spares_ok _
  · exact spares_bind (spares_got he _) fun _ _ => spares_bind (spares_get_string he _)
      fun _ _ => spares_bind (spares_got he _) fun _ _ => spares_ok _

/-- Registering an identifier fails when the identifier is taken already, with the text that
says so, or when the base does not parse. -/
theorem spares_register_id (he : e.of_recursion) : spares e (register_id lib schema base r) := by
  unfold register_id
  split
  · exact spares_ok _
  refine spares_bind (spares_got he _) fun u _ => ?_
  dsimp only
  split
  · exact spares_error he.ne.2.2.1
  · exact spares_ok _

/-- Each entry of the vocabularies is checked by itself, so the induction is over the entries:
an entry is no boolean, or is a vocabulary that is required and unsupported, or passes. -/
theorem spares_vocabularies (he : e.of_recursion) (value : json) :
    spares e (check_vocabularies value) := by
  unfold check_vocabularies
  split
  · exact spares_ok _
  rename_i entries _
  induction json.items entries with
  | nil => exact spares_ok _
  | cons entry rest ih =>
      refine spares_bind ?_ fun _ _ => ih
      unfold check_vocabulary
      split
      · split
        · exact spares_error he.ne.2.2.2
        · exact spares_ok _
      · exact spares_error he.ne.1

theorem spares_add_anchor (he : e.of_recursion) : spares e (add_anchor lib schema base name r) := by
  unfold add_anchor
  split
  · exact spares_ok _
  · exact spares_bind (spares_get_string he _) fun _ _ => spares_bind (spares_got he _)
      fun _ _ => spares_ok _

omit [DecidableEq order] in
theorem spares_add_reference (he : e.of_recursion) :
    spares e (add_reference lib schema base name r) := by
  unfold add_reference
  split
  · exact spares_ok _
  · exact spares_bind (spares_got he _) fun _ _ => spares_bind (spares_get_string he _)
      fun _ _ => spares_bind (spares_got he _) fun _ _ => spares_ok _

theorem finishes_find : finishes (r.find lib key) := spares_find (.inl rfl)

omit [DecidableEq order] in
theorem finishes_validate (value : json) : finishes (validate_schema lib value) :=
  spares_validate (.inl rfl) value

/-! ### Room

The measure of the recursion is the objects not yet inspected together with the dialects not yet
active. `check_dialect` uses up a dialect before it loads a document and `inspect` uses up an
object before it goes on to anything, so each of them calls the others with less room than it
had. `load_resource` uses up nothing, which is why two levels of depth are reckoned for each
unit of room. That there is a bound on the active dialects at all has to be shown: an active
dialect is different from the others, and some object of the root or the catalog declares it. -/

/-- An object of the root or the catalog declares the dialect. -/
def declared_text (root : json) (catalog : schema_catalog) (text : String) : Prop :=
  ∃ schema, genuine root catalog schema ∧
    schema.value.find? "$schema" = some (.string text)

/-- The key of the dialect that the object at a place declares. -/
def dialect_key (lib : schema_library uri order converted) (root : json)
    (catalog : schema_catalog) (p : place) : Option String :=
  match (value_at root catalog p).bind fun value => value.find? "$schema" with
  | some (.string text) => (lib.parse text).map (resource_key lib)
  | _ => none

def dialect_keys (lib : schema_library uri order converted) (root : json)
    (catalog : schema_catalog) : List String :=
  (object_places root catalog).filterMap (dialect_key lib root catalog)

omit [DecidableEq order] in
/-- There are no more dialects than objects: an object declares one dialect at most, the one its
own `$schema` names. -/
theorem length_dialect_keys : (dialect_keys lib root catalog).length ≤ objects_in root catalog := by
  rw [← length_object_places]
  exact List.length_filterMap_le _ _

omit [DecidableEq order] in
/-- A text that some object declares is among the dialects counted, under the key it is resolved
to. Only an object has members, so the value that declares it is one. -/
theorem mem_dialect_keys {text : String} {u : uri} (h : declared_text root catalog text)
    (hu : lib.parse text = some u) : resource_key lib u ∈ dialect_keys lib root catalog := by
  obtain ⟨schema, hgenuine, hdeclared⟩ := h
  have hobject : schema.value.is_object = true := by
    cases hvalue : schema.value with
    | object members => rfl
    | _ => rw [hvalue] at hdeclared; cases hdeclared
  have hvalue : value_at root catalog schema.place = some schema.value := hgenuine
  refine List.mem_filterMap.mpr ⟨schema.place, mem_object_places hgenuine hobject, ?_⟩
  simp [dialect_key, hvalue, hdeclared, hu]

/-- The active dialects are different ones, each declared by an object. -/
structure registration.within (lib : schema_library uri order converted) (root : json)
    (catalog : schema_catalog) (r : registration uri order converted) : Prop where
  distinct : r.active_dialects_.Nodup
  active : r.active_dialects_ ⊆ dialect_keys lib root catalog

omit [DecidableEq order] in
/-- As many dialects are active as there are objects, at most: they are distinct, and each is
among those that some object declares. -/
theorem registration.within.length (h : r.within lib root catalog) :
    r.active_dialects_.length ≤ objects_in root catalog :=
  (h.distinct.length_le_of_subset h.active).trans length_dialect_keys

omit [DecidableEq order] in
/-- The bound depends on the active dialects only, so it survives every call that keeps them. -/
theorem registration.within.same (h : r.within lib root catalog)
    (hactive : t.active_dialects_ = r.active_dialects_) : t.within lib root catalog :=
  ⟨hactive ▸ h.distinct, hactive ▸ h.active⟩

/-- No more objects are inspected than there are: the inspected places are distinct, and each is
the place of an object that can be followed to. -/
theorem registration.wf.length {pending : Option inspection} (h : r.wf lib root catalog pending) :
    r.inspected_.length ≤ objects_in root catalog := by
  rw [← List.length_map (fun n : inspection => n.schema.place), ← length_object_places]
  refine h.distinct.length_le_of_subset fun p hp => ?_
  obtain ⟨n, hn, rfl⟩ := List.mem_map.mp hp
  obtain ⟨hobject, hgenuine, -⟩ := h.inspected n hn
  exact mem_object_places hgenuine hobject

/-- What was inspected stays inspected, and the entries are distinct, so their number does not
fall when the state grows. -/
theorem registration.wf.length_mono {pending : Option inspection}
    (h : r.wf lib root catalog pending) (hle : r ≤ t) :
    r.inspected_.length ≤ t.inspected_.length :=
  (List.Nodup.of_map _ h.distinct).length_le_of_subset hle.inspected

/-- The objects still to be inspected and the dialects that can still become active. -/
def room (root : json) (catalog : schema_catalog) (r : registration uri order converted) : Nat :=
  (objects_in root catalog - r.inspected_.length) +
    (objects_in root catalog - r.active_dialects_.length)

/-- A call that returns leaves no more room than it found: the inspected objects only become
more, and the active dialects are those from before. -/
theorem room_mono {pending : Option inspection} (hwf : r.wf lib root catalog pending)
    (hle : r ≤ t) (hactive : t.active_dialects_ = r.active_dialects_) :
    room root catalog t ≤ room root catalog r := by
  have := hwf.length_mono hle
  unfold room
  rw [hactive]
  omega

/-! ### The functions that call each other

For each of the three functions, what is asked of a call so that its depth suffices: the state
is well formed, the active dialects are within bounds, and the depth is twice the room and one
or two more. The lemmas below take the statement at one depth to the next, following the body of
the function call by call, and every recursive call is paid for with a unit of room or with the
difference between the functions. Well-formedness and costs in between come from the
specification of the recursion. -/

variable (lib root catalog)

def check_finishes (depth : Nat) : Prop :=
  ∀ (text : String) (r : registration uri order converted), r.wf lib root catalog none →
    r.within lib root catalog → declared_text root catalog text →
    2 * room root catalog r + 1 ≤ depth → finishes (check_dialect lib catalog depth text r)

def inspect_finishes (depth : Nat) : Prop :=
  ∀ schema base pending (r : registration uri order converted), r.wf lib root catalog pending →
    (∀ p ∈ pending, p = ⟨schema, base⟩ ∧ r.inspected schema = false) →
    genuine root catalog schema → r.loaded lib schema.place → r.within lib root catalog →
    2 * room root catalog r + 1 ≤ depth → finishes (inspect lib catalog depth schema base r)

def load_finishes (depth : Nat) : Prop :=
  ∀ (key : String) (r : registration uri order converted), r.wf lib root catalog none →
    r.within lib root catalog → 2 * room root catalog r + 2 ≤ depth →
    finishes (load_resource lib catalog depth key r)

variable {lib root catalog}

/-- A dialect that is checked becomes active, and with that there is room for one less while its
document is loaded; the document's own dialect is then checked with the same dialects active. -/
theorem check_dialect_finishes (hload : load_finishes lib root catalog depth)
    (hcheck : check_finishes lib root catalog depth) :
    check_finishes lib root catalog (depth + 1) := by
  intro text r hwf hwithin hdeclared hdepth
  obtain ⟨-, -, hloadspec⟩ := recursion_spec lib root catalog depth
  obtain ⟨-, -, hloadcosts⟩ := recursion_costs lib catalog depth
  rw [check_dialect]
  refine finishes_bind (finishes_got _) fun u hu => ?_
  split
  · exact finishes_policy_error _
  dsimp only
  split
  · exact finishes_ok _
  split
  · exact finishes_policy_error _
  rename_i hactive
  have hkey := mem_dialect_keys hdeclared (got_eq_ok.mp hu)
  have hle₀ : r ≤ { r with active_dialects_ := resource_key lib u :: r.active_dialects_ } :=
    ⟨fun _ hn => hn, fun k entry hentry => ⟨entry, hentry, rfl, fun _ => rfl⟩, fun _ hk => hk,
      List.prefix_refl _⟩
  have hwf₀ := hwf.keep hle₀ rfl rfl rfl (fun _ he => .inl he) (fun _ hk => .inl hk)
  have hwithin₀ : registration.within lib root catalog
      { r with active_dialects_ := resource_key lib u :: r.active_dialects_ } :=
    ⟨List.nodup_cons.mpr ⟨hactive, hwithin.distinct⟩,
      List.cons_subset.mpr ⟨hkey, hwithin.active⟩⟩
  -- one more dialect is active
  have hroom : room root catalog
      { r with active_dialects_ := resource_key lib u :: r.active_dialects_ } + 1 ≤
        room root catalog r := by
    have hlength : r.active_dialects_.length + 1 ≤ objects_in root catalog := hwithin₀.length
    change (objects_in root catalog - r.inspected_.length) +
      (objects_in root catalog - (r.active_dialects_.length + 1)) + 1 ≤
        (objects_in root catalog - r.inspected_.length) +
          (objects_in root catalog - r.active_dialects_.length)
    omega
  refine finishes_bind (hload _ _ hwf₀ hwithin₀ (by omega)) ?_
  rintro ⟨document, r₁⟩ hl
  obtain ⟨hcovers, hwf₁, v, entry, -, hentry, rfl⟩ := hloadspec _ _ _ _ hwf₀ hl
  have hcosts := hloadcosts _ _ _ _ hl
  have hroom₁ := room_mono hwf₀ hcovers.grows hcosts.active
  dsimp only
  split
  · exact finishes_policy_error _
  rename_i declared hschema
  refine finishes_bind (finishes_get_string _) fun text' htext' => ?_
  rw [get_string_eq_ok.mp htext'] at hschema
  refine finishes_bind (hcheck _ _ hwf₁ (hwithin₀.same hcosts.active)
    ⟨entry.value, (hwf₁.resources _ (mem_resources hentry)).1, hschema⟩ (by omega)) ?_
  exact fun _ _ => finishes_ok _

/-- The object is marked first, so all that follows has room for one object less: the check of
its dialect, and the loop over its subschemas. The invariant of that loop is that the state is
well formed, has the document loaded, and has no more room than after the mark. -/
theorem inspect_step_finishes (hcheck : check_finishes lib root catalog depth)
    (hinspect : inspect_finishes lib root catalog depth) :
    inspect_finishes lib root catalog (depth + 1) := by
  intro schema base pending r hwf hpending hgenuine hloaded hwithin hdepth
  obtain ⟨hcheckspec, hinspectspec, -⟩ :=
    recursion_spec lib root catalog depth
  obtain ⟨hcheckcosts, hinspectcosts, -⟩ := recursion_costs lib catalog depth
  rw [inspect]
  split
  · exact finishes_ok _
  rename_i hnew
  simp only [Bool.or_eq_true, Bool.not_eq_true', not_or, Bool.not_eq_false,
    Bool.not_eq_true] at hnew
  refine finishes_bind (spares_schema_base (.inl rfl) _) fun inner hbase => ?_
  refine finishes_bind (spares_register_id (.inl rfl)) fun r₁ hid => ?_
  obtain ⟨hwf₁, hle₁, hinspected₁⟩ := hwf.enter (fun p hp => (hpending p hp).1) hnew.1 hgenuine
    hloaded hnew.2 hbase hid
  have hactive₁ : r₁.active_dialects_ = r.active_dialects_ := by
    obtain ⟨ht, -, -⟩ := register_id_spec hbase hid
    rw [ht]
  have hwithin₁ : r₁.within lib root catalog := hwithin.same hactive₁
  -- one object fewer is left
  have hroom₁ : room root catalog r₁ + 1 ≤ room root catalog r := by
    have hlength := hwf₁.length
    have hsize : r₁.inspected_.length = r.inspected_.length + 1 := by
      rw [hinspected₁, List.length_append, List.length_singleton]
    unfold room
    rw [hsize] at hlength
    rw [hsize, hactive₁]
    omega
  -- the dialect is declared by this object, which is genuine, so its key is one of those counted
  refine finishes_bind ?_ fun r₂ hdialect => ?_
  · unfold check_declared
    split
    · exact finishes_ok _
    rename_i declared hschema
    refine finishes_bind (finishes_get_string _) fun text htext => ?_
    rw [get_string_eq_ok.mp htext] at hschema
    exact hcheck _ _ hwf₁ hwithin₁ ⟨schema, hgenuine, hschema⟩ (by omega)
  refine finishes_bind (spares_vocabularies (.inl rfl) _) fun _ _ => ?_
  refine finishes_bind (foldlM_ne_error (I := fun _ _ => True)
    (fun _ _ _ _ => ⟨spares_add_anchor (.inl rfl), fun _ _ => trivial⟩) trivial)
    fun r₃ hanchors => ?_
  refine finishes_bind (foldlM_ne_error (I := fun _ _ => True)
    (fun _ _ _ _ => ⟨spares_add_reference (.inl rfl), fun _ _ => trivial⟩) trivial)
    fun r₄ hreferences => ?_
  have hdialect' := check_declared_cases hdialect
  have hmarked : (⟨schema, base⟩ : inspection) ∈ r₁.inspected_ := by simp [hinspected₁]
  obtain ⟨hcovers, hwf₄, -⟩ :=
    inspect_object hcheckspec hwf₁ hmarked hbase hdialect' hanchors hreferences
  have hactive₄ : r₄.active_dialects_ = r₁.active_dialects_ := by
    have hdeclared : r₁.costs r₂ := by
      rcases hdialect' with ⟨-, rfl⟩ | ⟨text, -, hc⟩
      · exact .refl _
      · exact hcheckcosts _ _ _ hc
    rw [(add_references_costs hreferences).1, (add_anchors_costs hanchors).active,
      hdeclared.active]
  -- the loop over the subschemas: its state keeps what the next call asks for
  refine foldlM_ne_error (I := fun rest s => rest ⊆ subschemas schema ∧
    s.wf lib root catalog none ∧ s.loaded lib schema.place ∧ s.within lib root catalog ∧
      room root catalog s ≤ room root catalog r₁) ?_
    ⟨List.Subset.refl _, hwf₄, hloaded.mono (hle₁.trans hcovers.grows), hwithin₁.same hactive₄,
      room_mono hwf₁ hcovers.grows hactive₄⟩
  rintro child rest s ⟨hsubset, hwfs, hloadeds, hwithins, hrooms⟩
  obtain ⟨hchild, hrest⟩ := List.cons_subset.mp hsubset
  have hinside := inside_subschemas root catalog hchild
  have hloadedc := hloadeds.of_document hinside.document
  refine ⟨hinspect _ _ none _ hwfs none_pending (hinside.genuine hgenuine) hloadedc hwithins
    (by omega), fun t hi => ?_⟩
  obtain ⟨hc, hwft, -⟩ := hinspectspec _ _ none _ _ hwfs none_pending (hinside.genuine hgenuine)
    hloadedc hi
  have hactive := (hinspectcosts _ _ _ _ hi).active
  exact ⟨hrest, hwft, hloadeds.mono hc.grows, hwithins.same hactive,
    (room_mono hwfs hc.grows hactive).trans hrooms⟩

/-- A document that is not in the table yet is put there and its root inspected, with the same
room and one level of depth less. The root was never inspected, because the document was not
loaded. -/
theorem load_resource_finishes (hinspect : inspect_finishes lib root catalog depth) :
    load_finishes lib root catalog (depth + 1) := by
  intro key r hwf hwithin hdepth
  rw [load_resource]
  refine finishes_bind finishes_find fun found hfound => ?_
  obtain ⟨u, hu, hlookup⟩ := find_eq_ok hfound
  split
  · exact finishes_ok _
  split
  · exact finishes_policy_error _
  rename_i value hvalue
  refine finishes_bind (finishes_validate _) fun _ _ => ?_
  dsimp only
  refine finishes_bind (finishes_got _) fun u' hu' => ?_
  refine finishes_bind (finishes_got _) fun document hdocument => ?_
  refine finishes_bind ?_ fun _ _ => finishes_ok _
  obtain ⟨hwf', hle, hfresh, hloaded⟩ :=
    hwf.load (got_eq_ok.mp hu')
      (by
        obtain rfl := Option.some.inj (hu.symm.trans (got_eq_ok.mp hu'))
        exact hlookup)
      hvalue (got_eq_ok.mp hdocument) rfl
  -- loading makes no dialect active and inspects nothing, so the root has the room of the caller
  have hroom := room_mono hwf hle rfl
  exact hinspect _ _ _ _ hwf' (by rintro p ⟨⟩; exact ⟨rfl, hfresh⟩)
    (@genuine_document _ _ (.catalog key) _ hvalue) hloaded (hwithin.same rfl) (by omega)

variable (lib root catalog) in
/-- At every depth the three functions finish when the depth covers the room. At depth zero none
of the three conditions on the depth can be met. -/
theorem recursion_finishes (depth : Nat) : check_finishes lib root catalog depth ∧
    inspect_finishes lib root catalog depth ∧ load_finishes lib root catalog depth := by
  induction depth with
  | zero =>
      refine ⟨?_, ?_, ?_⟩
      · intro text r _ _ _ hdepth
        omega
      · intro schema base pending r _ _ _ _ _ hdepth
        omega
      · intro key r _ _ hdepth
        omega
  | succ depth ih =>
      obtain ⟨hcheck, hinspect, hload⟩ := ih
      exact ⟨check_dialect_finishes hload hcheck, inspect_step_finishes hcheck hinspect,
        load_resource_finishes hinspect⟩

/-! ### The constructor

Between two references nothing is active, so the whole bound on the active dialects is available
to the next call, and the room is never more than twice the number of objects. The depth that
the constructor hands out covers that. The rounds of its loop are covered by the costs: a
reference is read at most once, there are at most two for each object inspected, and no more
objects are inspected than there are. -/

omit [DecidableEq order] in
/-- Whatever has been inspected and is active, there is room for each object once and for each
dialect once. -/
theorem room_le : room root catalog r ≤ 2 * objects_in root catalog := by
  unfold room
  omega

omit [DecidableEq order] in
/-- Between two references nothing is active. -/
theorem within_of_none (hactive : r.active_dialects_ = []) : r.within lib root catalog := by
  refine ⟨?_, ?_⟩ <;> rw [hactive]
  · exact List.nodup_nil
  · exact List.nil_subset _

/-- A reference is resolved by loading its document and, when it is a pointer into the document,
by inspecting what it points to. Both calls finish, and what they cost is what the reference
costs. -/
theorem inspect_reference_finishes {u : uri} (hwf : r.wf lib root catalog none)
    (hactive : r.active_dialects_ = []) (hdepth : 4 * objects_in root catalog + 2 ≤ depth) :
    finishes (inspect_reference lib catalog depth u r) ∧
      ∀ t, inspect_reference lib catalog depth u r = .ok t → r.costs t := by
  obtain ⟨-, hinspect, hload⟩ :=
    recursion_finishes lib root catalog depth
  obtain ⟨-, hinspectcosts, hloadcosts⟩ := recursion_costs lib catalog depth
  obtain ⟨-, -, hloadspec⟩ := recursion_spec lib root catalog depth
  refine ⟨?_, ?_⟩
  · have hroom : room root catalog r ≤ 2 * objects_in root catalog := room_le
    unfold inspect_reference
    dsimp only
    split
    · exact finishes_ok _
    refine finishes_bind (hload _ _ hwf (within_of_none hactive) (by omega)) ?_
    rintro ⟨document, r₁⟩ hl
    obtain ⟨hcovers, hwf₁, v, entry, hv, hentry, rfl⟩ := hloadspec _ _ _ _ hwf hl
    have hactive₁ := (hloadcosts _ _ _ _ hl).active.trans hactive
    have hroom₁ : room root catalog r₁ ≤ 2 * objects_in root catalog := room_le
    dsimp only
    split
    · exact finishes_ok _
    refine finishes_bind finishes_find fun found _ => ?_
    refine finishes_bind (finishes_got _) fun entry' _ => ?_
    split
    · refine finishes_bind (finishes_got _) fun anchor _ => ?_
      split
      · exact finishes_policy_error _
      · exact finishes_ok _
    · refine finishes_bind (finishes_got _) fun target htarget => ?_
      split
      · exact finishes_ok _
      refine finishes_bind (finishes_validate _) fun _ _ => ?_
      obtain ⟨hgenuine, hloaded⟩ := hwf₁.resources _ (mem_resources hentry)
      -- what a pointer leads to lies inside the document that was loaded
      have hinside := inside_pointer root catalog (got_eq_ok.mp htarget)
      exact hinspect _ _ none _ hwf₁ none_pending (hinside.genuine hgenuine)
        (hloaded.of_document hinside.document) (within_of_none hactive₁) (by omega)
  · intro t h
    rcases inspect_reference_cases h with ⟨-, rfl⟩ | ⟨document, r₁, hl, hrest⟩
    · exact .refl _
    have hcosts := hloadcosts _ _ _ _ hl
    rcases hrest with ⟨-, rfl⟩ | ⟨v, entry, -, -, -, ⟨-, -, rfl⟩ | ⟨-, target, -, hrest⟩⟩
    · exact hcosts
    · exact hcosts
    · rcases hrest with ⟨-, rfl⟩ | ⟨-, -, hi⟩
      · exact hcosts
      · exact hcosts.trans (hinspectcosts _ _ _ _ hi)

/-- The loop over the references ends: the index goes up with each round, and stays below the
number of references, which twice the number of objects bounds throughout. -/
theorem inspect_references_finishes {steps index : Nat} (hwf : r.wf lib root catalog none)
    (hactive : r.active_dialects_ = [])
    (hreferences : r.references_.length ≤ 2 * r.inspected_.length)
    (hindex : index ≤ r.references_.length)
    (hdepth : 4 * objects_in root catalog + 2 ≤ depth)
    (hsteps : 2 * objects_in root catalog + 1 ≤ steps + index) :
    finishes (inspect_references lib catalog depth steps index r) := by
  induction steps generalizing index r with
  | zero =>
      have := hwf.length
      omega
  | succ steps ih =>
      rw [inspect_references]
      split
      · exact finishes_ok _
      rename_i u hu
      have hlt : index < r.references_.length := (List.getElem?_eq_some_iff.mp hu).1
      obtain ⟨hfinishes, hcosts⟩ := inspect_reference_finishes (u := u) hwf hactive hdepth
      refine finishes_bind hfinishes fun r₁ h => ?_
      obtain ⟨hcovers, hwf₁, -⟩ := inspect_reference_spec hwf h
      -- the round may have added references, but it paid for them with objects
      have hpaid := (hcosts r₁ h).references
      have hlength := hcovers.grows.references.length_le
      exact ih hwf₁ ((hcosts r₁ h).active.trans hactive) (by omega) (by omega) (by omega)

/-- The constructor returns or throws: it does not run out of depth or of rounds. -/
theorem registration_finishes (lib : schema_library uri order converted) (root : json)
    (catalog : schema_catalog) : registration.make lib root catalog ≠ .error .unfinished := by
  refine finishes_bind (finishes_validate _) fun _ _ => ?_
  refine finishes_bind (finishes_got _) fun u _ => ?_
  dsimp only
  obtain ⟨-, hinspect, -⟩ := recursion_finishes lib root catalog
    (4 * objects_in root catalog + 2)
  obtain ⟨-, hspec, -⟩ := recursion_spec lib root catalog
    (4 * objects_in root catalog + 2)
  obtain ⟨-, hcosts, -⟩ := recursion_costs lib catalog
    (4 * objects_in root catalog + 2)
  have hroom : room root catalog (.start lib root u) ≤ 2 * objects_in root catalog := room_le
  refine finishes_bind (hinspect _ _ _ _ (wf_start u) (by rintro p ⟨⟩; exact ⟨rfl, rfl⟩)
    (@genuine_document _ _ .root _ rfl) nofun (within_of_none rfl) (by omega)) fun r h => ?_
  obtain ⟨-, hwf, -⟩ := hspec _ _ _ _ _ (wf_start u) (by rintro p ⟨⟩; exact ⟨rfl, rfl⟩)
    (@genuine_document _ _ .root _ rfl) nofun h
  have hpaid := hcosts _ _ _ _ h
  have hreferences : r.references_.length ≤ 2 * r.inspected_.length := by
    have := hpaid.references
    simpa [registration.start] using this
  exact inspect_references_finishes hwf hpaid.active hreferences (Nat.zero_le _) (Nat.le_refl _)
    (Nat.le_refl _)

end Finishes

end SynapseMcp.schema_backend
