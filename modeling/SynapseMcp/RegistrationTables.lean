/-
The tables of a registration.

A `schema_ref` is genuine when its value is the one at its place, in the root or in a
document of the catalog: nothing else ever gets into a table. `registration.grows` is the
order registrations go up in. The one thing that moves in it is the base of a resource,
and only until the object it names is inspected.

`registration.wf` is what holds between two steps. While a document is being loaded it
stands in `resources_` before it is inspected; that one is `pending`.
-/
import SynapseMcp.SchemaRegistration
import SynapseMcp.Traversal

set_option autoImplicit false

namespace SynapseMcp.schema_backend

open Traversal

/-! ## Places

A place is a document and a path in it, and the source's pointer to an object is such a place:
two pointers are equal when the places are. What `genuine` says is that the value carried along
with a place is the one found there, and `inside` that a step from one reference to another
stays in the document and keeps this. There is one lemma for each way the source goes down:
members, elements, the keywords that hold subschemas, and JSON pointers. -/

/-- The value at the end of a path. -/
def follow : json → List path_step → Option json
  | value, [] => some value
  | value, .member key :: rest => (value.find? key).bind fun inner => follow inner rest
  | .array elements, .element index :: rest =>
      (elements[index]?).bind fun inner => follow inner rest
  | _, .element _ :: _ => none

/-- A path in two parts is followed part by part, and nothing is at its end when the first part
leads nowhere. -/
theorem follow_append (value : json) (path rest : List path_step) :
    follow value (path ++ rest) = (follow value path).bind fun inner => follow inner rest := by
  induction path generalizing value with
  | nil => simp [follow]
  | cons step path ih =>
      cases step with
      | member key =>
          simp only [List.cons_append, follow]
          cases value.find? key with
          | none => rfl
          | some inner => simpa using ih inner
      | element index =>
          cases value with
          | array elements =>
              simp only [List.cons_append, follow]
              cases elements[index]? with
              | none => rfl
              | some inner => simpa using ih inner
          | _ => simp [follow]

section Places

variable {root : json} {catalog : schema_catalog} {schema child : schema_ref}

def document_value (root : json) (catalog : schema_catalog) : document → Option json
  | .root => some root
  | .catalog key => catalog.lookup key

def value_at (root : json) (catalog : schema_catalog) (p : place) : Option json :=
  (document_value root catalog p.document).bind fun value => follow value p.path

/-- The value is the one at the place. -/
def genuine (root : json) (catalog : schema_catalog) (schema : schema_ref) : Prop :=
  value_at root catalog schema.place = some schema.value

/-- The place determines the value, so two genuine references to one place are the same. That is
what makes comparing places the same as comparing pointers. -/
theorem genuine.eq (h : genuine root catalog schema) (h' : genuine root catalog child)
    (hplace : child.place = schema.place) : child = schema := by
  cases schema with
  | mk place value =>
      cases child with
      | mk place' value' =>
          obtain rfl : place' = place := hplace
          have hvalue : some value = some value' := h.symm.trans h'
          cases hvalue
          rfl

/-- A document as a whole. -/
theorem genuine_document {d : document} {value : json}
    (h : document_value root catalog d = some value) : genuine root catalog ⟨⟨d, []⟩, value⟩ := by
  simp [genuine, value_at, h, follow]

/-- A value inside another: the document is the same. -/
structure inside (root : json) (catalog : schema_catalog) (schema child : schema_ref) : Prop where
  document : child.place.document = schema.place.document
  genuine : genuine root catalog schema → genuine root catalog child

theorem inside.refl : inside root catalog schema schema := ⟨rfl, id⟩

/-- What lies inside something inside a schema lies inside the schema. -/
theorem inside.trans {inner : schema_ref} (h : inside root catalog schema child)
    (h' : inside root catalog child inner) : inside root catalog schema inner :=
  ⟨h'.document.trans h.document, fun hschema => h'.genuine (h.genuine hschema)⟩

/-- One step down: the value at the end of the step is at the longer path. -/
theorem inside_child {step : path_step} {value : json}
    (h : follow schema.value [step] = some value) :
    inside root catalog schema ⟨schema.place.child step, value⟩ := by
  refine ⟨rfl, fun hschema => ?_⟩
  unfold genuine value_at at hschema ⊢
  rw [Option.bind_eq_some_iff] at hschema ⊢
  obtain ⟨whole, hwhole, hpath⟩ := hschema
  refine ⟨whole, hwhole, ?_⟩
  change follow whole (schema.place.path ++ [step]) = some value
  rw [follow_append, hpath]
  exact h

/-- A member of an object lies inside it. -/
theorem inside_member {key : String} (h : schema.member? key = some child) :
    inside root catalog schema child := by
  obtain ⟨value, hvalue, rfl⟩ := Option.map_eq_some_iff.mp h
  exact inside_child (by simp [follow, hvalue])

/-- An element of an array lies inside it. -/
theorem inside_element {elements : List json} {index : Nat} {value : json}
    (helements : schema.value = .array elements) (h : elements[index]? = some value) :
    inside root catalog schema ⟨schema.place.child (.element index), value⟩ :=
  inside_child (by simp [follow, helements, h])

/-- The references to the elements of an array carry their indices, counted from where the list
begins. -/
theorem mem_elements {values : List json} {index : Nat}
    (h : child ∈ schema.elements index values) :
    ∃ i value, values[i]? = some value ∧
      child = ⟨schema.place.child (.element (index + i)), value⟩ := by
  induction values generalizing index with
  | nil => cases h
  | cons first rest ih =>
      rcases List.mem_cons.mp h with rfl | hrest
      · exact ⟨0, first, rfl, rfl⟩
      · obtain ⟨i, value, hvalue, rfl⟩ := ih hrest
        refine ⟨i + 1, value, hvalue, ?_⟩
        rw [Nat.add_right_comm, Nat.add_assoc]

/-- The children of a value are its members or its elements; a value that is neither and not
null counts as its own child, as the source has it. -/
theorem inside_children (h : child ∈ schema.children) : inside root catalog schema child := by
  unfold schema_ref.children at h
  cases hvalue : schema.value with
  | object members =>
      rw [hvalue] at h
      obtain ⟨member, -, hmember⟩ := List.mem_filterMap.mp h
      exact inside_member hmember
  | array elements =>
      rw [hvalue] at h
      obtain ⟨i, value, hi, rfl⟩ := mem_elements h
      rw [Nat.zero_add]
      exact inside_element hvalue hi
  | null =>
      rw [hvalue] at h
      cases h
  | _ =>
      rw [hvalue] at h
      rw [List.mem_singleton.mp h]
      exact .refl

/-- The children of a member, where there is such a member. -/
theorem inside_children_of {name : String} (h : child ∈ schema.children_of name) :
    inside root catalog schema child := by
  unfold schema_ref.children_of at h
  split at h
  · cases h
  · rename_i value hmember
    exact (inside_member hmember).trans (inside_children h)

variable (root catalog) in
/-- Every subschema that the source goes on to lies inside the schema, whichever of the four
kinds of keyword it stands under. -/
theorem inside_subschemas (h : child ∈ subschemas schema) : inside root catalog schema child := by
  simp only [subschemas, List.mem_append] at h
  rcases h with ((hmap | hvalue) | harray) | hdependency
  · obtain ⟨name, -, hname⟩ := List.mem_flatMap.mp hmap
    exact inside_children_of hname
  · obtain ⟨name, -, hname⟩ := List.mem_filterMap.mp hvalue
    exact inside_member hname
  · obtain ⟨name, -, hname⟩ := List.mem_flatMap.mp harray
    exact inside_children_of hname
  · exact inside_children_of (List.mem_filter.mp hdependency).1

/-- One token of a pointer names a member or, in an array, an index. -/
theorem inside_token {token : List Char} (h : schema.at_token token = some child) :
    inside root catalog schema child := by
  unfold schema_ref.at_token at h
  split at h
  · exact inside_member h
  · rename_i elements hvalue
    split at h
    · cases h
    · rename_i index _
      obtain ⟨value, hi, rfl⟩ := Option.map_eq_some_iff.mp h
      exact inside_element hvalue hi
  · cases h

/-- A pointer is followed token by token, each from where the last one led. -/
theorem inside_tokens {tokens : List (List Char)} (h : schema.at_tokens tokens = some child) :
    inside root catalog schema child := by
  induction tokens generalizing schema with
  | nil =>
      cases h
      exact .refl
  | cons token rest ih =>
      obtain ⟨next, hnext, hrest⟩ := Option.bind_eq_some_iff.mp h
      exact (inside_token hnext).trans (ih hrest)

variable (root catalog) in
/-- What a pointer leads to lies inside the value it starts from. -/
theorem inside_pointer {text : String} (h : schema.at_pointer text = some child) :
    inside root catalog schema child := by
  obtain ⟨tokens, -, htokens⟩ := Option.bind_eq_some_iff.mp h
  exact inside_tokens htokens

end Places

/-! ## Conversions that may throw

The two conversions that the functions below are built from, read backwards: when they return,
the library gave the value. -/

/-- A library call returns what it has, and throws when it has nothing. -/
theorem got_eq_ok {α : Type} {x : Option α} {a : α} : got x = .ok a ↔ x = some a := by
  cases x <;> simp [got]

/-- A conversion to a string returns only on a string. -/
theorem get_string_eq_ok {value : json} {text : String} :
    get_string value = .ok text ↔ value = .string text := by
  cases value <;> simp [get_string]

/-! ## `emplace` and `rebase`

`emplace` leaves an entry that is there alone, unlike an assignment, and `rebase` changes the
base of the entries at one place and nothing else. So a lookup that found something finds it
afterwards too, with the same value in it; these two lemmas carry most of the order below. -/

section Maps

variable {κ α : Type} [BEq κ] [LawfulBEq κ]

/-- The entry from before wins; the new one is found only under its own key, and only where
there was none. -/
theorem lookup_emplace (m : List (κ × α)) (key k : κ) (value : α) :
    (emplace m key value).lookup k =
      (m.lookup k).or (if k == key then some value else none) := by
  unfold emplace
  by_cases hk : k = key
  · subst hk
    rw [beq_self_eq_true, if_pos rfl]
    cases hm : m.lookup k with
    | none => simp [List.lookup_append, hm]
    | some found => simp [hm]
  · have hbeq : (k == key) = false := by simpa using hk
    rw [hbeq, if_neg Bool.false_ne_true, Option.or_none]
    split
    · rfl
    · simp [List.lookup_append, List.lookup_cons, hbeq]

/-- What was found is found still. -/
theorem lookup_emplace_of_some {m : List (κ × α)} {key k : κ} {value found : α}
    (h : m.lookup k = some found) : (emplace m key value).lookup k = some found := by
  rw [lookup_emplace, h]
  rfl

/-- Under its own key there is an entry now, the new one or the one it gave way to. -/
theorem lookup_emplace_self (m : List (κ × α)) (key : κ) (value : α) :
    ((emplace m key value).lookup key).isSome := by
  rw [lookup_emplace, beq_self_eq_true, if_pos rfl]
  cases m.lookup key <;> rfl

omit [LawfulBEq κ] in
/-- An entry of the table is one from before, or the new one. -/
theorem of_mem_emplace {m : List (κ × α)} {key : κ} {value : α} {entry : κ × α}
    (h : entry ∈ emplace m key value) : entry ∈ m ∨ entry = (key, value) := by
  unfold emplace at h
  split at h
  · exact .inl h
  · rcases List.mem_append.mp h with hm | hnew
    · exact .inl hm
    · exact .inr (List.mem_singleton.mp hnew)

end Maps

section Rebase

variable {order : Type}

/-- What `rebase` makes of one entry. -/
def rebased (schema : schema_ref) (base : String) (entry : resource) : resource :=
  if entry.value.place = schema.place then { entry with base := base } else entry

/-- The value of a resource is never touched by a change of base. -/
@[simp] theorem rebased_value (schema : schema_ref) (base : String) (entry : resource) :
    (rebased schema base entry).value = entry.value := by
  unfold rebased
  split <;> rfl

/-- `rebase` goes over the whole table, and acts on each entry by itself. -/
theorem rebase_eq (schema : schema_ref) (base : String) (m : List (order × resource)) :
    rebase schema base m = m.map fun entry => (entry.1, rebased schema base entry.2) := by
  unfold rebase rebased
  congr 1
  funext entry
  split <;> rfl

/-- A lookup after `rebase` finds what it found before, with its base changed if it names the
object. -/
theorem lookup_rebase [DecidableEq order] (schema : schema_ref) (base : String)
    (m : List (order × resource)) (k : order) :
    (rebase schema base m).lookup k = (m.lookup k).map (rebased schema base) := by
  rw [rebase_eq]
  induction m with
  | nil => rfl
  | cons entry rest ih =>
      rw [List.map_cons, List.lookup_cons, List.lookup_cons]
      split
      · rfl
      · exact ih

end Rebase

/-! ## The order registrations go up in

A later state has everything an earlier one had: the inspected objects, the resources under
their keys, the anchors, and the references in their order. The base of a resource is promised
only when its object was inspected or is no object, since until then `$id` can still move it.
The order is a preorder, and each fact about the tables that survives growth says so in a `mono`
lemma. -/

section Growth

variable {uri order converted : Type} [DecidableEq order] {r t : registration uri order converted}

omit [DecidableEq order] in
/-- The source's test is whether an address is in the set, which is whether some entry has the
place. -/
theorem inspected_iff {schema : schema_ref} :
    r.inspected schema = true ↔ ∃ entry ∈ r.inspected_, entry.schema.place = schema.place := by
  simp [registration.inspected]

/-- The second state has all that the first had, the base of a resource excepted as long as its
object was not inspected. -/
structure registration.grows (r t : registration uri order converted) : Prop where
  inspected : ∀ entry ∈ r.inspected_, entry ∈ t.inspected_
  resources : ∀ k entry, r.resources_.lookup k = some entry →
    ∃ entry', t.resources_.lookup k = some entry' ∧ entry'.value = entry.value ∧
      (r.inspected entry.value = true ∨ entry.value.value.is_object = false →
        entry'.base = entry.base)
  anchors : ∀ k, (r.anchors_.lookup k).isSome → (t.anchors_.lookup k).isSome
  references : r.references_ <+: t.references_

/-- What was inspected stays inspected. -/
theorem registration.grows.marked (h : r.grows t) {schema : schema_ref}
    (hr : r.inspected schema = true) : t.inspected schema = true := by
  obtain ⟨entry, hentry, hplace⟩ := inspected_iff.mp hr
  exact inspected_iff.mpr ⟨entry, h.inspected entry hentry, hplace⟩

instance : Preorder (registration uri order converted) where
  le := registration.grows
  le_refl r := ⟨fun _ h => h, fun _ entry h => ⟨entry, h, rfl, fun _ => rfl⟩, fun _ h => h,
    List.prefix_refl _⟩
  le_trans r t u h h' := by
    refine ⟨fun entry hr => h'.inspected entry (h.inspected entry hr), ?_,
      fun k hr => h'.anchors k (h.anchors k hr), h.references.trans h'.references⟩
    intro k entry hr
    obtain ⟨entry', ht, hvalue, hbase⟩ := h.resources k entry hr
    obtain ⟨entry'', hu, hvalue', hbase'⟩ := h'.resources k entry' ht
    refine ⟨entry'', hu, hvalue'.trans hvalue, fun hfixed => ?_⟩
    have hfixed' : t.inspected entry'.value = true ∨ entry'.value.value.is_object = false := by
      rw [hvalue]
      exact hfixed.imp_left h.marked
    exact (hbase' hfixed').trans (hbase hfixed)

/-- The document a place is in has an entry under its own key. -/
def registration.loaded (lib : schema_library uri order converted)
    (r : registration uri order converted) (p : place) : Prop :=
  ∀ key, p.document = .catalog key →
    ∃ u, lib.parse key = some u ∧ (r.resources_.lookup (lib.compared u)).isSome

/-- A document that is loaded stays loaded, since resources are not taken away. -/
theorem registration.loaded.mono {lib : schema_library uri order converted} {p : place}
    (h : r.loaded lib p) (hle : r ≤ t) : t.loaded lib p := by
  intro key hkey
  obtain ⟨u, hu, hsome⟩ := h key hkey
  obtain ⟨entry, hentry⟩ := Option.isSome_iff_exists.mp hsome
  obtain ⟨entry', hentry', -⟩ := hle.resources _ entry hentry
  exact ⟨u, hu, Option.isSome_iff_exists.mpr ⟨entry', hentry'⟩⟩

/-- Being loaded is a matter of the document only, so it holds of all its places alike. -/
theorem registration.loaded.of_document {lib : schema_library uri order converted} {p q : place}
    (h : r.loaded lib p) (hq : q.document = p.document) : r.loaded lib q :=
  fun key hkey => h key (hq ▸ hkey)

end Growth

/-! ## What the tables hold

`wf` says of each table where its entries come from: the inspected objects are genuine ones at
distinct places, a resource names a genuine value and has the base of the object it names, an
anchor is declared by an inspected object, a converted document is the conversion of its catalog
entry, and a checked dialect leads to draft 2020-12 by declarations that are in the tables. All
of these survive growth, so that a step only has to account for the entries it adds. -/

section Tables

variable {uri order converted : Type} [DecidableEq order]

/-- Following `$schema` through the registered resources ends at draft 2020-12. -/
inductive reaches_draft (lib : schema_library uri order converted)
    (r : registration uri order converted) : String → Prop
  | draft {identifier : String} {u : uri} (hu : lib.parse identifier = some u)
      (habsolute : lib.is_absolute u = true) (hfragment : lib.fragment u = "")
      (hkey : resource_key lib u = draft202012) : reaches_draft lib r identifier
  | declared {identifier next : String} {u v : uri} {entry : resource}
      (hu : lib.parse identifier = some u) (habsolute : lib.is_absolute u = true)
      (hfragment : lib.fragment u = "") (hv : lib.parse (resource_key lib u) = some v)
      (hentry : r.resources_.lookup (lib.compared v) = some entry)
      (hdeclared : entry.value.value.find? "$schema" = some (.string next))
      (hnext : reaches_draft lib r next) : reaches_draft lib r identifier

/-- A key of `checked_dialects_`. -/
def registration.checked (lib : schema_library uri order converted)
    (r : registration uri order converted) (key : String) : Prop :=
  ∃ v entry next, lib.parse key = some v ∧ r.resources_.lookup (lib.compared v) = some entry ∧
    entry.value.value.find? "$schema" = some (.string next) ∧ reaches_draft lib r next

/-- The object a resource names was inspected, and the resource has its base. -/
def registration.homed (lib : schema_library uri order converted)
    (r : registration uri order converted) (entry : resource) : Prop :=
  ∃ n ∈ r.inspected_, n.schema = entry.value ∧
    schema_base lib n.schema.value n.base = .ok entry.base

/-- An anchor is one that an inspected object declares. -/
def registration.anchored (lib : schema_library uri order converted)
    (r : registration uri order converted) (entry : order × schema_ref) : Prop :=
  ∃ n ∈ r.inspected_, n.schema = entry.2 ∧
    ∃ inner name text u, schema_base lib n.schema.value n.base = .ok inner ∧
      name ∈ ["$anchor", "$dynamicAnchor"] ∧ n.schema.value.find? name = some (.string text) ∧
        lib.parse (inner ++ "#" ++ text) = some u ∧ entry.1 = lib.compared u

/-- The invariant between two steps. The one exception, `pending`, is a document that was put
among the resources and is about to be inspected. -/
structure registration.wf (lib : schema_library uri order converted) (root : json)
    (catalog : schema_catalog) (pending : Option inspection)
    (r : registration uri order converted) : Prop where
  distinct : (r.inspected_.map fun n => n.schema.place).Nodup
  inspected : ∀ n ∈ r.inspected_, n.schema.value.is_object = true ∧
    genuine root catalog n.schema ∧ r.loaded lib n.schema.place
  resources : ∀ entry ∈ r.resources_, genuine root catalog entry.2.value ∧
    r.loaded lib entry.2.value.place
  homed : ∀ entry ∈ r.resources_, entry.2.value.value.is_object = true →
    r.homed lib entry.2 ∨ pending = some ⟨entry.2.value, entry.2.base⟩
  anchors : ∀ entry ∈ r.anchors_, r.anchored lib entry
  converted : ∀ entry ∈ r.converted_, ∃ value, catalog.lookup entry.1 = some value ∧
    lib.convert value = some entry.2
  checked : ∀ key ∈ r.checked_dialects_, r.checked lib key

variable {lib : schema_library uri order converted} {root : json} {catalog : schema_catalog}
  {pending : Option inspection} {r t : registration uri order converted}
  {schema : schema_ref} {base inner : String}

/-- A chain of declarations stays one, since the values of the resources on it do not change. -/
theorem reaches_draft.mono {identifier : String} (h : reaches_draft lib r identifier)
    (hle : r ≤ t) : reaches_draft lib t identifier := by
  induction h with
  | draft hu habsolute hfragment hkey => exact .draft hu habsolute hfragment hkey
  | declared hu habsolute hfragment hv hentry hdeclared _ ih =>
      obtain ⟨entry', hentry', hvalue, -⟩ := hle.resources _ _ hentry
      rw [← hvalue] at hdeclared
      exact .declared hu habsolute hfragment hv hentry' hdeclared ih

/-- A dialect that was checked stays so, by its chain. -/
theorem registration.checked.mono {key : String} (h : r.checked lib key) (hle : r ≤ t) :
    t.checked lib key := by
  obtain ⟨v, entry, next, hv, hentry, hdeclared, hreaches⟩ := h
  obtain ⟨entry', hentry', hvalue, -⟩ := hle.resources _ _ hentry
  rw [← hvalue] at hdeclared
  exact ⟨v, entry', next, hv, hentry', hdeclared, hreaches.mono hle⟩

/-- A resource that has its object's base stays so in a larger state. -/
theorem registration.homed.mono {entry : resource} (h : r.homed lib entry) (hle : r ≤ t) :
    t.homed lib entry := by
  obtain ⟨n, hn, hrest⟩ := h
  exact ⟨n, hle.inspected n hn, hrest⟩

/-- An anchor stays one that an inspected object declares. -/
theorem registration.anchored.mono {entry : order × schema_ref} (h : r.anchored lib entry)
    (hle : r ≤ t) : t.anchored lib entry := by
  obtain ⟨n, hn, hrest⟩ := h
  exact ⟨n, hle.inspected n hn, hrest⟩

/-- A resource that is found is one of the table. -/
theorem mem_resources {k : order} {entry : resource} (h : r.resources_.lookup k = some entry) :
    (k, entry) ∈ r.resources_ := by
  obtain ⟨l, l', heq, -⟩ := List.lookup_eq_some_iff.mp h
  rw [heq]
  exact List.mem_append_right _ List.mem_cons_self

/-- Two objects of the tables at one place are the same. -/
theorem registration.wf.same (h : r.wf lib root catalog pending) {n : inspection}
    (hn : n ∈ r.inspected_) (hgenuine : genuine root catalog schema)
    (hplace : n.schema.place = schema.place) : n.schema = schema :=
  hgenuine.eq (h.inspected n hn).2.1 hplace

/-- When the source finds an address among the inspected, the object itself was inspected and
not only one that looks like it. -/
theorem registration.wf.of_inspected (h : r.wf lib root catalog pending)
    (hgenuine : genuine root catalog schema) (hr : r.inspected schema = true) :
    ∃ n ∈ r.inspected_, n.schema = schema := by
  obtain ⟨n, hn, hplace⟩ := inspected_iff.mp hr
  exact ⟨n, hn, h.same hn hgenuine hplace⟩

/-- Between two steps no document is pending. -/
theorem none_pending {P : inspection → Prop} : ∀ p ∈ (none : Option inspection), P p :=
  fun _ h => absurd h (Option.not_mem_none _)

/-! ### Entering an object

An object is entered by two changes: its address goes into `inspected_`, and if it has an `$id`
it becomes a resource under that identifier, after every entry that names it has been given the
new base. The entries of other objects are not touched. What makes the invariant hold again is
that the object was not inspected before: then no entry that is already fixed can be one that
names it. -/

/-- Without `$id` nothing changes. With it the entries of the object are rebased and one is
added under the new identifier, unless another object has that identifier, which is refused. -/
theorem register_id_cases (h : register_id lib schema base r = .ok t) :
    (schema.value.find? "$id" = none ∧ t = r) ∨
      ∃ u entry, t = { r with
          resources_ := emplace (rebase schema base r.resources_) (lib.compared u)
            ⟨schema, base⟩ } ∧
        lib.parse base = some u ∧ t.resources_.lookup (lib.compared u) = some entry ∧
          entry.value.place = schema.place := by
  unfold register_id at h
  cases hid : schema.value.find? "$id" with
  | none =>
      rw [if_pos (by simp [json.contains, hid])] at h
      cases h
      exact .inl ⟨rfl, rfl⟩
  | some id =>
      rw [if_neg (by simp [json.contains, hid])] at h
      cases hu : lib.parse base with
      | none => simp [hu, got, bind, Except.bind] at h
      | some u =>
          obtain ⟨entry, hentry⟩ := Option.isSome_iff_exists.mp
            (lookup_emplace_self (rebase schema base r.resources_) (lib.compared u) ⟨schema, base⟩)
          by_cases hplace : entry.value.place = schema.place
          · simp [hu, got, bind, Except.bind, hentry, hplace] at h
            subst h
            exact .inr ⟨u, entry, rfl, rfl, hentry, hplace⟩
          · simp [hu, got, bind, Except.bind, hentry, hplace] at h

/-- What entering an object makes of a resource: its base is the object's if it names the
object, and stays if not. -/
structure entered (schema : schema_ref) (base inner : String) (entry entry' : resource) : Prop where
  value : entry'.value = entry.value
  base : entry'.base = inner ∨ entry'.base = entry.base ∧
    (entry.value.place = schema.place → base = inner)
  elsewhere : entry.value.place ≠ schema.place → entry'.base = entry.base

/-- An entry that names the object has the new base after `rebase`, and any other the old one.
-/
theorem entered.rebased (base : String) (entry : resource) :
    entered schema base inner entry (rebased schema inner entry) := by
  unfold schema_backend.rebased
  by_cases hplace : entry.value.place = schema.place
  · rw [if_pos hplace]
    exact ⟨rfl, .inl rfl, fun hne => absurd hplace hne⟩
  · rw [if_neg hplace]
    exact ⟨rfl, .inr ⟨rfl, fun heq => absurd heq hplace⟩, fun _ => rfl⟩

/-- The tables on entering: one object more, every resource `entered`, and at most the
object's own resource new. -/
theorem register_id_spec (hbase : schema_base lib schema.value base = .ok inner)
    (h : register_id lib schema inner (r.mark schema base) = .ok t) :
    t = { r with resources_ := t.resources_, inspected_ := r.inspected_ ++ [⟨schema, base⟩] } ∧
      (∀ k entry, r.resources_.lookup k = some entry →
        ∃ entry', t.resources_.lookup k = some entry' ∧ entered schema base inner entry entry') ∧
      ∀ entry' ∈ t.resources_, entry'.2 = ⟨schema, inner⟩ ∨
        ∃ entry, (entry'.1, entry) ∈ r.resources_ ∧ entered schema base inner entry entry'.2 := by
  rcases register_id_cases h with ⟨hid, rfl⟩ | ⟨u, entry, ht, -, -, -⟩
  · have heq : base = inner := by
      rw [schema_base, hid] at hbase
      exact Except.ok.inj hbase
    subst heq
    have hsame : ∀ entry : resource, entered schema base base entry entry :=
      fun entry => ⟨rfl, .inr ⟨rfl, fun _ => rfl⟩, fun _ => rfl⟩
    exact ⟨rfl, fun k entry hentry => ⟨entry, hentry, hsame entry⟩,
      fun entry' hmem => .inr ⟨entry'.2, hmem, hsame entry'.2⟩⟩
  · subst ht
    refine ⟨rfl, ?_, ?_⟩
    · intro k entry hentry
      refine ⟨rebased schema inner entry, lookup_emplace_of_some ?_, .rebased base entry⟩
      rw [lookup_rebase]
      exact congrArg _ hentry
    · intro entry' hmem
      rcases of_mem_emplace hmem with hold | hnew
      · rw [rebase_eq] at hold
        obtain ⟨entry, hentry, rfl⟩ := List.mem_map.mp hold
        exact .inr ⟨entry.2, hentry, .rebased base entry.2⟩
      · rw [hnew]
        exact .inl rfl

/-- The object that is entered is in the tables, and they are as they should be. -/
theorem registration.wf.enter (hwf : r.wf lib root catalog pending)
    (hpending : ∀ p ∈ pending, p = ⟨schema, base⟩) (hobject : schema.value.is_object = true)
    (hgenuine : genuine root catalog schema) (hloaded : r.loaded lib schema.place)
    (hnew : r.inspected schema = false) (hbase : schema_base lib schema.value base = .ok inner)
    (h : register_id lib schema inner (r.mark schema base) = .ok t) :
    t.wf lib root catalog none ∧ r ≤ t ∧ t.inspected_ = r.inspected_ ++ [⟨schema, base⟩] := by
  obtain ⟨ht, hlookup, hmem⟩ := register_id_spec hbase h
  have hinspected : t.inspected_ = r.inspected_ ++ [⟨schema, base⟩] := by rw [ht]
  have hself : (⟨schema, base⟩ : inspection) ∈ t.inspected_ := by simp [hinspected]
  -- whatever was inspected before stands in another place
  have hfresh : ∀ n ∈ r.inspected_, n.schema.place ≠ schema.place := by
    intro n hn heq
    have : r.inspected schema = true := inspected_iff.mpr ⟨n, hn, heq⟩
    rw [hnew] at this
    cases this
  have hle : r ≤ t := by
    have hreferences : t.references_ = r.references_ := by rw [ht]
    refine ⟨fun n hn => by simp [hinspected, hn], ?_, fun k hk => by rw [ht]; exact hk,
      hreferences ▸ List.prefix_refl _⟩
    intro k entry hentry
    obtain ⟨entry', hentry', hentered⟩ := hlookup k entry hentry
    refine ⟨entry', hentry', hentered.value, fun hfixed => hentered.elsewhere fun hplace => ?_⟩
    -- an entry that is fixed is not the one whose base changes here
    rcases hfixed with hmarked | hvalue
    · obtain ⟨n, hn, hplace'⟩ := inspected_iff.mp hmarked
      exact hfresh n hn (hplace'.trans hplace)
    · have hsame := hgenuine.eq (hwf.resources _ (mem_resources hentry)).1 hplace
      rw [hsame, hobject] at hvalue
      cases hvalue
  refine ⟨⟨?_, ?_, ?_, ?_, ?_, ?_, ?_⟩, hle, hinspected⟩
  · rw [hinspected, List.map_append, List.nodup_append]
    refine ⟨hwf.distinct, by simp, ?_⟩
    intro p hp q hq heq
    obtain ⟨n, hn, rfl⟩ := List.mem_map.mp hp
    rw [List.mem_singleton.mp hq] at heq
    exact hfresh n hn heq
  · intro n hn
    rw [hinspected] at hn
    rcases List.mem_append.mp hn with hold | hlast
    · obtain ⟨hobj, hgen, hload⟩ := hwf.inspected n hold
      exact ⟨hobj, hgen, hload.mono hle⟩
    · rw [List.mem_singleton.mp hlast]
      exact ⟨hobject, hgenuine, hloaded.mono hle⟩
  · intro entry' hentry'
    rcases hmem entry' hentry' with hown | ⟨entry, hentry, hentered⟩
    · rw [hown]
      exact ⟨hgenuine, hloaded.mono hle⟩
    · obtain ⟨hgen, hload⟩ := hwf.resources _ hentry
      rw [hentered.value]
      exact ⟨hgen, hload.mono hle⟩
  · intro entry' hentry' hobj
    have hhome : t.homed lib ⟨schema, inner⟩ := ⟨_, hself, rfl, hbase⟩
    rcases hmem entry' hentry' with hown | ⟨entry, hentry, hentered⟩
    · rw [hown]
      exact .inl hhome
    · left
      have hgen := (hwf.resources _ hentry).1
      rw [hentered.value] at hobj
      by_cases hplace : entry.value.place = schema.place
      · have hvalue : entry'.2.value = schema := hentered.value.trans (hgenuine.eq hgen hplace)
        rcases hentered.base with hinner | ⟨hold, hsame⟩
        · have hpair : entry'.2 = ⟨schema, inner⟩ := resource.ext hvalue hinner
          rw [hpair]
          exact hhome
        · -- without an `$id` the pending document keeps the key it was loaded under
          rcases hwf.homed _ hentry hobj with ⟨n, hn, hn', -⟩ | hpend
          · exact absurd (by rw [hn', hplace]) (hfresh n hn)
          · have hpair := hpending _ hpend
            have hkept : entry'.2.base = inner := by
              rw [hold, ← hsame hplace]
              exact congrArg inspection.base hpair
            have : entry'.2 = ⟨schema, inner⟩ := by
              rw [← hvalue, ← hkept]
            rw [this]
            exact hhome
      · have hsame : entry'.2 = entry :=
          resource.ext hentered.value (hentered.elsewhere hplace)
        rw [hsame]
        rcases hwf.homed _ hentry hobj with hhomed | hpend
        · exact hhomed.mono hle
        · have hpair := hpending _ hpend
          exact absurd (congrArg (fun p => p.schema.place) hpair) hplace
  · intro entry hentry
    rw [ht] at hentry
    exact (hwf.anchors entry hentry).mono hle
  · intro entry hentry
    rw [ht] at hentry
    exact hwf.converted entry hentry
  · intro key hkey
    rw [ht] at hkey
    exact (hwf.checked key hkey).mono hle

/-! ### The other changes

Making a dialect active or checked, adding an anchor or a reference: none of these enters an
object or names a resource, and one lemma covers them. The loading of a document is the step
that leaves one entry pending. -/

/-- A step that enters nothing and names no resource. Only the anchors and the checked dialects
may have grown, and of the new ones it has to be known what they name. -/
theorem registration.wf.keep (h : r.wf lib root catalog pending) (hle : r ≤ t)
    (hinspected : t.inspected_ = r.inspected_) (hresources : t.resources_ = r.resources_)
    (hconverted : t.converted_ = r.converted_)
    (hanchors : ∀ entry ∈ t.anchors_, entry ∈ r.anchors_ ∨ t.anchored lib entry)
    (hchecked : ∀ key ∈ t.checked_dialects_, key ∈ r.checked_dialects_ ∨ t.checked lib key) :
    t.wf lib root catalog pending := by
  refine ⟨hinspected ▸ h.distinct, ?_, ?_, ?_, ?_, hconverted ▸ h.converted, ?_⟩
  · intro n hn
    rw [hinspected] at hn
    obtain ⟨hobject, hgenuine, hloaded⟩ := h.inspected n hn
    exact ⟨hobject, hgenuine, hloaded.mono hle⟩
  · intro entry hentry
    rw [hresources] at hentry
    obtain ⟨hgenuine, hloaded⟩ := h.resources entry hentry
    exact ⟨hgenuine, hloaded.mono hle⟩
  · intro entry hentry hobject
    rw [hresources] at hentry
    exact (h.homed entry hentry hobject).imp_left fun hhomed => hhomed.mono hle
  · intro entry hentry
    rcases hanchors entry hentry with hold | hnew
    · exact (h.anchors entry hold).mono hle
    · exact hnew
  · intro key hkey
    rcases hchecked key hkey with hold | hnew
    · exact (h.checked key hold).mono hle
    · exact hnew

/-- A document of the catalog under its own key, before it is inspected. -/
theorem registration.wf.load (h : r.wf lib root catalog none) {key : String} {u : uri}
    {value : json} {document : converted} (hu : lib.parse key = some u)
    (hnone : r.resources_.lookup (lib.compared u) = none)
    (hvalue : catalog.lookup key = some value) (hconvert : lib.convert value = some document)
    (ht : t = { r with
      resources_ := emplace r.resources_ (lib.compared u) ⟨⟨⟨.catalog key, []⟩, value⟩, key⟩
      converted_ := emplace r.converted_ key document }) :
    t.wf lib root catalog (some ⟨⟨⟨.catalog key, []⟩, value⟩, key⟩) ∧ r ≤ t ∧
      t.inspected ⟨⟨.catalog key, []⟩, value⟩ = false ∧
      t.loaded lib ⟨.catalog key, []⟩ := by
  have hloaded : t.loaded lib ⟨.catalog key, []⟩ := by
    intro key' hkey'
    cases hkey'
    refine ⟨u, hu, ?_⟩
    rw [ht]
    exact lookup_emplace_self _ _ _
  have hle : r ≤ t := by
    subst ht
    exact ⟨fun _ hn => hn, fun k entry hentry =>
      ⟨entry, lookup_emplace_of_some hentry, rfl, fun _ => rfl⟩, fun _ hk => hk,
      List.prefix_refl _⟩
  have hgenuine : genuine root catalog ⟨⟨.catalog key, []⟩, value⟩ := genuine_document hvalue
  have hinspected : t.inspected_ = r.inspected_ := by rw [ht]
  -- an inspected object of the document would have had it loaded
  have hfresh : t.inspected ⟨⟨.catalog key, []⟩, value⟩ = false := by
    rw [Bool.eq_false_iff]
    intro hmarked
    obtain ⟨n, hn, hplace⟩ := inspected_iff.mp hmarked
    rw [hinspected] at hn
    obtain ⟨u', hu', hsome⟩ := (h.inspected n hn).2.2 key (by rw [hplace])
    obtain rfl := Option.some.inj (hu'.symm.trans hu)
    rw [hnone] at hsome
    cases hsome
  have hmem : ∀ entry ∈ t.resources_, entry ∈ r.resources_ ∨
      entry = (lib.compared u, ⟨⟨⟨.catalog key, []⟩, value⟩, key⟩) := by
    intro entry hentry
    rw [ht] at hentry
    exact of_mem_emplace hentry
  refine ⟨⟨hinspected ▸ h.distinct, ?_, ?_, ?_, ?_, ?_, ?_⟩, hle, hfresh, hloaded⟩
  · intro n hn
    rw [hinspected] at hn
    obtain ⟨hobject, hgen, hload⟩ := h.inspected n hn
    exact ⟨hobject, hgen, hload.mono hle⟩
  · intro entry hentry
    rcases hmem entry hentry with hold | rfl
    · obtain ⟨hgen, hload⟩ := h.resources entry hold
      exact ⟨hgen, hload.mono hle⟩
    · exact ⟨hgenuine, hloaded⟩
  · intro entry hentry hobject
    rcases hmem entry hentry with hold | rfl
    · rcases h.homed entry hold hobject with hhomed | hpending
      · exact .inl (hhomed.mono hle)
      · cases hpending
    · exact .inr rfl
  · intro entry hentry
    rw [ht] at hentry
    exact (h.anchors entry hentry).mono hle
  · intro entry hentry
    rw [ht] at hentry
    rcases of_mem_emplace hentry with hold | rfl
    · exact h.converted entry hold
    · exact ⟨value, hvalue, hconvert⟩
  · intro key' hkey'
    rw [ht] at hkey'
    exact (h.checked key' hkey').mono hle

variable {name : String}

/-- What `add_anchor` does for the object being inspected: the tables stay well formed, and an
anchor the object declares is found under the base it has inside. -/
theorem registration.wf.add_anchor (h : r.wf lib root catalog pending)
    (hmarked : (⟨schema, base⟩ : inspection) ∈ r.inspected_)
    (hbase : schema_base lib schema.value base = .ok inner)
    (hname : name ∈ ["$anchor", "$dynamicAnchor"])
    (hadd : add_anchor lib schema inner name r = .ok t) :
    t.wf lib root catalog pending ∧ r ≤ t ∧ t.inspected_ = r.inspected_ ∧
      ∀ value, schema.value.find? name = some value → ∃ text u, value = .string text ∧
        lib.parse (inner ++ "#" ++ text) = some u ∧
        (t.anchors_.lookup (lib.compared u)).isSome := by
  unfold schema_backend.add_anchor at hadd
  split at hadd
  · rename_i hnone
    cases hadd
    exact ⟨h, le_rfl, rfl, fun value hvalue => by rw [hnone] at hvalue; cases hvalue⟩
  rename_i value hvalue
  obtain ⟨text, htext, hadd⟩ := bind_eq_ok.mp hadd
  obtain ⟨u, hu, hadd⟩ := bind_eq_ok.mp hadd
  cases Except.ok.inj hadd
  rw [got_eq_ok] at hu
  obtain rfl := get_string_eq_ok.mp htext
  -- `emplace` keeps an entry that is there, so the table only grows
  have hle : r ≤ { r with anchors_ := emplace r.anchors_ (lib.compared u) schema } := by
    refine ⟨fun _ hn => hn, fun k entry hentry => ⟨entry, hentry, rfl, fun _ => rfl⟩, ?_,
      List.prefix_refl _⟩
    intro k hk
    obtain ⟨found, hfound⟩ := Option.isSome_iff_exists.mp hk
    exact Option.isSome_iff_exists.mpr ⟨found, lookup_emplace_of_some hfound⟩
  refine ⟨h.keep hle rfl rfl rfl ?_ fun _ hkey => .inl hkey, hle, rfl, ?_⟩
  -- what is new is the anchor of this object, under the URI of its base
  · intro entry hentry
    rcases of_mem_emplace hentry with hold | rfl
    · exact .inl hold
    · exact .inr ⟨_, hmarked, rfl, inner, name, text, u, hbase, hname, hvalue, hu, rfl⟩
  · intro value' hvalue'
    obtain rfl := Option.some.inj (hvalue.symm.trans hvalue')
    exact ⟨text, u, rfl, hu, lookup_emplace_self _ _ _⟩

/-- What `add_reference` does for the object being inspected: the reference, resolved against
the object's base, is on the list. -/
theorem registration.wf.add_reference (h : r.wf lib root catalog pending)
    (hadd : add_reference lib schema inner name r = .ok t) :
    t.wf lib root catalog pending ∧ r ≤ t ∧ t.inspected_ = r.inspected_ ∧
      ∀ value, schema.value.find? name = some value → ∃ outer text u,
        lib.parse inner = some outer ∧ value = .string text ∧ lib.parse text = some u ∧
          lib.resolve outer u ∈ t.references_ := by
  unfold schema_backend.add_reference at hadd
  split at hadd
  · rename_i hnone
    cases hadd
    exact ⟨h, le_rfl, rfl, fun value hvalue => by rw [hnone] at hvalue; cases hvalue⟩
  rename_i value hvalue
  obtain ⟨outer, houter, hadd⟩ := bind_eq_ok.mp hadd
  obtain ⟨text, htext, hadd⟩ := bind_eq_ok.mp hadd
  obtain ⟨u, hu, hadd⟩ := bind_eq_ok.mp hadd
  cases Except.ok.inj hadd
  rw [got_eq_ok] at hu houter
  obtain rfl := get_string_eq_ok.mp htext
  have hle : r ≤ { r with references_ := r.references_ ++ [lib.resolve outer u] } :=
    ⟨fun _ hn => hn, fun k entry hentry => ⟨entry, hentry, rfl, fun _ => rfl⟩, fun _ hk => hk,
      List.prefix_append _ _⟩
  refine ⟨h.keep hle rfl rfl rfl (fun _ hentry => .inl hentry) (fun _ hkey => .inl hkey), hle,
    rfl, ?_⟩
  intro value' hvalue'
  obtain rfl := Option.some.inj (hvalue.symm.trans hvalue')
  exact ⟨outer, text, u, houter, rfl, hu, by simp⟩

end Tables

end SynapseMcp.schema_backend
