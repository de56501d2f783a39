/-
When a dialect is refused as cyclic.

A dialect is being checked from the moment its key goes into `active_dialects_`, and with it
everything that the inspection of its document comes to. So a declaration that names it again
can stand anywhere in there. Which checks are going on, and the object each of them was asked
for by, is followed here beside the calls; a call that throws for a dialect met again has a
list with that moment in it, as in the lists of what a registration comes to.

The chain of dialects is what the `$schema` at the top of each resource names. A declaration
below the top of a resource is no part of it. By the time one is looked at, the declaration at
the top has been followed to draft 2020-12, and this is what tells the two kinds of refusal
apart.
-/
import SynapseMcp.RegistrationOnce

set_option autoImplicit false

namespace SynapseMcp.schema_backend

open Traversal

/-! ## The chain of dialects

The chain is read off the resources as they stand, by `next_dialect`, with no word of the
checks. `Ends` and `Returns` are said of it, so what a refusal is held against is a statement
about the documents alone.

Chains are the business of a module of its own, which knows of a partial function only: a chain
ends, or it returns to where it has been. Here the function is what a resource declares at its
top. -/

section Chain

variable {uri order converted : Type} [DecidableEq order]

/-- The key of a dialect, when it is one that can be checked. -/
def dialect_named (lib : schema_library uri order converted) (text : String) : Option String :=
  (lib.parse text).bind fun u =>
    if !lib.is_absolute u || lib.fragment u ≠ "" then none else some (resource_key lib u)

omit [DecidableEq order] in
/-- A text names a key if it parses, is absolute and has no fragment. -/
theorem dialect_named_eq_some {lib : schema_library uri order converted} {text key : String} :
    dialect_named lib text = some key ↔ ∃ u, lib.parse text = some u ∧
      ¬(!lib.is_absolute u || lib.fragment u ≠ "") = true ∧ resource_key lib u = key := by
  unfold dialect_named
  rw [Option.bind_eq_some_iff]
  refine exists_congr fun u => and_congr_right fun _ => ?_
  split
  · rename_i hunsupported
    exact ⟨nofun, fun h => absurd hunsupported h.1⟩
  · rename_i hsupported
    exact ⟨fun h => ⟨hsupported, Option.some.inj h⟩, fun h => congrArg some h.2⟩

/-- The object names the dialect. -/
def declares (lib : schema_library uri order converted) (schema : json) (key : String) : Prop :=
  ∃ text, schema.find? "$schema" = some (.string text) ∧ dialect_named lib text = some key

/-- The resource of a key: the registered one, or else the document of the catalog. -/
def registration.named (lib : schema_library uri order converted) (catalog : schema_catalog)
    (r : registration uri order converted) (key : String) : Option json :=
  (lib.parse key).bind fun u =>
    match r.resources_.lookup (lib.compared u) with
    | some entry => some entry.value.value
    | none => catalog.lookup key

/-- From a dialect to the one its resource declares at the top. Draft 2020-12 is the last. -/
def registration.next_dialect (lib : schema_library uri order converted)
    (catalog : schema_catalog) (r : registration uri order converted) (key : String) :
    Option String :=
  if key = draft202012 then none
  else
    match (r.named lib catalog key).bind (·.find? "$schema") with
    | some (.string text) => dialect_named lib text
    | _ => none

end Chain

/-! ## The lists

Each function of the registration has a companion that takes the same arguments and the checks
that go on, and gives the refusals its run comes to. A companion follows its function statement
by statement: what the function computes is computed with the function itself, and only where a
check begins, or a key is met again, has the companion something to add.

A refusal keeps the state it was made in, with the key, the object that asked and the checks
that went on, innermost first. So what is said of it later is about the tables as they were
then. -/

/-- A check that goes on: its key, and the object it was asked for by. -/
structure link where
  key : String
  declaration : schema_ref

/-- A dialect met again: the checks that go on, the innermost first, and the state. -/
structure refusal (uri order converted : Type) where
  key : String
  declaration : schema_ref
  checks : List link
  state : registration uri order converted

section Log

variable {uri order converted : Type} [DecidableEq order]
variable (lib : schema_library uri order converted) (catalog : schema_catalog)

/-- `check_declared`: with no `$schema` there is nothing to refuse. -/
def check_declared_refusals
    (refusals : String → registration uri order converted → List (refusal uri order converted))
    (schema : json) (r : registration uri order converted) :
    List (refusal uri order converted) :=
  match schema.find? "$schema" with
  | none => []
  | some declared => onward (get_string declared) fun text => refusals text r

mutual

/-- `check_dialect`: a key among `active_dialects_` is a refusal, and any other is put in front
of the checks for all that its document comes to. -/
def check_dialect_refusals : Nat → String → schema_ref → List link →
    registration uri order converted → List (refusal uri order converted)
  | 0, _, _, _, _ => []
  | depth + 1, identifier, declaration, checks, r =>
      onward (got (lib.parse identifier)) fun u =>
        if !lib.is_absolute u || lib.fragment u ≠ "" then []
        else
          let key := resource_key lib u
          if key = draft202012 ∨ key ∈ r.checked_dialects_ then []
          else if key ∈ r.active_dialects_ then [⟨key, declaration, checks, r⟩]
          else
            let r := { r with active_dialects_ := key :: r.active_dialects_ }
            let checks := ⟨key, declaration⟩ :: checks
            load_resource_refusals depth key checks r ++
              onward (load_resource lib catalog depth key r) fun loaded =>
                match loaded.1.value.find? "$schema" with
                | none => []
                | some declared => onward (get_string declared) fun text =>
                    check_dialect_refusals depth text loaded.1 checks loaded.2

/-- `inspect`: the checks are those it was called with, for the object and for all that lies in
it. -/
def inspect_refusals : Nat → schema_ref → String → List link →
    registration uri order converted → List (refusal uri order converted)
  | 0, _, _, _, _ => []
  | depth + 1, schema, base, checks, r =>
      if !schema.value.is_object || r.inspected schema then []
      else
        onward (schema_base lib schema.value base) fun inner =>
        onward (register_id lib schema inner (r.mark schema base)) fun r =>
        check_declared_refusals
          (fun text r => check_dialect_refusals depth text schema checks r) schema.value r ++
        onward (check_declared (fun text r => check_dialect lib catalog depth text r)
          schema.value r) fun r =>
        onward (check_vocabularies schema.value) fun _ =>
        onward (["$anchor", "$dynamicAnchor"].foldlM
          (fun r name => add_anchor lib schema inner name r) r) fun r =>
        onward (["$ref", "$dynamicRef"].foldlM
          (fun r name => add_reference lib schema inner name r) r) fun r =>
        foldlM_log (fun r child => inspect lib catalog depth child inner r)
          (fun r child => inspect_refusals depth child inner checks r) (subschemas schema) r

/-- `load_resource`: only a document taken from the catalog is inspected. -/
def load_resource_refusals : Nat → String → List link →
    registration uri order converted → List (refusal uri order converted)
  | 0, _, _, _ => []
  | depth + 1, key, checks, r =>
      onward (r.find lib key) fun found =>
        match found with
        | some _ => []
        | none =>
            match catalog.lookup key with
            | none => []
            | some value =>
                onward (validate_schema lib value) fun _ =>
                onward (got (lib.parse key)) fun u =>
                onward (got (lib.convert value)) fun document_ =>
                inspect_refusals depth ⟨⟨.catalog key, []⟩, value⟩ key checks
                  { r with
                    resources_ := emplace r.resources_ (lib.compared u)
                      ⟨⟨⟨.catalog key, []⟩, value⟩, key⟩
                    converted_ := emplace r.converted_ key document_ }

end

/-- `inspect_reference`: no check goes on, since the references are followed after everything
else. -/
def inspect_reference_refusals (depth : Nat) (u : uri) (r : registration uri order converted) :
    List (refusal uri order converted) :=
  let key := resource_key lib u
  if (lib.builtin_resources.lookup key).isSome then []
  else
    load_resource_refusals lib catalog depth key [] r ++
      onward (load_resource lib catalog depth key r) fun loaded =>
        let fragment := lib.fragment u
        if fragment = "" then []
        else
          onward (loaded.2.find lib key) fun found =>
          onward (got found) fun entry =>
          if fragment.toList.head? ≠ some '/' then []
          else
            onward (got (loaded.1.at_pointer fragment)) fun target =>
            if loaded.2.inspected target then []
            else
              onward (validate_schema lib target.value) fun _ =>
              inspect_refusals lib catalog depth target entry.base [] loaded.2

/-- `inspect_references`, one reference after another. -/
def inspect_references_refusals (depth : Nat) :
    Nat → Nat → registration uri order converted → List (refusal uri order converted)
  | 0, _, _ => []
  | steps + 1, index, r =>
      match r.references_[index]? with
      | none => []
      | some u =>
          inspect_reference_refusals lib catalog depth u r ++
            onward (inspect_reference lib catalog depth u r) fun r =>
              inspect_references_refusals depth steps (index + 1) r

/-- The dialects met again in the run of the constructor. -/
def registration.make_refusals (root : json) : List (refusal uri order converted) :=
  onward (validate_schema lib root) fun _ =>
  onward (got (lib.parse lib.default_base_uri)) fun u =>
  let depth := 4 * objects_in root catalog + 2
  inspect_refusals lib catalog depth ⟨⟨.root, []⟩, root⟩ lib.default_base_uri []
      (.start lib root u) ++
    onward (inspect lib catalog depth ⟨⟨.root, []⟩, root⟩ lib.default_base_uri
      (.start lib root u)) fun r =>
    inspect_references_refusals lib catalog depth (2 * objects_in root catalog + 1) 0 r

end Log

/-! ## What is known of the checks that go on

Of the list of checks three things are kept: it is `active_dialects_` with the objects beside
the keys; each object names its key and lies in the resource of the next check; and whatever an
inspected object declares has been followed, or is one of the keys, or is the one text that the
caller is about to follow. All three only look at what was inspected and loaded, and both grow,
so each comes with a lemma `mono`. -/

section Checks

variable {uri order converted : Type} [DecidableEq order]

/-- The object is the resource of the key. -/
def registration.top (lib : schema_library uri order converted)
    (r : registration uri order converted) (key : String) (schema : schema_ref) : Prop :=
  ∃ u entry, lib.parse key = some u ∧ r.resources_.lookup (lib.compared u) = some entry ∧
    entry.value = schema

/-- What the resource of the key declares at its top was followed to draft 2020-12. -/
def registration.followed (lib : schema_library uri order converted)
    (r : registration uri order converted) (key : String) : Prop :=
  ∃ schema, r.top lib key schema ∧
    ∀ text, schema.value.find? "$schema" = some (.string text) → reaches_draft lib r text

/-- Where an object is looked at, next to the innermost check: it is the resource of that key,
or lies below one that has been followed. -/
def registration.placed (lib : schema_library uri order converted)
    (r : registration uri order converted) (checks : List link) (schema : schema_ref) : Prop :=
  ∀ l ∈ checks.head?, r.top lib l.key schema ∨ r.followed lib l.key

/-- An inspected object that names the dialect. -/
def registration.names (lib : schema_library uri order converted)
    (r : registration uri order converted) (schema : schema_ref) (key : String) : Prop :=
  (∃ n ∈ r.inspected_, n.schema = schema) ∧ declares lib schema.value key

/-- Each check was asked for by an inspected object that names its key, and that object is
placed next to the check before. -/
def registration.chained (lib : schema_library uri order converted)
    (r : registration uri order converted) : List link → Prop
  | [] => True
  | l :: checks => r.names lib l.declaration l.key ∧ l.key ≠ draft202012 ∧
      r.placed lib checks l.declaration ∧ r.chained lib checks

/-- What an inspected object declares has been followed, or is being checked, or is the text
that is due. -/
def registration.accounted (lib : schema_library uri order converted)
    (r : registration uri order converted) (due : Option String) : Prop :=
  ∀ n ∈ r.inspected_, ∀ text, n.schema.value.find? "$schema" = some (.string text) →
    reaches_draft lib r text ∨
      (∃ key ∈ r.active_dialects_, dialect_named lib text = some key) ∨ due = some text

/-- The checks that go on and what they leave open, between two statements of the registration.
-/
structure registration.tracks (lib : schema_library uri order converted) (checks : List link)
    (due : Option String) (r : registration uri order converted) : Prop where
  active : r.active_dialects_ = checks.map link.key
  chained : r.chained lib checks
  accounted : r.accounted lib due

variable {lib : schema_library uri order converted} {catalog : schema_catalog}
  {r t : registration uri order converted} {schema : schema_ref} {checks : List link}
  {key : String} {due : Option String}

/-- An entry of a resource keeps its object. -/
theorem registration.top.mono (h : r.top lib key schema) (hle : r ≤ t) :
    t.top lib key schema := by
  obtain ⟨u, entry, hu, hentry, hvalue⟩ := h
  obtain ⟨entry', hentry', hvalue', -⟩ := hle.resources _ _ hentry
  exact ⟨u, entry', hu, hentry', hvalue'.trans hvalue⟩

/-- What was followed stays followed. -/
theorem registration.followed.mono (h : r.followed lib key) (hle : r ≤ t) :
    t.followed lib key := by
  obtain ⟨schema, htop, hall⟩ := h
  exact ⟨schema, htop.mono hle, fun text htext => (hall text htext).mono hle⟩

/-- An object stays where it is. -/
theorem registration.placed.mono (h : r.placed lib checks schema) (hle : r ≤ t) :
    t.placed lib checks schema :=
  fun l hl => (h l hl).imp (·.mono hle) (·.mono hle)

/-- An inspected object stays inspected, and its declaration is part of the document. -/
theorem registration.names.mono (h : r.names lib schema key) (hle : r ≤ t) :
    t.names lib schema key := by
  obtain ⟨⟨n, hn, hschema⟩, hdeclares⟩ := h
  exact ⟨⟨n, hle.inspected n hn, hschema⟩, hdeclares⟩

/-- Down the list, each check keeps its object and its place. -/
theorem registration.chained.mono (h : r.chained lib checks) (hle : r ≤ t) :
    t.chained lib checks := by
  induction checks with
  | nil => trivial
  | cons l checks ih =>
      obtain ⟨hnames, hdraft, hplaced, hchained⟩ := h
      exact ⟨hnames.mono hle, hdraft, hplaced.mono hle, ih hchained⟩

/-- What is newly inspected was settled with it, so its dialect is checked already and nothing
more is owed for it than was before. -/
theorem registration.accounted.mono (h : r.accounted lib none)
    (hcovers : Covers (inspections lib) r t) (hactive : t.active_dialects_ = r.active_dialects_) :
    t.accounted lib none := by
  intro n hn text htext
  rcases hcovers.settles n hn with hold | ⟨inner, -, hprovides⟩
  · rcases h n hold text htext with hreaches | ⟨key, hkey, hnamed⟩ | hdue
    · exact .inl (hreaches.mono hcovers.grows)
    · exact .inr (.inl ⟨key, hactive ▸ hkey, hnamed⟩)
    · cases hdue
  · obtain ⟨identifier, heq, hreaches⟩ := hprovides.dialect _ htext
    cases heq
    exact .inl hreaches

/-- Across a call that leaves `active_dialects_` as it was and settles what it inspects. -/
theorem registration.tracks.mono (h : r.tracks lib checks none)
    (hcovers : Covers (inspections lib) r t) (hactive : t.active_dialects_ = r.active_dialects_) :
    t.tracks lib checks none :=
  ⟨hactive.trans h.active, h.chained.mono hcovers.grows, h.accounted.mono hcovers hactive⟩

/-! ### Refusals

Two notions meet here. `at_tops` is about the checks: from the one that is met again to the
object that asks for it, everything stands at the top of a resource. `deserved` is about the
chain: it comes back to itself. They agree because a top is a link of the chain, and because an
object that is no top lies in a resource whose own chain has ended, and then every chain that
leads there ends too. -/

/-- From the check that goes on for the key to the object that names it again, each object that
asked for a check is the resource whose check was going on. -/
def registration.circles (lib : schema_library uri order converted)
    (r : registration uri order converted) (key : String) : List link → schema_ref → Prop
  | [], _ => False
  | l :: checks, declaration => r.top lib l.key declaration ∧
      (l.key = key ∨ r.circles lib key checks l.declaration)

/-- The dialect was met again along the tops of the resources. -/
def refusal.at_tops (lib : schema_library uri order converted)
    (n : refusal uri order converted) : Prop :=
  n.state.circles lib n.key n.checks n.declaration

/-- An inspected object names a dialect whose chain comes back to itself. -/
def refusal.deserved (lib : schema_library uri order converted) (catalog : schema_catalog)
    (n : refusal uri order converted) : Prop :=
  ∃ i ∈ n.state.inspected_, ∃ key, declares lib i.schema.value key ∧
    Returns (n.state.next_dialect lib catalog) key

/-- What a refusal meets. -/
structure refusal.sound (lib : schema_library uri order converted)
    (n : refusal uri order converted) : Prop where
  again : n.key ∈ n.checks.map link.key
  draft : n.key ≠ draft202012
  names : n.state.names lib n.declaration n.key
  placed : n.state.placed lib n.checks n.declaration
  tracks : n.state.tracks lib n.checks none

/-- The declaration at the top of a resource is the next link of the chain. -/
theorem next_of_top (htop : r.top lib key schema) (hkey : key ≠ draft202012) {next : String}
    (hnext : declares lib schema.value next) : r.next_dialect lib catalog key = some next := by
  obtain ⟨u, entry, hu, hentry, rfl⟩ := htop
  obtain ⟨text, htext, hnamed⟩ := hnext
  have hfound : r.named lib catalog key = some entry.value.value := by
    rw [registration.named, hu, Option.bind_some, hentry]
  rw [registration.next_dialect, if_neg hkey, hfound, Option.bind_some, htext]
  exact hnamed

variable (catalog) in
/-- A chain that reaches draft 2020-12 ends there: by induction on the chain, each of its steps
is the step `check_dialect` takes from that key. -/
theorem reaches_draft.ends {text : String} (h : reaches_draft lib r text) :
    ∃ key, dialect_named lib text = some key ∧ Ends (r.next_dialect lib catalog) key := by
  induction h with
  | @draft identifier u hu habsolute hfragment hkey =>
      refine ⟨resource_key lib u, by simp [dialect_named, hu, habsolute, hfragment], .stop ?_⟩
      rw [registration.next_dialect, if_pos hkey]
  | @declared identifier next u v entry hu habsolute hfragment hv hentry hdeclared _ ih =>
      refine ⟨resource_key lib u, by simp [dialect_named, hu, habsolute, hfragment], ?_⟩
      obtain ⟨key, hnamed, hends⟩ := ih
      by_cases hdraft : resource_key lib u = draft202012
      · apply Ends.stop
        rw [registration.next_dialect, if_pos hdraft]
      · exact .step (next_of_top ⟨v, entry, hv, hentry, rfl⟩ hdraft ⟨next, hdeclared, hnamed⟩) hends

variable (catalog) in
/-- A resource that was followed has a chain that ends: by what it declares, or because it
declares no dialect. -/
theorem registration.followed.ends (h : r.followed lib key) :
    Ends (r.next_dialect lib catalog) key := by
  obtain ⟨schema, ⟨u, entry, hu, hentry, rfl⟩, hall⟩ := h
  have hfound : r.named lib catalog key = some entry.value.value := by
    rw [registration.named, hu, Option.bind_some, hentry]
  by_cases hdraft : key = draft202012
  · apply Ends.stop
    rw [registration.next_dialect, if_pos hdraft]
  cases hdeclared : entry.value.value.find? "$schema" with
  | none =>
      apply Ends.stop
      rw [registration.next_dialect, if_neg hdraft, hfound, Option.bind_some, hdeclared]
  | some declared =>
      cases declared with
      | string text =>
          obtain ⟨next, hnamed, hends⟩ := (hall text hdeclared).ends catalog
          exact .step (next_of_top ⟨u, entry, hu, hentry, rfl⟩ hdraft ⟨text, hdeclared, hnamed⟩)
            hends
      | _ =>
          apply Ends.stop
          rw [registration.next_dialect, if_neg hdraft, hfound, Option.bind_some, hdeclared]

variable (catalog) in
/-- Round the tops, from the key to what the last object names. -/
theorem cycle_of_circles {declaration : schema_ref} (hchained : r.chained lib checks)
    (h : r.circles lib key checks declaration) {next : String}
    (hnext : declares lib declaration.value next) :
    Relation.TransGen (fun a b => r.next_dialect lib catalog a = some b) key next := by
  induction checks generalizing declaration next with
  | nil => cases h
  | cons l checks ih =>
      obtain ⟨hnames, hdraft, -, hrest⟩ := hchained
      obtain ⟨htop, hkey | hcircles⟩ := h
      · rw [← hkey]
        exact .single (next_of_top htop hdraft hnext)
      · exact (ih hrest hcircles hnames.2).tail (next_of_top htop hdraft hnext)

variable (catalog) in
/-- Where the last object names a dialect whose chain ends, all the chains end. -/
theorem ends_of_named {declaration : schema_ref} (hchained : r.chained lib checks)
    (hplaced : r.placed lib checks declaration) {next : String}
    (hnext : declares lib declaration.value next) (hends : Ends (r.next_dialect lib catalog) next) :
    ∀ l ∈ checks, Ends (r.next_dialect lib catalog) l.key := by
  induction checks generalizing declaration next with
  | nil => simp
  | cons l checks ih =>
      obtain ⟨hnames, hdraft, hplaced', hrest⟩ := hchained
      have hkey : Ends (r.next_dialect lib catalog) l.key := by
        rcases hplaced l rfl with htop | hfollowed
        · exact .step (next_of_top htop hdraft hnext) hends
        · exact hfollowed.ends catalog
      rw [List.forall_mem_cons]
      exact ⟨hkey, ih hrest hplaced' hnames.2 hkey⟩

variable (catalog) in
/-- Where one of the objects is no top, the chain from the key ends: at the resource that the
object lies in, which has been followed. -/
theorem ends_of_not_circles {declaration : schema_ref} (hchained : r.chained lib checks)
    (hplaced : r.placed lib checks declaration) (hagain : key ∈ checks.map link.key)
    (h : ¬r.circles lib key checks declaration) : Ends (r.next_dialect lib catalog) key := by
  induction checks generalizing declaration with
  | nil => cases hagain
  | cons l checks ih =>
      obtain ⟨hnames, hdraft, hplaced', hrest⟩ := hchained
      -- the innermost object that is no top; above it everything is in the chain
      by_cases htop : r.top lib l.key declaration
      · have hkey : ¬(l.key = key ∨ r.circles lib key checks l.declaration) :=
          fun hor => h ⟨htop, hor⟩
        rw [not_or] at hkey
        have hbelow : key ∈ checks.map link.key := by
          rcases List.mem_cons.mp hagain with heq | hmem
          · exact absurd heq.symm hkey.1
          · exact hmem
        exact ih hrest hplaced' hbelow hkey.2
      · have hends : Ends (r.next_dialect lib catalog) l.key :=
          ((hplaced l rfl).resolve_left htop).ends catalog
        rcases List.mem_cons.mp hagain with rfl | hmem
        · exact hends
        · obtain ⟨l', hl', rfl⟩ := List.mem_map.mp hmem
          exact ends_of_named catalog hrest hplaced' hnames.2 hends l' hl'

/-- A refusal is deserved exactly if the dialect was met again along the tops. -/
theorem refusal.sound.deserved_iff {n : refusal uri order converted} (h : n.sound lib) :
    n.deserved lib catalog ↔ n.at_tops lib := by
  constructor
  · rintro ⟨i, hi, key, ⟨text, htext, hnamed⟩, hreturns⟩
    by_contra htops
    -- a chain that ends somewhere is where all the checks lead
    have hend := ends_of_not_circles catalog h.tracks.chained h.placed h.again htops
    have hall := ends_of_named catalog h.tracks.chained h.placed h.names.2 hend
    refine Ends.not_returns ?_ hreturns
    rcases h.tracks.accounted i hi text htext with hreaches | ⟨key', hactive, hnamed'⟩ | hdue
    · obtain ⟨key', hnamed', hends⟩ := hreaches.ends catalog
      obtain rfl := Option.some.inj (hnamed.symm.trans hnamed')
      exact hends
    · obtain rfl := Option.some.inj (hnamed.symm.trans hnamed')
      rw [h.tracks.active] at hactive
      obtain ⟨l, hl, rfl⟩ := List.mem_map.mp hactive
      exact hall l hl
    · cases hdue
  · intro htops
    have hcycle := cycle_of_circles catalog h.tracks.chained htops h.names.2
    obtain ⟨⟨i, hi, hschema⟩, hdeclares⟩ := h.names
    exact ⟨i, hi, n.key, hschema ▸ hdeclares, n.key, .refl, hcycle⟩

end Checks

/-! ## The functions that call each other

`Reports` says that a function throws `cyclic` exactly where its list is not empty, and that
every refusal in the list is sound. It is proved for the three functions together, by induction
on the depth, with `tracks` as what each of them is called with. A statement that cannot throw
this error is passed over by `Reports.value`; a call by `Reports.bind`, with the specification
of the call for the state it leaves.

`sound` has what a refusal is known to be: its key is among the checks, the object names it, and
lies where the innermost check may meet it. The equivalence with the chain is read off `sound`
alone. -/

/-- The error of a dialect that is met again. -/
abbrev cyclic : registration_error := .policy_error "Cyclic schema dialect declaration"

/-- It is one of the errors that only the recursion throws. -/
theorem cyclic_of_recursion : cyclic.of_recursion := .inr rfl

section Recursion

variable {uri order converted : Type} [DecidableEq order]
variable (lib : schema_library uri order converted) (root : json) (catalog : schema_catalog)

/-- `check_dialect`, called for the text that an inspected object declares. -/
def check_reports (depth : Nat) : Prop :=
  ∀ identifier declaration checks (r : registration uri order converted),
    r.wf lib root catalog none → r.tracks lib checks (some identifier) →
    (∃ n ∈ r.inspected_, n.schema = declaration) →
    declaration.value.find? "$schema" = some (.string identifier) →
    r.placed lib checks declaration →
    Reports cyclic (refusal.sound lib)
      (check_dialect_refusals lib catalog depth identifier declaration checks r)
      (check_dialect lib catalog depth identifier r)

/-- `inspect`, called for an object that lies where the innermost check has come to. -/
def inspect_reports (depth : Nat) : Prop :=
  ∀ schema base pending checks (r : registration uri order converted),
    r.wf lib root catalog pending →
    (∀ p ∈ pending, p = ⟨schema, base⟩ ∧ r.inspected schema = false) →
    genuine root catalog schema → r.loaded lib schema.place → r.tracks lib checks none →
    r.placed lib checks schema →
    Reports cyclic (refusal.sound lib)
      (inspect_refusals lib catalog depth schema base checks r)
      (inspect lib catalog depth schema base r)

/-- `load_resource`, called for the key of the innermost check, or with no check going on. -/
def load_reports (depth : Nat) : Prop :=
  ∀ key checks (r : registration uri order converted), r.wf lib root catalog none →
    r.tracks lib checks none → (∀ l ∈ checks.head?, l.key = key) →
    Reports cyclic (refusal.sound lib)
      (load_resource_refusals lib catalog depth key checks r)
      (load_resource lib catalog depth key r)

variable {lib root catalog} {depth : Nat} {r t : registration uri order converted}
  {schema declaration : schema_ref} {checks : List link} {identifier key : String}

/-- What is being checked is no part of what grows. -/
theorem le_of_active (active : List String) : r ≤ { r with active_dialects_ := active } :=
  ⟨fun _ hn => hn, fun _ entry hentry => ⟨entry, hentry, rfl, fun _ => rfl⟩, fun _ hk => hk,
    List.prefix_refl _⟩

/-- The check of the text that was due goes on. -/
theorem registration.tracks.enter (h : r.tracks lib checks (some identifier))
    (hinspected : ∃ n ∈ r.inspected_, n.schema = declaration)
    (hdeclared : declaration.value.find? "$schema" = some (.string identifier))
    (hplaced : r.placed lib checks declaration) (hnamed : dialect_named lib identifier = some key)
    (hdraft : key ≠ draft202012) :
    registration.tracks lib (⟨key, declaration⟩ :: checks) none
      { r with active_dialects_ := key :: r.active_dialects_ } := by
  have hle : r ≤ { r with active_dialects_ := key :: r.active_dialects_ } := le_of_active _
  refine ⟨?_, ⟨⟨hinspected, identifier, hdeclared, hnamed⟩, hdraft, hplaced.mono hle,
    h.chained.mono hle⟩, ?_⟩
  · change key :: r.active_dialects_ = _
    rw [h.active]
    rfl
  · intro n hn text htext
    rcases h.accounted n hn text htext with hreaches | ⟨key', hkey', hnamed'⟩ | hdue
    · exact .inl (hreaches.mono hle)
    · exact .inr (.inl ⟨key', List.mem_cons_of_mem key hkey', hnamed'⟩)
    · cases hdue
      exact .inr (.inl ⟨key, List.mem_cons_self, hnamed⟩)

/-- The check of a dialect throws where its key is active, and otherwise where the document or
the check of the dialect named at its top does. -/
theorem check_dialect_reports (hload : load_reports lib root catalog depth)
    (hcheck : check_reports lib root catalog depth) :
    check_reports lib root catalog (depth + 1) := by
  intro identifier declaration checks r hwf htracks hinspected hdeclared hplaced
  obtain ⟨-, -, hloadspec⟩ := recursion_spec lib root catalog depth
  obtain ⟨hcheckcosts, -, hloadcosts⟩ := recursion_costs lib catalog depth
  rw [check_dialect_refusals, check_dialect]
  refine .value (spares_got cyclic_of_recursion _) fun u hu => ?_
  by_cases hsupported : (!lib.is_absolute u || lib.fragment u ≠ "") = true
  · rw [if_pos hsupported, if_pos hsupported]
    exact .silent (spares_error (by decide))
  rw [if_neg hsupported, if_neg hsupported]
  have hnamed : dialect_named lib identifier = some (resource_key lib u) :=
    dialect_named_eq_some.mpr ⟨u, got_eq_ok.mp hu, hsupported, rfl⟩
  dsimp only
  by_cases hdone : resource_key lib u = draft202012 ∨ resource_key lib u ∈ r.checked_dialects_
  · rw [if_pos hdone, if_pos hdone]
    exact .ok
  rw [if_neg hdone, if_neg hdone]
  rw [not_or] at hdone
  by_cases hactive : resource_key lib u ∈ r.active_dialects_
  · -- the text that is due names an active dialect
    rw [if_pos hactive, if_pos hactive]
    refine .one ⟨htracks.active ▸ hactive, hdone.1, ⟨hinspected, identifier, hdeclared, hnamed⟩,
      hplaced, htracks.active, htracks.chained, ?_⟩
    intro n hn text htext
    rcases htracks.accounted n hn text htext with hreaches | hkey | hdue
    · exact .inl hreaches
    · exact .inr (.inl hkey)
    · cases hdue
      exact .inr (.inl ⟨_, hactive, hnamed⟩)
  rw [if_neg hactive, if_neg hactive]
  have hle₀ : r ≤ { r with active_dialects_ := resource_key lib u :: r.active_dialects_ } :=
    le_of_active _
  have hwf₀ := hwf.keep hle₀ rfl rfl rfl (fun _ he => .inl he) (fun _ hk => .inl hk)
  -- the key and its object become the innermost check
  have htracks₀ := htracks.enter hinspected hdeclared hplaced hnamed hdone.1
  refine (hload _ _ _ hwf₀ htracks₀ (by rintro l ⟨⟩; rfl)).bind ?_
  rintro ⟨document, r₁⟩ hl
  obtain ⟨hcovers, hwf₁, v, entry, hv, hentry, rfl⟩ := hloadspec _ _ _ _ hwf₀ hl
  have htracks₁ := htracks₀.mono hcovers (hloadcosts _ _ _ _ hl).active
  dsimp only
  cases hschema : entry.value.value.find? "$schema" with
  | none => exact .silent (spares_error (by decide))
  | some declared =>
      refine .value (spares_get_string cyclic_of_recursion _) fun text htext => ?_
      rw [get_string_eq_ok.mp htext] at hschema
      have hobject : entry.value.value.is_object = true := by
        cases hvalue : entry.value.value with
        | object members => rfl
        | _ => rw [hvalue] at hschema; cases hschema
      have hhomed := (hwf₁.homed _ (mem_resources hentry) hobject).resolve_right (by simp)
      obtain ⟨n, hn, hn', -⟩ := hhomed
      -- the declaration at the top of the resource: the next of the chain
      refine .after (hcheck text entry.value _ r₁ hwf₁ ⟨htracks₁.active, htracks₁.chained, ?_⟩
        ⟨n, hn, hn'⟩ hschema ?_) fun _ _ => spares_ok _
      · intro n hn text htext
        rcases htracks₁.accounted n hn text htext with hreaches | hkey | hdue
        · exact .inl hreaches
        · exact .inr (.inl hkey)
        · cases hdue
      · rintro l ⟨⟩
        exact .inl ⟨v, entry, hv, hentry, rfl⟩

/-- The inspection of an object: its own declaration is due until it is followed, and from there
on the objects below are at home in a resource that has been followed. -/
theorem inspect_step_reports (hcheck : check_reports lib root catalog depth)
    (hinspect : inspect_reports lib root catalog depth) :
    inspect_reports lib root catalog (depth + 1) := by
  intro schema base pending checks r hwf hpending hgenuine hloaded htracks hplaced
  obtain ⟨hcheckspec, hinspectspec, -⟩ := recursion_spec lib root catalog depth
  obtain ⟨hcheckcosts, hinspectcosts, -⟩ := recursion_costs lib catalog depth
  rw [inspect_refusals, inspect]
  by_cases hdone : (!schema.value.is_object || r.inspected schema) = true
  · rw [if_pos hdone, if_pos hdone]
    exact .ok
  rw [if_neg hdone, if_neg hdone]
  simp only [Bool.or_eq_true, Bool.not_eq_true', not_or, Bool.not_eq_false,
    Bool.not_eq_true] at hdone
  refine .value (spares_schema_base cyclic_of_recursion _) fun inner hbase => ?_
  refine .value (spares_register_id cyclic_of_recursion) fun r₁ hid => ?_
  obtain ⟨hwf₁, hle₁, hinspected₁⟩ := hwf.enter (fun p hp => (hpending p hp).1) hdone.1 hgenuine
    hloaded hdone.2 hbase hid
  have hactive₁ : r₁.active_dialects_ = r.active_dialects_ := by
    obtain ⟨ht, -, -⟩ := register_id_spec hbase hid
    rw [ht]
  have hmarked : (⟨schema, base⟩ : inspection) ∈ r₁.inspected_ := by simp [hinspected₁]
  -- what the object declares itself is due
  have haccounted : ∀ n ∈ r₁.inspected_, ∀ text,
      n.schema.value.find? "$schema" = some (.string text) → reaches_draft lib r₁ text ∨
        (∃ key ∈ r₁.active_dialects_, dialect_named lib text = some key) ∨ n.schema = schema := by
    intro n hn text htext
    rw [hinspected₁] at hn
    rcases List.mem_append.mp hn with hold | hlast
    · rcases htracks.accounted n hold text htext with hreaches | hkey | hdue
      · exact .inl (hreaches.mono hle₁)
      · rw [hactive₁]
        exact .inr (.inl hkey)
      · cases hdue
    · rw [List.mem_singleton.mp hlast]
      exact .inr (.inr rfl)
  have hdeclared : Reports cyclic (refusal.sound lib)
      (check_declared_refusals
        (fun text r => check_dialect_refusals lib catalog depth text schema checks r)
        schema.value r₁)
      (check_declared (fun text r => check_dialect lib catalog depth text r)
        schema.value r₁) := by
    unfold check_declared_refusals check_declared
    cases hschema : schema.value.find? "$schema" with
    | none => exact .ok
    | some declared =>
        refine .value (spares_get_string cyclic_of_recursion _) fun text htext => ?_
        rw [get_string_eq_ok.mp htext] at hschema
        refine hcheck text schema checks r₁ hwf₁
          ⟨hactive₁.trans htracks.active, htracks.chained.mono hle₁, ?_⟩ ⟨_, hmarked, rfl⟩ hschema
          (hplaced.mono hle₁)
        intro n hn text' htext'
        rcases haccounted n hn text' htext' with hreaches | hkey | hself
        · exact .inl hreaches
        · exact .inr (.inl hkey)
        · rw [hself, hschema] at htext'
          cases htext'
          exact .inr (.inr rfl)
  refine hdeclared.bind fun r₂ hdialect => ?_
  refine .value (spares_vocabularies cyclic_of_recursion _) fun _ _ => ?_
  refine .value (foldlM_ne_error (I := fun _ _ => True)
    (fun _ _ _ _ => ⟨spares_add_anchor cyclic_of_recursion, fun _ _ => trivial⟩) trivial)
    fun r₃ hanchors => ?_
  refine .value (foldlM_ne_error (I := fun _ _ => True)
    (fun _ _ _ _ => ⟨spares_add_reference cyclic_of_recursion, fun _ _ => trivial⟩) trivial)
    fun r₄ hreferences => ?_
  have hdialect' := check_declared_cases hdialect
  obtain ⟨hcovers, hwf₄, hreaches, -⟩ :=
    inspect_object hcheckspec hwf₁ hmarked hbase hdialect' hanchors hreferences
  have hactive₄ : r₄.active_dialects_ = r₁.active_dialects_ := by
    have hcosts : r₁.costs r₂ := by
      rcases hdialect' with ⟨-, rfl⟩ | ⟨text, -, hc⟩
      · exact .refl _
      · exact hcheckcosts _ _ _ hc
    rw [(add_references_costs hreferences).1, (add_anchors_costs hanchors).active, hcosts.active]
  -- the own declaration is followed by now, so nothing is due
  have htracks₄ : r₄.tracks lib checks none := by
    refine ⟨(hactive₄.trans hactive₁).trans htracks.active,
      htracks.chained.mono (hle₁.trans hcovers.grows), ?_⟩
    intro n hn text htext
    rcases hcovers.settles n hn with hold | ⟨inner', -, hprovides⟩
    · rcases haccounted n hold text htext with hreaches' | hkey | hself
      · exact .inl (hreaches'.mono hcovers.grows)
      · rw [hactive₄]
        exact .inr (.inl hkey)
      · rw [hself] at htext
        obtain ⟨identifier, heq, hreaches'⟩ := hreaches _ htext
        cases heq
        exact .inl hreaches'
    · obtain ⟨identifier, heq, hreaches'⟩ := hprovides.dialect _ htext
      cases heq
      exact .inl hreaches'
  -- below this object: if it is the resource of the innermost check, that one is followed now
  have hplaced₄ : ∀ child, r₄.placed lib checks child := by
    intro child l hl
    rcases (hplaced.mono (hle₁.trans hcovers.grows)) l hl with htop | hfollowed
    · refine .inr ⟨schema, htop, fun text htext => ?_⟩
      obtain ⟨identifier, heq, hreaches'⟩ := hreaches _ htext
      cases heq
      exact hreaches'
    · exact .inr hfollowed
  -- over the objects below: the state has only grown, and the checks are the same ones
  refine .foldlM (I := fun rest s => rest ⊆ subschemas schema ∧ s.wf lib root catalog none ∧
    s.loaded lib schema.place ∧ r₄ ≤ s ∧ s.tracks lib checks none) ?_
    ⟨List.Subset.refl _, hwf₄, hloaded.mono (hle₁.trans hcovers.grows), le_refl r₄, htracks₄⟩
  rintro child rest s ⟨hsubset, hwfs, hloadeds, hles, htrackss⟩
  obtain ⟨hchild, hrest⟩ := List.cons_subset.mp hsubset
  have hinside := inside_subschemas root catalog hchild
  have hloadedc := hloadeds.of_document hinside.document
  refine ⟨hinspect child inner none checks s hwfs none_pending (hinside.genuine hgenuine) hloadedc
    htrackss ((hplaced₄ child).mono hles), fun t hi => ?_⟩
  obtain ⟨hc, hwft, -⟩ := hinspectspec _ _ none _ _ hwfs none_pending (hinside.genuine hgenuine)
    hloadedc hi
  exact ⟨hrest, hwft, hloadeds.mono hc.grows, hles.trans hc.grows,
    htrackss.mono hc (hinspectcosts _ _ _ _ hi).active⟩

/-- The document of the catalog is inspected as the top of the resource of the key. -/
theorem load_resource_reports (hinspect : inspect_reports lib root catalog depth) :
    load_reports lib root catalog (depth + 1) := by
  intro key checks r hwf htracks hhead
  rw [load_resource_refusals, load_resource]
  refine .value (spares_find cyclic_of_recursion) fun found hfound => ?_
  obtain ⟨u, hu, hlookup⟩ := find_eq_ok hfound
  cases found with
  | some entry => exact .ok
  | none =>
  cases hvalue : catalog.lookup key with
  | none => exact .silent (spares_error (by decide))
  | some value =>
  dsimp only
  refine .value (spares_validate cyclic_of_recursion _) fun _ _ => ?_
  refine .value (spares_got cyclic_of_recursion _) fun u' hu' => ?_
  refine .value (spares_got cyclic_of_recursion _) fun document hdocument => ?_
  obtain rfl := Option.some.inj (hu.symm.trans (got_eq_ok.mp hu'))
  obtain ⟨hwf', hle, hfresh, hloaded⟩ := hwf.load hu hlookup hvalue (got_eq_ok.mp hdocument) rfl
  refine .after (hinspect _ key _ checks _ hwf' (by rintro p ⟨⟩; exact ⟨rfl, hfresh⟩)
    (@genuine_document _ _ (.catalog key) _ hvalue) hloaded ?_ ?_) fun _ _ => spares_ok _
  · exact htracks.mono (covers_of_same hle rfl) rfl
  · -- the document is the resource of the key
    intro l hl
    rw [hhead l hl]
    refine .inl ⟨u, ⟨⟨⟨.catalog key, []⟩, value⟩, key⟩, hu, ?_, rfl⟩
    change (emplace r.resources_ (lib.compared u) _).lookup (lib.compared u) = _
    rw [lookup_emplace, hlookup, beq_self_eq_true, if_pos rfl]
    rfl

variable (lib root catalog) in
/-- The three functions at every depth; at depth zero they throw, and not for a cycle. -/
theorem recursion_reports (depth : Nat) : check_reports lib root catalog depth ∧
    inspect_reports lib root catalog depth ∧ load_reports lib root catalog depth := by
  induction depth with
  | zero =>
      refine ⟨?_, ?_, ?_⟩
      · intro identifier declaration checks r _ _ _ _ _
        rw [check_dialect_refusals, check_dialect]
        exact .silent (spares_error (by decide))
      · intro schema base pending checks r _ _ _ _ _ _
        rw [inspect_refusals, inspect]
        exact .silent (spares_error (by decide))
      · intro key checks r _ _ _
        rw [load_resource_refusals, load_resource]
        exact .silent (spares_error (by decide))
  | succ depth ih =>
      obtain ⟨hcheck, hinspect, hload⟩ := ih
      exact ⟨check_dialect_reports hload hcheck, inspect_step_reports hcheck hinspect,
        load_resource_reports hinspect⟩

/-! ### The constructor

Outside of the recursion no check goes on, so the list of checks is empty, and an object may
stand anywhere. -/

variable (depth) in
/-- One reference, and that no check goes on after it. -/
theorem inspect_reference_reports (u : uri) (hwf : r.wf lib root catalog none)
    (htracks : r.tracks lib [] none) :
    Reports cyclic (refusal.sound lib) (inspect_reference_refusals lib catalog depth u r)
        (inspect_reference lib catalog depth u r) ∧
      ∀ t, inspect_reference lib catalog depth u r = .ok t → t.tracks lib [] none := by
  obtain ⟨-, hinspect, hload⟩ := recursion_reports lib root catalog depth
  obtain ⟨-, -, hloadspec⟩ := recursion_spec lib root catalog depth
  obtain ⟨-, hinspectcosts, hloadcosts⟩ := recursion_costs lib catalog depth
  refine ⟨?_, fun t h => ?_⟩
  · unfold inspect_reference_refusals inspect_reference
    dsimp only
    by_cases hbuiltin : (lib.builtin_resources.lookup (resource_key lib u)).isSome = true
    · rw [if_pos hbuiltin, if_pos hbuiltin]
      exact .ok
    rw [if_neg hbuiltin, if_neg hbuiltin]
    -- loading the document may report a cycle, and that is the loading's own report
    refine (hload _ [] _ hwf htracks (by simp)).bind ?_
    rintro ⟨document, r₁⟩ hl
    obtain ⟨hcovers, hwf₁, v, entry, hv, hentry, rfl⟩ := hloadspec _ _ _ _ hwf hl
    have htracks₁ := htracks.mono hcovers (hloadcosts _ _ _ _ hl).active
    dsimp only
    by_cases hempty : lib.fragment u = ""
    · rw [if_pos hempty, if_pos hempty]
      exact .ok
    rw [if_neg hempty, if_neg hempty]
    refine .value (spares_find cyclic_of_recursion) fun found _ => ?_
    refine .value (spares_got cyclic_of_recursion _) fun entry' _ => ?_
    by_cases hslash : (lib.fragment u).toList.head? ≠ some '/'
    · rw [if_pos hslash, if_pos hslash]
      -- an anchor that is not registered is another kind of refusal
      refine .silent (spares_bind (spares_got cyclic_of_recursion _) fun anchor _ => ?_)
      split
      · exact spares_error (by decide)
      · exact spares_ok _
    rw [if_neg hslash, if_neg hslash]
    refine .value (spares_got cyclic_of_recursion _) fun target htarget => ?_
    by_cases hmarked : r₁.inspected target = true
    · rw [if_pos hmarked, if_pos hmarked]
      exact .ok
    rw [if_neg hmarked, if_neg hmarked]
    -- the pointer's target is inspected with no check under way, as at the root
    refine .value (spares_validate cyclic_of_recursion _) fun _ _ => ?_
    obtain ⟨hgenuine, hloaded⟩ := hwf₁.resources _ (mem_resources hentry)
    have hinside := inside_pointer root catalog (got_eq_ok.mp htarget)
    exact hinspect _ _ none [] _ hwf₁ none_pending (hinside.genuine hgenuine)
      (hloaded.of_document hinside.document) htracks₁ nofun
  -- no check goes on after it: none of the ways through it leaves one active
  · obtain ⟨hcovers, -, -⟩ := inspect_reference_spec hwf h
    refine htracks.mono hcovers ?_
    rcases inspect_reference_cases h with ⟨-, rfl⟩ | ⟨document, r₁, hl, hrest⟩
    · rfl
    have hactive := (hloadcosts _ _ _ _ hl).active
    rcases hrest with ⟨-, rfl⟩ | ⟨v, entry, -, -, -, ⟨-, -, rfl⟩ | ⟨-, target, -, hrest⟩⟩
    · exact hactive
    · exact hactive
    · rcases hrest with ⟨-, rfl⟩ | ⟨-, -, hi⟩
      · exact hactive
      · exact (hinspectcosts _ _ _ _ hi).active.trans hactive

/-- All the references, with those that are found on the way. -/
theorem inspect_references_reports {steps index : Nat} (hwf : r.wf lib root catalog none)
    (htracks : r.tracks lib [] none) :
    Reports cyclic (refusal.sound lib)
      (inspect_references_refusals lib catalog depth steps index r)
      (inspect_references lib catalog depth steps index r) := by
  induction steps generalizing index r with
  | zero => exact .silent (spares_error (by decide))
  | succ steps ih =>
      rw [inspect_references_refusals, inspect_references]
      cases r.references_[index]? with
      | none => exact .ok
      | some u =>
          obtain ⟨hreports, hnext⟩ := inspect_reference_reports depth u hwf htracks
          refine hreports.bind fun t ht => ?_
          obtain ⟨-, hwft, -⟩ := inspect_reference_spec hwf ht
          exact ih hwft (hnext t ht)

omit [DecidableEq order] in
/-- Nothing is inspected and nothing is being checked. -/
theorem tracks_start [DecidableEq order] (u : uri) :
    (registration.start lib root u).tracks lib [] none :=
  ⟨rfl, trivial, nofun⟩

variable (lib root catalog) in
/-- The constructor throws for a cyclic dialect exactly where its list has a refusal. -/
theorem make_reports : Reports cyclic (refusal.sound lib)
    (registration.make_refusals lib catalog root) (registration.make lib root catalog) := by
  unfold registration.make_refusals registration.make
  refine .value (spares_validate cyclic_of_recursion _) fun _ _ => ?_
  refine .value (spares_got cyclic_of_recursion _) fun u _ => ?_
  obtain ⟨-, hinspect, -⟩ := recursion_reports lib root catalog (4 * objects_in root catalog + 2)
  obtain ⟨-, hspec, -⟩ := recursion_spec lib root catalog (4 * objects_in root catalog + 2)
  obtain ⟨-, hcosts, -⟩ := recursion_costs lib catalog (4 * objects_in root catalog + 2)
  have hpending : ∀ p ∈ some (⟨⟨⟨.root, []⟩, root⟩, lib.default_base_uri⟩ : inspection),
      p = ⟨⟨⟨.root, []⟩, root⟩, lib.default_base_uri⟩ ∧
        (registration.start lib root u).inspected ⟨⟨.root, []⟩, root⟩ = false := by
    rintro p ⟨⟩
    exact ⟨rfl, rfl⟩
  refine (hinspect _ _ _ [] _ (wf_start u) hpending (@genuine_document _ _ .root _ rfl) nofun
    (tracks_start u) nofun).bind fun r hr => ?_
  obtain ⟨hcovers, hwf, -⟩ := hspec _ _ _ _ _ (wf_start u) hpending
    (@genuine_document _ _ .root _ rfl) nofun hr
  exact inspect_references_reports hwf
    ((tracks_start u).mono hcovers (hcosts _ _ _ _ hr).active)

end Recursion

end SynapseMcp.schema_backend
