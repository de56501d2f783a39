/-
`schema_backend::registration`: what is checked of a schema before it is compiled.

A schema object is known by its address (`inspected_` holds pointers), so a value is
handed around with its place: the document it lies in and the path to it. URIs, the
evaluator of the metaschema, the conversion to its documents and the bundled
resources are the library's (`schema_library`). A constructor that throws is `none`.

`check_dialect`, `inspect` and `load_resource` call each other, and none of them has an
argument that shrinks. They take the depth of calls they may still make; one that runs
out of it says so with an error of its own, `unfinished`, which is not an exception
of the source.
-/
import SynapseMcp.SchemaValidator
import SynapseMcp.Application

set_option autoImplicit false

namespace SynapseMcp.schema_backend

/-! ## Values and their places

Two equal objects at different places are two schemas, and are inspected both. A place is a path
in a document, which is what the address of a value stands for as long as no document changes.
The number of objects in a value is what bounds the recursion below. -/

/-- The schema that is registered, or a document of the catalog. -/
inductive document where
  | root
  | catalog (key : String)
  deriving DecidableEq

/-- Into an object or into an array. -/
inductive path_step where
  | member (key : String)
  | element (index : Nat)
  deriving DecidableEq

/-- Where a value stands. -/
structure place where
  document : document
  path : List path_step
  deriving DecidableEq

/-- One step further down. -/
def place.child (p : place) (step : path_step) : place := { p with path := p.path ++ [step] }

/-- `const nlohmann::json&`: a value, and where it is. -/
structure schema_ref where
  place : place
  value : json

/-- `contains` and `at` in one. -/
def schema_ref.member? (schema : schema_ref) (key : String) : Option schema_ref :=
  (schema.value.find? key).map fun value => ⟨schema.place.child (.member key), value⟩

/-- The elements of an array from the index on. -/
def schema_ref.elements (schema : schema_ref) : Nat → List json → List schema_ref
  | _, [] => []
  | index, value :: rest =>
      ⟨schema.place.child (.element index), value⟩ :: schema.elements (index + 1) rest

/-- A range `for` over a value: the members of an object, the elements of an array, nothing
for null. Any other value is a range of itself. -/
def schema_ref.children (schema : schema_ref) : List schema_ref :=
  match schema.value with
  | .object members =>
      members.filterMap fun member => schema.member? member.1
  | .array elements => schema.elements 0 elements
  | .null => []
  | _ => [schema]

/-- `items()`: the index of an element is its key. -/
def json.items : json → List (String × json)
  | .object members => members
  | .array elements => elements.zipIdx.map fun element => (toString element.2, element.1)
  | .null => []
  | value => [("", value)]

mutual

/-- How many objects a value has in it, itself included. -/
def objects : json → Nat
  | .object members => 1 + objects_of_members members
  | .array elements => objects_of_elements elements
  | .null | .boolean _ | .number_integer _ | .number_unsigned _ | .number_float _ | .string _
  | .binary _ | .discarded => 0

/-- Those in the elements of an array. -/
def objects_of_elements : List json → Nat
  | [] => 0
  | value :: rest => objects value + objects_of_elements rest

/-- Those in the values of an object. -/
def objects_of_members : List (String × json) → Nat
  | [] => 0
  | (_, value) :: rest => objects value + objects_of_members rest

end

/-! ## JSON Pointers

A fragment that begins with a slash is a pointer. It is cut and unescaped by the library; what
`at` makes of a token depends on the value it has come to. -/

/-- `~1` is a slash and `~0` a tilde; a tilde before anything else is an error. -/
def unescape : List Char → Option (List Char)
  | [] => some []
  | '~' :: '0' :: rest => (unescape rest).map ('~' :: ·)
  | '~' :: '1' :: rest => (unescape rest).map ('/' :: ·)
  | '~' :: _ => none
  | c :: rest => (unescape rest).map (c :: ·)

/-- `json_pointer::split`, for text that is empty or starts with a slash. -/
def json_pointer (text : String) : Option (List (List Char)) :=
  match text.toList with
  | [] => some []
  | '/' :: rest => (rest.splitOn '/').mapM unescape
  | _ => none

/-- `array_index`: digits, the first not `0` unless it is the only one. -/
def array_index (token : List Char) : Option Nat :=
  match token with
  | [] => none
  | c :: rest =>
      if !token.all (·.isDigit) || (c = '0' && !rest.isEmpty) then none
      else some (token.foldl (fun n d => 10 * n + (d.toNat - '0'.toNat)) 0)

/-- `at` with one reference token. -/
def schema_ref.at_token (schema : schema_ref) (token : List Char) : Option schema_ref :=
  match schema.value with
  | .object _ => schema.member? (String.ofList token)
  | .array elements =>
      match array_index token with
      | none => none
      | some index =>
          (elements[index]?).map fun value => ⟨schema.place.child (.element index), value⟩
  | _ => none

/-- `at`, one token after the other. -/
def schema_ref.at_tokens (schema : schema_ref) : List (List Char) → Option schema_ref
  | [] => some schema
  | token :: rest => (schema.at_token token).bind (·.at_tokens rest)

/-- `at(json_pointer(text))`. -/
def schema_ref.at_pointer (schema : schema_ref) (text : String) : Option schema_ref :=
  (json_pointer text).bind schema.at_tokens

/-! ## The library

Nothing is assumed of these functions here; what a result needs of them is a hypothesis of its
own. A conversion or a check may throw, which is `none`. -/

/-- What `registration` takes from the library. `order` is what two URIs are compared by,
so two of them with the same `order` are one key of a map. -/
structure schema_library (uri order converted : Type) where
  parse : String → Option uri
  string : uri → String
  compared : uri → order
  is_absolute : uri → Bool
  fragment : uri → String
  resolve : uri → uri → uri
  scheme : uri → String
  encoded_userinfo : uri → String
  host : uri → String
  port : uri → String
  encoded_path : uri → String
  encoded_query : uri → String
  /-- The constructor from encoded parts, the fragment last. -/
  encoded : String → String → String → String → String → String → String → uri
  default_base_uri : String
  convert : json → Option converted
  /-- `metaschema_validator().is_valid`. -/
  is_valid : converted → Option Bool
  builtin_resources : List (String × converted)
  null : converted

/-- The identifier of the dialect that needs no check. -/
def draft202012 : String := "https://json-schema.org/draft/2020-12/schema"

/-- `schema_catalog`. -/
abbrev schema_catalog := List (String × json)

/-- What the constructor may throw. A `policy_error` carries the text of its check. -/
inductive registration_error where
  | policy_error (what : String)
  /-- Any other exception. -/
  | exception
  /-- The depth did not suffice. -/
  | unfinished
  deriving DecidableEq

/-- What a call that may throw gave. -/
def got {α : Type} (result : Option α) : Except registration_error α :=
  match result with
  | some value => .ok value
  | none => .error .exception

/-- `get<std::string>()`. -/
def get_string (value : json) : Except registration_error String :=
  match value with
  | .string text => .ok text
  | _ => .error .exception

/-- What a URI is registered for: an object, and the base of what lies in it. -/
@[ext]
structure resource where
  value : schema_ref
  base : String

/-- An object that was inspected, with the base the call had. The source keeps the address
only; nothing reads the base. -/
structure inspection where
  schema : schema_ref
  base : String

/-- The members of `registration`, less the catalog. -/
structure registration (uri order converted : Type) where
  resources_ : List (order × resource)
  anchors_ : List (order × schema_ref)
  converted_ : List (String × converted)
  inspected_ : List inspection
  checked_dialects_ : List String
  active_dialects_ : List String
  references_ : List uri

section Registration

variable {uri order converted : Type} [DecidableEq order]

/-- `std::map::emplace`. -/
def emplace {κ α : Type} [BEq κ] (m : List (κ × α)) (key : κ) (value : α) : List (κ × α) :=
  if (m.lookup key).isSome then m else m ++ [(key, value)]

/-- The URI without its fragment. The library's `base()` would drop the query too. -/
def resource_uri (lib : schema_library uri order converted) (u : uri) : uri :=
  lib.encoded (lib.scheme u) (lib.encoded_userinfo u) (lib.host u) (lib.port u)
    (lib.encoded_path u) (lib.encoded_query u) ""

/-- `resource_uri(u).string()`. -/
def resource_key (lib : schema_library uri order converted) (u : uri) : String :=
  lib.string (resource_uri lib u)

/-- The vocabularies of draft 2020-12. -/
def supported_vocabulary (uri : String) : Bool :=
  ["core", "applicator", "unevaluated", "validation", "meta-data", "format-annotation",
    "content"].any fun name => uri = "https://json-schema.org/draft/2020-12/vocab/" ++ name

/-- `inspected_.contains(&schema)`. -/
def registration.inspected (r : registration uri order converted) (schema : schema_ref) : Bool :=
  r.inspected_.any fun entry => entry.schema.place = schema.place

/-- `resources_.find(jsoncons::uri(key))`. -/
def registration.find (lib : schema_library uri order converted)
    (r : registration uri order converted) (key : String) :
    Except registration_error (Option resource) := do
  let u ← got (lib.parse key)
  return r.resources_.lookup (lib.compared u)

/-- `validate_schema`: a document that cannot be written, or that the metaschema refuses. -/
def validate_schema (lib : schema_library uri order converted) (schema : json) :
    Except registration_error Unit :=
  if !representable schema then .error (.policy_error "Invalid schema document")
  else do
    let document ← got (lib.convert schema)
    let valid ← got (lib.is_valid document)
    if !valid then .error (.policy_error "Invalid schema document") else .ok ()

/-! ### What `inspect` does with the object itself

`inspect` is cut where one of its statements can throw. The pieces come in the order of the
source: the base, the identifier, the dialect, the vocabularies, the anchors and the references. -/

/-- The base inside the object. -/
def schema_base (lib : schema_library uri order converted) (schema : json) (base : String) :
    Except registration_error String :=
  match schema.find? "$id" with
  | none => .ok base
  | some id => do
      let outer ← got (lib.parse base)
      let text ← get_string id
      let inner ← got (lib.parse text)
      return resource_key lib (lib.resolve outer inner)

/-- Retrieval aliases share the canonical resource's anchor namespace. -/
def rebase (schema : schema_ref) (base : String) (resources : List (order × resource)) :
    List (order × resource) :=
  resources.map fun entry =>
    if entry.2.value.place = schema.place then (entry.1, { entry.2 with base := base }) else entry

/-- The resource is entered under its identifier, which must not be another object's. -/
def register_id (lib : schema_library uri order converted) (schema : schema_ref) (base : String)
    (r : registration uri order converted) :
    Except registration_error (registration uri order converted) :=
  if !schema.value.contains "$id" then .ok r
  else do
    let u ← got (lib.parse base)
    let resources :=
      emplace (rebase schema base r.resources_) (lib.compared u) ⟨schema, base⟩
    if (resources.lookup (lib.compared u)).any fun entry => entry.value.place ≠ schema.place then
      .error (.policy_error "Duplicate schema resource identifier")
    else .ok { r with resources_ := resources }

/-- `$schema`, when there is one. -/
def check_declared
    (check : String → registration uri order converted →
      Except registration_error (registration uri order converted))
    (schema : json) (r : registration uri order converted) :
    Except registration_error (registration uri order converted) :=
  match schema.find? "$schema" with
  | none => .ok r
  | some declared => do
      let text ← get_string declared
      check text r

/-- One entry of `$vocabulary`. -/
def check_vocabulary (entry : String × json) : Except registration_error Unit :=
  match entry.2 with
  | .boolean required =>
      if required && !supported_vocabulary entry.1 then
        .error (.policy_error "Unsupported required schema vocabulary")
      else .ok ()
  | _ => .error .exception

/-- The loop over `$vocabulary`. -/
def check_vocabularies (schema : json) : Except registration_error Unit :=
  match schema.find? "$vocabulary" with
  | none => .ok ()
  | some value => (json.items value).forM check_vocabulary

/-- `$anchor` or `$dynamicAnchor`, under the base of the object. -/
def add_anchor (lib : schema_library uri order converted) (schema : schema_ref) (base : String)
    (name : String) (r : registration uri order converted) :
    Except registration_error (registration uri order converted) :=
  match schema.value.find? name with
  | none => .ok r
  | some value => do
      let text ← get_string value
      let u ← got (lib.parse (base ++ "#" ++ text))
      return { r with anchors_ := emplace r.anchors_ (lib.compared u) schema }

/-- `$ref` or `$dynamicRef`, to be followed when the recursion is over. -/
def add_reference (lib : schema_library uri order converted) (schema : schema_ref) (base : String)
    (name : String) (r : registration uri order converted) :
    Except registration_error (registration uri order converted) :=
  match schema.value.find? name with
  | none => .ok r
  | some value => do
      let outer ← got (lib.parse base)
      let text ← get_string value
      let inner ← got (lib.parse text)
      return { r with references_ := r.references_ ++ [lib.resolve outer inner] }

/-- The range `for` over the value of a keyword. -/
def schema_ref.children_of (schema : schema_ref) (name : String) : List schema_ref :=
  match schema.member? name with
  | none => []
  | some value => value.children

/-- The values `inspect` goes on to, in its order. Literal `const`, `enum`, `default` and
annotation objects are instance data. -/
def subschemas (schema : schema_ref) : List schema_ref :=
  ["$defs", "definitions", "properties", "patternProperties",
    "dependentSchemas"].flatMap schema.children_of ++
  ["additionalProperties", "unevaluatedProperties", "propertyNames", "items", "contains",
    "unevaluatedItems", "not", "if", "then", "else", "contentSchema"].filterMap schema.member? ++
  ["prefixItems", "allOf", "anyOf", "oneOf"].flatMap schema.children_of ++
  (schema.children_of "dependencies").filter fun child => !child.value.is_array

/-- `inspected_.insert(&schema)`. -/
def registration.mark (r : registration uri order converted) (schema : schema_ref)
    (base : String) : registration uri order converted :=
  { r with inspected_ := r.inspected_ ++ [⟨schema, base⟩] }

/-! ### The recursion

The depth is a bound on nested calls and no part of the source. `RegistrationFinishes` shows
that the one the constructor gives is enough. -/

mutual

/-- `check_dialect`: the key is active from here until the chain of its dialects has come to
draft 2020-12. -/
def check_dialect (lib : schema_library uri order converted) (catalog : schema_catalog) :
    Nat → String → registration uri order converted →
      Except registration_error (registration uri order converted)
  | 0, _, _ => .error .unfinished
  | depth + 1, identifier, r => do
      let u ← got (lib.parse identifier)
      if !lib.is_absolute u || lib.fragment u ≠ "" then
        .error (.policy_error "Unsupported schema dialect")
      else
        let key := resource_key lib u
        -- the end of the way, or a dialect that was gone before
        if key = draft202012 ∨ key ∈ r.checked_dialects_ then .ok r
        else if key ∈ r.active_dialects_ then
          .error (.policy_error "Cyclic schema dialect declaration")
        else do
          -- it is active while its document is loaded and what that declares is checked
          let (document, r) ← load_resource lib catalog depth key
            { r with active_dialects_ := key :: r.active_dialects_ }
          match document.value.find? "$schema" with
          | none => .error (.policy_error "Unsupported schema dialect")
          | some declared => do
              let text ← get_string declared
              let r ← check_dialect lib catalog depth text r
              return { r with
                active_dialects_ := r.active_dialects_.erase key
                checked_dialects_ := key :: r.checked_dialects_ }

/-- `inspect`: the object itself, and then what lies in it. -/
def inspect (lib : schema_library uri order converted) (catalog : schema_catalog) :
    Nat → schema_ref → String → registration uri order converted →
      Except registration_error (registration uri order converted)
  | 0, _, _, _ => .error .unfinished
  | depth + 1, schema, base, r =>
      -- a value is inspected once, whichever way leads to it
      if !schema.value.is_object || r.inspected schema then .ok r
      else do
        let inner ← schema_base lib schema.value base
        let r ← register_id lib schema inner (r.mark schema base)
        let r ← check_declared (fun text r => check_dialect lib catalog depth text r)
          schema.value r
        check_vocabularies schema.value
        let r ← ["$anchor", "$dynamicAnchor"].foldlM
          (fun r name => add_anchor lib schema inner name r) r
        let r ← ["$ref", "$dynamicRef"].foldlM
          (fun r name => add_reference lib schema inner name r) r
        (subschemas schema).foldlM (fun r child => inspect lib catalog depth child inner r) r

/-- `load_resource`: registered already, or a document of the catalog, which is checked and
inspected. -/
def load_resource (lib : schema_library uri order converted) (catalog : schema_catalog) :
    Nat → String → registration uri order converted →
      Except registration_error (schema_ref × registration uri order converted)
  | 0, _, _ => .error .unfinished
  | depth + 1, key, r => do
      let found ← r.find lib key
      match found with
      | some entry => return (entry.value, r)
      | none =>
          -- nothing is fetched: a resource is in the catalog or it is refused
          match catalog.lookup key with
          | none => .error (.policy_error "Unregistered offline schema resource")
          | some value => do
              validate_schema lib value
              let document : schema_ref := ⟨⟨.catalog key, []⟩, value⟩
              let u ← got (lib.parse key)
              let document_ ← got (lib.convert value)
              -- it is in the tables before its inspection, which may come back to it
              let r ← inspect lib catalog depth document key
                { r with
                  resources_ := emplace r.resources_ (lib.compared u) ⟨document, key⟩
                  converted_ := emplace r.converted_ key document_ }
              return (document, r)

end

/-! ### References

A reference may bring in a document of the catalog, and with it more references. They are
followed when the root has been inspected, in the order in which they were found. -/

/-- `inspect_reference`: the resource, and within it the anchor or the pointer. -/
def inspect_reference (lib : schema_library uri order converted) (catalog : schema_catalog)
    (depth : Nat) (u : uri) (r : registration uri order converted) :
    Except registration_error (registration uri order converted) :=
  let key := resource_key lib u
  -- the bundled metaschemas need no inspection
  if (lib.builtin_resources.lookup key).isSome then .ok r
  else do
    let (document, r) ← load_resource lib catalog depth key r
    let fragment := lib.fragment u
    if fragment = "" then .ok r
    else do
      let found ← r.find lib key
      let entry ← got found
      if fragment.toList.head? ≠ some '/' then do
        let anchor ← got (lib.parse (entry.base ++ "#" ++ fragment))
        if (r.anchors_.lookup (lib.compared anchor)).isNone then
          .error (.policy_error "Unregistered schema anchor")
        else .ok r
      else do
        -- a pointer can make a schema of the value of an unknown keyword
        let target ← got (document.at_pointer fragment)
        if r.inspected target then .ok r
        else do
          validate_schema lib target.value
          inspect lib catalog depth target entry.base r

/-- The loop over `references_`, which grows while it runs. -/
def inspect_references (lib : schema_library uri order converted) (catalog : schema_catalog)
    (depth : Nat) :
    Nat → Nat → registration uri order converted →
      Except registration_error (registration uri order converted)
  | 0, _, _ => .error .unfinished
  | steps + 1, index, r =>
      match r.references_[index]? with
      | none => .ok r
      | some u => do
          let r ← inspect_reference lib catalog depth u r
          inspect_references lib catalog depth steps (index + 1) r

/-- How many objects lie in the root and the catalog. -/
def objects_in (root : json) (catalog : schema_catalog) : Nat :=
  objects root + (catalog.map fun entry => objects entry.2).sum

/-- The members before the root is inspected. -/
def registration.start (lib : schema_library uri order converted) (root : json) (u : uri) :
    registration uri order converted where
  resources_ := [(lib.compared u, ⟨⟨⟨.root, []⟩, root⟩, lib.default_base_uri⟩)]
  anchors_ := []
  converted_ := []
  inspected_ := []
  checked_dialects_ := []
  active_dialects_ := []
  references_ := []

/-- The constructor. -/
def registration.make (lib : schema_library uri order converted) (root : json)
    (catalog : schema_catalog) : Except registration_error (registration uri order converted) := do
  validate_schema lib root
  let u ← got (lib.parse lib.default_base_uri)
  let depth := 4 * objects_in root catalog + 2
  let r ← inspect lib catalog depth ⟨⟨.root, []⟩, root⟩ lib.default_base_uri (.start lib root u)
  inspect_references lib catalog depth (2 * objects_in root catalog + 1) 0 r

/-- What the evaluator is given for a URI when the schema is compiled. -/
def registration.resolve (lib : schema_library uri order converted)
    (r : registration uri order converted) (u : uri) : Except registration_error converted := do
  let key := resource_key lib u
  match lib.builtin_resources.lookup key with
  | some found => return found
  | none =>
      match r.converted_.lookup key with
      | some found => return found
      | none =>
          let found ← r.find lib key
          match found with
          | some entry => got (lib.convert entry.value.value)
          | none => return lib.null

end Registration

end SynapseMcp.schema_backend
