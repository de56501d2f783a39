/-
JSON values as `nlohmann::json` holds them.

A number keeps the representation the parser or the caller chose for it: signed,
unsigned or floating point. `is_number_integer` is true of both integer kinds, as
in the library, and that is what makes the order of the tests in
`read_json_rpc_id` matter. A floating point number is kept as its IEEE bits; no
function modelled here computes with one.

An object is `std::map<std::string, json>`: a list of members in the order of
their keys, each key once. `json.set` is `operator[]` followed by an assignment.
-/
set_option autoImplicit false

namespace SynapseMcp

/-- The kinds of `value_t`, each with what it holds. -/
inductive json where
  | null
  | boolean (value : Bool)
  | number_integer (value : Int64)
  | number_unsigned (value : UInt64)
  | number_float (bits : UInt64)
  | string (value : String)
  | binary (bytes : List UInt8)
  | array (elements : List json)
  | object (members : List (String × json))
  | discarded

/-- The exceptions the library throws on access and conversion, with its ids. -/
inductive json_exception where
  | type_error (id : Nat)
  | out_of_range (id : Nat)

/-- `is_object()`. -/
def json.is_object : json → Bool
  | .object _ => true
  | _ => false

/-- `is_array()`. -/
def json.is_array : json → Bool
  | .array _ => true
  | _ => false

/-- `is_string()`. -/
def json.is_string : json → Bool
  | .string _ => true
  | _ => false

/-- `is_null()`. -/
def json.is_null : json → Bool
  | .null => true
  | _ => false

/-- True of both integer representations, as in `nlohmann::json`. -/
def json.is_number_integer : json → Bool
  | .number_integer _ => true
  | .number_unsigned _ => true
  | _ => false

/-- The integer a JSON number stands for, in either representation. -/
def json.integer? : json → Option Int
  | .number_integer value => some value.toInt
  | .number_unsigned value => some value.toNat
  | _ => none

/-- `find` on an object; nothing is found in any other kind of value. -/
def json.find? : json → String → Option json
  | .object members, key => members.lookup key
  | _, _ => none

/-- `contains(key)`, which is false of everything but an object. -/
def json.contains (j : json) (key : String) : Bool := (j.find? key).isSome

/-- `at`: a value that is not an object throws `type_error` 304, an absent key
`out_of_range` 403. -/
def json.at (j : json) (key : String) : Except json_exception json :=
  match j with
  | .object members =>
      match members.lookup key with
      | some value => .ok value
      | none => .error (.out_of_range 403)
  | _ => .error (.type_error 304)

/-- `get_to` a `std::string`. -/
def json.get_string : json → Except json_exception String
  | .string value => .ok value
  | _ => .error (.type_error 302)

/-- `get_to` an `int`: every number and both booleans convert, by `static_cast`. -/
def json.get_int : json → Except json_exception Int32
  | .number_unsigned value => .ok value.toInt64.toInt32
  | .number_integer value => .ok value.toInt32
  | .number_float bits => .ok (Float.ofBits bits).toInt32
  | .boolean value => .ok (if value then 1 else 0)
  | _ => .error (.type_error 302)

/-- `get_to` a `bool`. -/
def json.get_boolean : json → Except json_exception Bool
  | .boolean value => .ok value
  | _ => .error (.type_error 302)

/-- `get_to` a `std::vector`: each element is converted on its own. -/
def json.get_vector {α : Type} (convert : json → Except json_exception α) :
    json → Except json_exception (List α)
  | .array elements => elements.mapM convert
  | _ => .error (.type_error 302)

/-- `value(key, fallback)`: an absent key gives the fallback, a member is converted, and
on a value that is not an object the call throws `type_error` 306. -/
def json.value {α : Type} (j : json) (key : String) (fallback : α)
    (convert : json → Except json_exception α) : Except json_exception α :=
  match j with
  | .object members =>
      match members.lookup key with
      | some value => convert value
      | none => .ok fallback
  | _ => .error (.type_error 306)

/-- Insert or overwrite, keeping the members in the order of their keys. -/
def json.insert_member (key : String) (value : json) : List (String × json) → List (String × json)
  | [] => [(key, value)]
  | (k, v) :: rest =>
      if key < k then (key, value) :: (k, v) :: rest
      else if key = k then (key, value) :: rest
      else (k, v) :: json.insert_member key value rest

/-- `j[key] = value` on an object, or on a null value, which becomes an object. -/
def json.set (j : json) (key : String) (value : json) : json :=
  match j with
  | .object members => .object (json.insert_member key value members)
  | _ => .object (json.insert_member key value [])

/-- `nlohmann::json{{key, value}, ...}`. -/
def json.object_of (members : List (String × json)) : json :=
  members.foldl (fun j member => j.set member.1 member.2) (.object [])

/-! ## What the accessors agree on

`find?` is the accessor that the proofs speak in. `contains`, `at` and `value` are the library's
other ways to the same member, and differ in what they do where there is none; the lemmas take
each to `find?`. Setting a member is reading it back: under its own key the new value, under any
other what was there. -/

/-- `contains` is true where `find` finds something, and so false of everything that is not an
object. -/
theorem json.contains_eq_isSome (j : json) (key : String) :
    j.contains key = (j.find? key).isSome := rfl

/-- `at` returns what `find` finds, and throws in every other case, by a missing key or by the
kind of the value. -/
theorem json.at_eq_ok_iff {j v : json} {key : String} :
    j.at key = .ok v ↔ j.find? key = some v := by
  cases j with
  | object members =>
      simp only [json.at, json.find?]
      cases members.lookup key <;> simp
  | _ => simp [json.at, json.find?]

/-- What a chain of conversions that succeeded went through. -/
theorem bind_eq_ok {ε α β : Type} {x : Except ε α} {f : α → Except ε β} {b : β} :
    (x >>= f) = .ok b ↔ ∃ a, x = .ok a ∧ f a = .ok b := by
  cases x with
  | error e => simp [bind, Except.bind]
  | ok a => simp [bind, Except.bind]

/-- Only a string converts to a string; nothing is formatted on the way. -/
theorem json.get_string_eq_ok_iff {j : json} {value : String} :
    j.get_string = .ok value ↔ j = .string value := by
  cases j <;> simp [json.get_string]

/-- Inserting keeps every other member, whether the key was there and its value is overwritten,
or a new member is put in its place in the order. -/
theorem json.lookup_insert_member (key k : String) (value : json) (members : List (String × json)) :
    (json.insert_member key value members).lookup k
      = if k = key then some value else members.lookup k := by
  induction members with
  | nil =>
      by_cases hk : k = key
      · simp [json.insert_member, hk]
      · have hbeq : (k == key) = false := by simpa using hk
        simp [json.insert_member, List.lookup_cons, hbeq, hk]
  | cons m rest ih =>
      obtain ⟨k', v⟩ := m
      simp only [json.insert_member]
      by_cases hk : k = key
      · subst hk
        split
        · simp
        · split
          · simp
          · rename_i hne
            have hbeq : (k == k') = false := by simpa using hne
            simp [List.lookup_cons, hbeq, ih]
      · have hbeq : (k == key) = false := by simpa using hk
        split
        · simp [List.lookup_cons, hbeq]
        · split
          · rename_i heq
            subst heq
            simp [List.lookup_cons, hbeq]
          · simp only [List.lookup_cons, ih, if_neg hk]

/-- Reading back a member that was set, or one that was not. -/
theorem json.find?_set (members : List (String × json)) (key k : String) (value : json) :
    ((json.object members).set key value).find? k
      = if k = key then some value else (json.object members).find? k :=
  json.lookup_insert_member key k value members

/-- `operator[]` on a value that is no object is modelled for null, which becomes an object; so
what has had a member set is an object. -/
@[simp] theorem json.is_object_set (j : json) (key : String) (value : json) :
    (j.set key value).is_object = true := by
  cases j <;> rfl

/-- The same for a value that is known to be an object without naming its members, as what the
encoders build is. -/
theorem json.find?_set_of_object {j : json} (hj : j.is_object = true) (key k : String)
    (value : json) : (j.set key value).find? k = if k = key then some value else j.find? k := by
  cases j with
  | object members => exact json.find?_set members key k value
  | _ => cases hj

/-- `value` converts the member when there is one; the fallback does not come into it. -/
theorem json.value_of_find? {α : Type} {j v : json} {key : String} {fallback : α}
    {convert : json → Except json_exception α} (h : j.find? key = some v) :
    j.value key fallback convert = convert v := by
  cases j with
  | object members =>
      change members.lookup key = some v at h
      rw [json.value, h]
  | _ => cases h

end SynapseMcp
