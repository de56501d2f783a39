/-
`compiled_schema::validate`: checking an instance against a compiled schema.

The evaluator is the library's; what it makes of an instance is a parameter. Between
`representable` and the evaluator the instance is written and parsed again. Writing
throws on text that is not UTF-8, and a JSON string here is UTF-8; a parser that
throws is caught together with an evaluator that does.
-/
import SynapseMcp.Json

set_option autoImplicit false

namespace SynapseMcp

/-- Why an instance was not accepted; only the first kind is the peer's fault. -/
inductive validation_failure_kind where
  | instance_mismatch
  | invalid_instance
  | engine_failure
  deriving DecidableEq

/-- `std::isfinite` of the double with these bits. -/
def is_finite (bits : UInt64) : Bool := (bits >>> 52) &&& 0x7ff != 0x7ff

mutual

/-- `representable`: no binary or discarded value and no number that is not finite. -/
def representable : json → Bool
  | .binary _ | .discarded => false
  | .number_float bits => is_finite bits
  | .array elements => representable_elements elements
  | .object members => representable_members members
  | .null | .boolean _ | .number_integer _ | .number_unsigned _ | .string _ => true

/-- Every element of an array is. -/
def representable_elements : List json → Bool
  | [] => true
  | value :: rest => representable value && representable_elements rest

/-- Every value of an object is. -/
def representable_members : List (String × json) → Bool
  | [] => true
  | (_, value) :: rest => representable value && representable_members rest

end

/-- What the evaluator does with an instance: it reports nothing, it reports a message
and the walk is aborted, or it throws. -/
inductive evaluation where
  | nothing
  | message
  | threw

/-- `validate`, for a schema that holds its evaluator. -/
def validate (evaluator : json → evaluation) (value : json) :
    Except validation_failure_kind Unit :=
  if !representable value then .error .invalid_instance
  else
    match evaluator value with
    | .threw => .error .engine_failure
    | .message => .error .instance_mismatch
    | .nothing => .ok ()

end SynapseMcp
