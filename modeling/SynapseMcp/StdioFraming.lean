/-
`transport.hpp`: what `read_loop` makes of a stream.

`frame` is split where it leaves the transport: `frame` here is the decision it takes
about a line, and the reader's steps carry it out. `lines_acts` says what the whole
loop is for: the lines of the stream, one after the other, each within the limit.

`nlohmann::json::parse` and the serializer are the fields of `json_library`. Of an
exception of `parse` the code looks at the type and, for `out_of_range`, at the id.
-/
import SynapseMcp.StdioTransport
import SynapseMcp.Delimited

set_option autoImplicit false

namespace SynapseMcp

open Delimited

/-- What `parse` returns or throws. -/
inductive parse_outcome where
  | value (v : json)
  | parse_error
  | out_of_range (id : Nat)
  | other

/-- The library, as far as the transport uses it. -/
structure json_library where
  /-- `nlohmann::json::parse` of a line. -/
  parse : List UInt8 → parse_outcome
  /-- What `stream << message` puts, when nothing throws. -/
  dump : json → List put

/-- The compact text of a message. -/
def json_library.encoding (lib : json_library) (message : json) : List UInt8 :=
  (lib.dump message).flatMap put.bytes

/-! ## One line

The line is looked at twice, once by the guard, which counts brackets outside of strings, and
once by the parser. The guard comes first, so that a line which is nested too deeply is not
parsed at all. -/

/-- The loop of `excessive_depth`, from the values its variables have. -/
def excessive_depth_from (max_json_depth : Nat) :
    (depth : Nat) → (quoted escaped : Bool) → List UInt8 → Bool
  | _, _, _, [] => false
  | depth, true, true, _ :: rest => excessive_depth_from max_json_depth depth true false rest
  | depth, true, false, ch :: rest =>
      if ch = 0x5c then excessive_depth_from max_json_depth depth true true rest
      else excessive_depth_from max_json_depth depth (ch ≠ 0x22) false rest
  | depth, false, escaped, ch :: rest =>
      if ch = 0x22 then excessive_depth_from max_json_depth depth true escaped rest
      else if ch = 0x7b || ch = 0x5b then
        if depth = max_json_depth then true
        else excessive_depth_from max_json_depth (depth + 1) false escaped rest
      else if (ch = 0x7d || ch = 0x5d) && depth ≠ 0 then
        excessive_depth_from max_json_depth (depth - 1) false escaped rest
      else excessive_depth_from max_json_depth depth false escaped rest

/-- The guard of a line, from its start. -/
def excessive_depth (o : stdio_options) (line : List UInt8) : Bool :=
  excessive_depth_from o.max_json_depth 0 false false line

/-- The diagnostic of `frame`. -/
def parse_error_frame : json :=
  json.object_of
    [("jsonrpc", .string "2.0"), ("id", .null),
      ("error", json.object_of
        [("code", .number_integer (-32700)), ("message", .string "Parse error")])]

/-- How `frame` goes on with a line. -/
inductive frame_next where
  | skip
  /-- `begin_close(reason)`, and no further line. -/
  | close (reason : close_reason)
  /-- Send the diagnostic. -/
  | diagnose
  /-- Call the message callback. -/
  | call (value : json)
  /-- An exception leaves `frame`. -/
  | throw

/-- `frame`: what is done with a line, by its length, its depth and what the parser makes of it.
-/
def stdio_transport.frame (lib : json_library) (o : stdio_options) (line : List UInt8) :
    frame_next :=
  if line = [] then .skip
  else if excessive_depth o line then .close .protocol_limit
  else
    match lib.parse line with
    | .value v => .call v
    | .parse_error => .diagnose
    | .out_of_range id => if id = 406 then .diagnose else .throw
    | .other => .throw

/-! ## The stream

A line that is longer than the limit is not framed at all, and closes the transport as soon as
the byte too many has been read. The rest of the stream is then never looked at. -/

/-- What the reader does that somebody else sees. -/
inductive read_act where
  | message (value : json)
  | send (message : json)
  | close (reason : close_reason)

/-- What a line comes to when the send and the callback succeed; an exception ends in
the `begin_close` of `worker`. -/
def frame_next.acts : frame_next → List read_act
  | .skip => []
  | .close reason => [.close reason]
  | .diagnose => [.send parse_error_frame]
  | .call value => [.message value]
  | .throw => [.close .io_error]

/-- Whether the loop goes on after the line. -/
def frame_next.goes_on : frame_next → Bool
  | .close _ => false
  | .throw => false
  | _ => true

/-- The line's acts, and `rest` if the loop goes on. -/
def frame_next.then_acts (next : frame_next) (rest : List read_act) : List read_act :=
  next.acts ++ if next.goes_on then rest else []

/-- What the loop does with lines, the last of which is unterminated, and end of file. -/
def lines_acts (lib : json_library) (o : stdio_options) : List (List UInt8) → List read_act
  | [] => [.close .eof]
  | line :: rest =>
      if o.max_frame_bytes < line.length then [.close .protocol_limit]
      else (stdio_transport.frame lib o line).then_acts (lines_acts lib o rest)

/-- What the loop does with a stream. -/
def stream_acts (lib : json_library) (o : stdio_options) (stream : List UInt8) :
    List read_act :=
  lines_acts lib o (stream.splitOn newline)

variable {lib : json_library} {o : stdio_options}

/-- A line that ends within the limit is a frame. -/
theorem stream_acts_line {line : List UInt8} (hline : newline ∉ line)
    (hlimit : line.length ≤ o.max_frame_bytes) (rest : List UInt8) :
    stream_acts lib o (line ++ newline :: rest) =
      (stdio_transport.frame lib o line).then_acts (stream_acts lib o rest) := by
  rw [stream_acts, List.splitOn_append_cons_self_of_not_mem hline, lines_acts,
    if_neg (Nat.not_lt.mpr hlimit)]
  rfl

/-- So is the line the stream ends in. -/
theorem stream_acts_last {line : List UInt8} (hline : newline ∉ line)
    (hlimit : line.length ≤ o.max_frame_bytes) :
    stream_acts lib o line = (stdio_transport.frame lib o line).then_acts [.close .eof] := by
  rw [stream_acts, List.splitOn_eq_singleton hline, lines_acts,
    if_neg (Nat.not_lt.mpr hlimit)]
  rfl

/-- A line that has reached the limit and goes on is never a frame, whatever follows. -/
theorem stream_acts_over {line : List UInt8} {byte : UInt8} (hline : newline ∉ line)
    (hlimit : line.length = o.max_frame_bytes) (hbyte : byte ≠ newline) (rest : List UInt8) :
    stream_acts lib o (line ++ byte :: rest) = [.close .protocol_limit] := by
  have hmem : newline ∉ line ++ [byte] := by
    simp [hline, Ne.symm hbyte]
  have hlong : o.max_frame_bytes < (line ++ [byte]).length := by
    rw [List.length_append, hlimit]
    exact Nat.lt_succ_self _
  obtain ⟨piece, pieces, hrest⟩ := List.exists_cons_of_ne_nil (List.splitOn_ne_nil newline rest)
  have hsplit : (line ++ byte :: rest).splitOn newline = (line ++ [byte] ++ piece) :: pieces := by
    rw [List.append_cons line byte rest, splitOn_append_of_not_mem hmem, hrest]
    rfl
  rw [stream_acts, hsplit, lines_acts, if_pos]
  rw [List.length_append]
  omega

end SynapseMcp
