/-
`valid_resource_uri`: RFC 3986 absolute URI syntax, by bytes.

The `string_view` searches are `cut`: what stands before the first occurrence of a
byte, and what follows it. The two loops that walk an IPv6 address from separator to
separator walk its pieces; a piece that is not the last one ends at a separator, and
an empty last piece is the separator the source finds at the end.
-/
import SynapseMcp.Protocol
import Mathlib.Data.List.Basic

set_option autoImplicit false

namespace SynapseMcp

/-! ## Characters and cuts

The function looks at bytes. A percent sign must be followed by two hexadecimal digits wherever
a component may have one; what they encode is not looked at. -/

/-- An ASCII character as a byte. -/
def ascii (c : Char) : UInt8 := c.val.toUInt8

/-- The letters, in either case. -/
def alpha (ch : UInt8) : Bool :=
  (ascii 'a' ≤ ch && ch ≤ ascii 'z') || (ascii 'A' ≤ ch && ch ≤ ascii 'Z')

/-- The digits. -/
def digit (ch : UInt8) : Bool := ascii '0' ≤ ch && ch ≤ ascii '9'

/-- The hexadecimal digits, in either case. -/
def hex (ch : UInt8) : Bool :=
  digit ch || (ascii 'a' ≤ ch && ch ≤ ascii 'f') || (ascii 'A' ≤ ch && ch ≤ ascii 'F')

/-- `unreserved`. -/
def unreserved (ch : UInt8) : Bool :=
  alpha ch || digit ch || ['-', '.', '_', '~'].any (ascii · == ch)

/-- `sub_delim`. -/
def sub_delim (ch : UInt8) : Bool :=
  ['!', '$', '&', '\'', '(', ')', '*', '+', ',', ';', '='].any (ascii · == ch)

/-- `component`: the characters of a URI component and percent-encoded octets. -/
def component (extra : List Char) : List UInt8 → Bool
  | [] => true
  | ch :: rest =>
      if ch = ascii '%' then
        match rest with
        | high :: low :: rest => hex high && hex low && component extra rest
        | _ => false
      else (unreserved ch || sub_delim ch || extra.any (ascii · == ch)) && component extra rest

/-- Before and after the first occurrence of a character. -/
def cut (c : Char) : List UInt8 → Option (List UInt8 × List UInt8)
  | [] => none
  | ch :: rest =>
      if ch = ascii c then some ([], rest)
      else (cut c rest).map fun (before, after) => (ch :: before, after)

/-- Before and after the first `::`. -/
def cut_compression : List UInt8 → Option (List UInt8 × List UInt8)
  | [] => none
  | [_] => none
  | ch :: next :: rest =>
      if ch = ascii ':' ∧ next = ascii ':' then some ([], rest)
      else (cut_compression (next :: rest)).map fun (before, after) => (ch :: before, after)

/-! ## Addresses

The count of the groups decides whether an IPv6 address is complete: eight without a `::`, fewer
with one. An embedded IPv4 address counts for two of them. -/

/-- A decimal number up to 255 without leading zeros. -/
def ipv4_octet (octet : List UInt8) : Bool :=
  !octet.isEmpty && octet.length ≤ 3 && !(1 < octet.length && octet.head? == some (ascii '0')) &&
    octet.all digit && octet.foldl (fun value ch => value * 10 + (ch - ascii '0').toNat) 0 ≤ 255

/-- `ipv4_address`: four octets between dots. -/
def ipv4_address (text : List UInt8) : Bool :=
  let octets := text.splitOn (ascii '.')
  octets.length = 4 && octets.all ipv4_octet

/-- `count_groups`, over the pieces of `part` between its separators. An embedded IPv4
address may only be the last piece of the part that ends the address. -/
def count_groups (tail : Bool) : List (List UInt8) → Nat → Option Nat
  | [], groups => some groups
  | group :: rest, groups =>
      if group.isEmpty then none
      else if group.contains (ascii '.') then
        if tail && rest.isEmpty && ipv4_address group then some (groups + 2) else none
      else if group.length ≤ 4 && group.all hex then count_groups tail rest (groups + 1)
      else none

/-- The pieces of a part of an IPv6 address; an empty part has none. -/
def ipv6_pieces (part : List UInt8) : List (List UInt8) :=
  if part.isEmpty then [] else part.splitOn (ascii ':')

/-- `ipv6_address`: at most one `::`, and the groups on both sides of it. -/
def ipv6_address (address : List UInt8) : Bool :=
  match cut_compression address with
  | none => count_groups true (ipv6_pieces address) 0 == some 8
  | some (before, after) =>
      (cut_compression after).isNone &&
        match count_groups false (ipv6_pieces before) 0 with
        | none => false
        | some groups =>
            (count_groups true (ipv6_pieces after) groups).any fun groups => groups < 8

/-! ## The parts of a URI

The parts are cut off from the outside: the scheme before the first colon, the fragment behind
the first hash of the rest, the query behind the first question mark of what is left, and then
the authority. Each part is checked when it is cut off. -/

/-- What stands between the brackets of an authority. -/
def ip_literal (address : List UInt8) : Bool :=
  match address with
  | [] => ipv6_address []
  | ch :: rest =>
      if ch = ascii 'v' || ch = ascii 'V' then
        match cut '.' rest with
        | none => false
        | some (version, tail) =>
            !version.isEmpty && !tail.isEmpty && version.all hex &&
              !tail.contains (ascii '%') && component [':'] tail
      else ipv6_address address

/-- A literal in brackets, or a name, and after it perhaps a port, which may be empty. -/
def host_and_port (authority : List UInt8) : Bool :=
  if authority.head? = some (ascii '[') then
    match cut ']' (authority.drop 1) with
    | none => false
    | some (address, suffix) =>
        ip_literal address &&
          match suffix with
          | [] => true
          | ch :: port => ch == ascii ':' && port.all digit
  else
    match cut ':' authority with
    | none => component [] authority
    | some (name, port) => component [] name && port.all digit

/-- `valid_authority`: what stands before the first `@` is the user information. -/
def valid_authority (authority : List UInt8) : Bool :=
  match cut '@' authority with
  | none => host_and_port authority
  | some (userinfo, host) => component [':'] userinfo && host_and_port host

/-- The part between the scheme and the query: an authority after `//`, and a path. -/
def hier_part : List UInt8 → Bool
  | rest =>
      if [ascii '/', ascii '/'].isPrefixOf rest then
        let rest := rest.drop 2
        match cut '/' rest with
        | none => valid_authority rest
        | some (authority, path) =>
            valid_authority authority && component [':', '@', '/'] (ascii '/' :: path)
      else component [':', '@', '/'] rest

/-- A part that may follow `c`, cut off before `rest` is looked at. -/
def cut_suffix (c : Char) (rest : List UInt8) : Option (List UInt8) :=
  match cut c rest with
  | none => some rest
  | some (rest, suffix) => if component [':', '@', '/', '?'] suffix then some rest else none

/-- `server::valid_resource_uri`. -/
def valid_resource_uri (uri : List UInt8) : Bool :=
  match cut ':' uri with
  | none => false
  | some (scheme, rest) =>
      match scheme with
      | [] => false
      | first :: scheme =>
          alpha first &&
            scheme.all (fun ch => alpha ch || digit ch || ['+', '-', '.'].any (ascii · == ch)) &&
            match cut_suffix '#' rest with
            | none => false
            | some rest =>
                match cut_suffix '?' rest with
                | none => false
                | some rest => hier_part rest

/-- The check on the URI of a JSON value or of a descriptor. -/
def valid_uri_text (uri : String) : Bool := valid_resource_uri uri.toByteArray.data.toList

example : valid_uri_text "app://x" = true := by decide

end SynapseMcp
