/-
The `URI` rule of RFC 3986 and the rules it needs, over bytes.

The rules stand in the order in which they build on each other, under the names of the
RFC. A quoted character in a rule is any case of a letter; only `"v"` is one.
-/
import SynapseMcp.Abnf

set_option autoImplicit false

namespace Uri

open Abnf Computability

/-! ## Characters

Alternatives are sums of languages, sequences are products, and a repetition is a star. A rule
that matches one byte is a `letter`, so the three classes of bytes below are predicates. -/

/-- `ALPHA = %x41-5A / %x61-7A`. -/
abbrev ALPHA (b : UInt8) : Prop := (0x41 ≤ b ∧ b ≤ 0x5a) ∨ (0x61 ≤ b ∧ b ≤ 0x7a)

/-- `DIGIT = %x30-39`. -/
abbrev DIGIT (b : UInt8) : Prop := 0x30 ≤ b ∧ b ≤ 0x39

/-- A digit or one of the letters A to F, in either case. -/
abbrev HEXDIG (b : UInt8) : Prop :=
  DIGIT b ∨ (0x41 ≤ b ∧ b ≤ 0x46) ∨ (0x61 ≤ b ∧ b ≤ 0x66)

/-- The byte of an ASCII character. -/
def char (c : Char) : Language UInt8 := letter (· = c.val.toUInt8)

/-- Any of these characters. -/
def chars (cs : List Char) : Language UInt8 := letter (· ∈ cs.map (·.val.toUInt8))

/-- `unreserved = ALPHA / DIGIT / "-" / "." / "_" / "~"`. -/
def unreserved : Language UInt8 := letter ALPHA + letter DIGIT + chars ['-', '.', '_', '~']

/-- The eleven characters that may delimit something inside a component. -/
def sub_delims : Language UInt8 :=
  chars ['!', '$', '&', '\'', '(', ')', '*', '+', ',', ';', '=']

/-- `pct-encoded = "%" HEXDIG HEXDIG`. -/
def pct_encoded : Language UInt8 := char '%' * letter HEXDIG * letter HEXDIG

/-- `pchar = unreserved / pct-encoded / sub-delims / ":" / "@"`. -/
def pchar : Language UInt8 := unreserved + pct_encoded + sub_delims + char ':' + char '@'

/-! ## After the authority

The paths differ in how they may begin: after an authority with a slash or not at all, and
without one not with two slashes, which would begin an authority. -/

/-- `query = *( pchar / "/" / "?" )`. -/
def query : Language UInt8 := (pchar + char '/' + char '?')∗

/-- The same characters as in a query. -/
def fragment : Language UInt8 := (pchar + char '/' + char '?')∗

/-- `segment = *pchar`. -/
def segment : Language UInt8 := pchar∗

/-- `segment-nz = 1*pchar`. -/
def segment_nz : Language UInt8 := plus pchar

/-- `path-abempty = *( "/" segment )`. -/
def path_abempty : Language UInt8 := (char '/' * segment)∗

/-- `path-absolute = "/" [ segment-nz *( "/" segment ) ]`. -/
def path_absolute : Language UInt8 :=
  char '/' * opt (segment_nz * (char '/' * segment)∗)

/-- `path-rootless = segment-nz *( "/" segment )`. -/
def path_rootless : Language UInt8 := segment_nz * (char '/' * segment)∗

/-- No characters. -/
def path_empty : Language UInt8 := 1

/-! ## Hosts

A name may look like anything but is tried last: what has the form of an IPv4 address is also a
name, so that `host` is not read in one way only. An IPv6 address has at most one `::`, which
stands for as many groups as are missing. -/

/-- `reg-name = *( unreserved / pct-encoded / sub-delims )`. -/
def reg_name : Language UInt8 := (unreserved + pct_encoded + sub_delims)∗

/-- A number up to 255, without leading zeros. -/
def dec_octet : Language UInt8 :=
  letter DIGIT +
  letter (fun b => 0x31 ≤ b ∧ b ≤ 0x39) * letter DIGIT +
  char '1' * letter DIGIT * letter DIGIT +
  char '2' * letter (fun b => 0x30 ≤ b ∧ b ≤ 0x34) * letter DIGIT +
  char '2' * char '5' * letter (fun b => 0x30 ≤ b ∧ b ≤ 0x35)

/-- Four of them. -/
def IPv4address : Language UInt8 :=
  dec_octet * char '.' * dec_octet * char '.' * dec_octet * char '.' * dec_octet

/-- `1*4HEXDIG`. -/
def h16 : Language UInt8 := letter HEXDIG * upto 3 (letter HEXDIG)

/-- `ls32 = ( h16 ":" h16 ) / IPv4address`: the last two groups. -/
def ls32 : Language UInt8 := h16 * char ':' * h16 + IPv4address

/-- `"::"`. -/
def compression : Language UInt8 := char ':' * char ':'

/-- `[ *n( h16 ":" ) h16 ]`. -/
def leading (n : ℕ) : Language UInt8 := opt (upto n (h16 * char ':') * h16)

/-- The nine alternatives of the rule, by how many groups stand after the `::`. -/
def IPv6address : Language UInt8 :=
  (h16 * char ':') ^ 6 * ls32 +
  compression * ((h16 * char ':') ^ 5 * ls32) +
  opt h16 * compression * ((h16 * char ':') ^ 4 * ls32) +
  leading 1 * compression * ((h16 * char ':') ^ 3 * ls32) +
  leading 2 * compression * ((h16 * char ':') ^ 2 * ls32) +
  leading 3 * compression * (h16 * char ':' * ls32) +
  leading 4 * compression * ls32 +
  leading 5 * compression * h16 +
  leading 6 * compression

/-- `IPvFuture = "v" 1*HEXDIG "." 1*( unreserved / sub-delims / ":" )`. -/
def IPvFuture : Language UInt8 :=
  chars ['v', 'V'] * plus (letter HEXDIG) * char '.' * plus (unreserved + sub_delims + char ':')

/-- `IP-literal = "[" ( IPv6address / IPvFuture ) "]"`. -/
def IP_literal : Language UInt8 := char '[' * (IPv6address + IPvFuture) * char ']'

/-- `host = IP-literal / IPv4address / reg-name`. -/
def host : Language UInt8 := IP_literal + IPv4address + reg_name

/-- `port = *DIGIT`. -/
def port : Language UInt8 := (letter DIGIT)∗

/-- `userinfo = *( unreserved / pct-encoded / sub-delims / ":" )`. -/
def userinfo : Language UInt8 := (unreserved + pct_encoded + sub_delims + char ':')∗

/-- `authority = [ userinfo "@" ] host [ ":" port ]`. -/
def authority : Language UInt8 := opt (userinfo * char '@') * (host * opt (char ':' * port))

/-! ## The whole

A URI has a scheme, so a relative reference is none. -/

/-- `scheme = ALPHA *( ALPHA / DIGIT / "+" / "-" / "." )`. -/
def scheme : Language UInt8 :=
  letter ALPHA * (letter ALPHA + letter DIGIT + chars ['+', '-', '.'])∗

/-- `hier-part = "//" authority path-abempty / path-absolute / path-rootless / path-empty`. -/
def hier_part : Language UInt8 :=
  char '/' * char '/' * authority * path_abempty + path_absolute + path_rootless + path_empty

/-- `URI = scheme ":" hier-part [ "?" query ] [ "#" fragment ]`. -/
def URI : Language UInt8 :=
  scheme * char ':' * hier_part * opt (char '?' * query) * opt (char '#' * fragment)

end Uri
