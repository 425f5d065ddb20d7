import TripleLoom.Text.Search

/-!
# TripleLoom.Iri.Address — the addresses that may stand between brackets

An IPv6 address is eight groups of up to four hexadecimal digits, the last two of which may be
written as an IPv4 address; a double colon, at most one, stands for one or more groups of zeros.
Behind the letter v and a version stands an address of a future kind.
-/

namespace TripleLoom.Address

/-- Whether a character is a hexadecimal digit. -/
def isHex (c : Char) : Bool :=
  c.isDigit || ('a' ≤ c && c ≤ 'f') || ('A' ≤ c && c ≤ 'F')

/-- Whether a text is a number below 256 without leading zeros. -/
def isOctet (s : List Char) : Bool :=
  !s.isEmpty && s.length ≤ 3 && s.all Char.isDigit && Nat.ofDigitChars 10 s 0 < 256 &&
    (s.length == 1 || s.head? != some '0')

/-- Whether a text is an IPv4 address. -/
def isIPv4 (s : List Char) : Bool :=
  let octets := Text.pieces ['.'] s
  octets.length == 4 && octets.all isOctet

/-- Whether a text is a group of an IPv6 address. -/
def isGroup (s : List Char) : Bool := !s.isEmpty && s.length ≤ 4 && s.all isHex

/-- The number of groups that some texts make up, if each is a group or, where that is allowed,
the last one is an IPv4 address. -/
def countGroups? (allowIPv4 : Bool) : List (List Char) → Option Nat
  | [] => some 0
  | [last] =>
    if isGroup last then some 1 else if allowIPv4 && isIPv4 last then some 2 else none
  | g :: rest => if isGroup g then (countGroups? allowIPv4 rest).map (· + 1) else none

/-- The number of groups on one side of a double colon. -/
def countSide? (allowIPv4 : Bool) (s : List Char) : Option Nat :=
  if s.isEmpty then some 0 else countGroups? allowIPv4 (Text.pieces [':'] s)

/-- Whether a text is an IPv6 address. -/
def isIPv6 (s : List Char) : Bool :=
  match Text.pieces [':', ':'] s with
  | [all] => countSide? true all == some 8
  | [left, right] =>
    match countSide? false left, countSide? true right with
    | some l, some r => l + r ≤ 7
    | _, _ => false
  | _ => false

/-- Whether a text is an address of a future kind: the letter v, a version, a point, and at least
one of the given characters. -/
def isFuture (allowed : Char → Bool) : List Char → Bool
  | v :: s =>
    let version := s.takeWhile isHex
    let address := (s.dropWhile isHex).drop 1
    (v == 'v' || v == 'V') && !version.isEmpty && (s.dropWhile isHex).head? == some '.' &&
      !address.isEmpty && address.all allowed
  | [] => false

end TripleLoom.Address
