import TripleLoom.Iri.Address
import TripleLoom.Term.Basic

/-!
# TripleLoom.Iri.Syntax — the parts of an IRI reference

A reference falls into a scheme, an authority, a path, a query and a fragment.  `Reference.ofText`
cuts a text at the characters that separate them; `Reference.isValid` says whether each part holds
what RFC 3987 lets it hold.
-/

namespace TripleLoom

/-- The parts of an IRI reference, each without the characters that set it off. -/
structure Reference where
  scheme : Option (List Char)
  authority : Option (List Char)
  path : List Char
  query : Option (List Char)
  fragment : Option (List Char)
  deriving DecidableEq, Repr, Inhabited

namespace Reference

/-! ### Cutting a text -/

/-- Whether a character may stand in a scheme behind its first letter. -/
def isSchemeChar (c : Char) : Bool := c.isAlphanum || c == '+' || c == '-' || c == '.'

/-- The scheme at the beginning of a text, if there is one, and the rest. -/
def cutScheme (s : List Char) : Option (List Char) × List Char :=
  match s.dropWhile isSchemeChar with
  | ':' :: rest =>
    if (s.head?.map Char.isAlpha).getD false then (some (s.takeWhile isSchemeChar), rest)
    else (none, s)
  | _ => (none, s)

/-- The part behind a mark, if the text has the mark, and the part before it. -/
def cutBehind (mark : Char) (s : List Char) : List Char × Option (List Char) :=
  match s.dropWhile (· != mark) with
  | _ :: rest => (s.takeWhile (· != mark), some rest)
  | [] => (s, none)

/-- The parts of a text. -/
def ofText (s : List Char) : Reference :=
  let (scheme, rest) := cutScheme s
  let (rest, fragment) := cutBehind '#' rest
  let (rest, query) := cutBehind '?' rest
  match rest with
  | '/' :: '/' :: rest =>
    ⟨scheme, some (rest.takeWhile (· != '/')), rest.dropWhile (· != '/'), query, fragment⟩
  | path => ⟨scheme, none, path, query, fragment⟩

/-- The text of the parts. -/
def toText (r : Reference) : List Char :=
  (r.scheme.map (· ++ [':'])).getD [] ++ (r.authority.map (['/', '/'] ++ ·)).getD [] ++ r.path ++
    (r.query.map ('?' :: ·)).getD [] ++ (r.fragment.map ('#' :: ·)).getD []

/-! ### Characters -/

/-- Whether a code point lies in a range. -/
def within (c : Char) (low high : Nat) : Bool := low ≤ c.toNat && c.toNat ≤ high

/-- The characters beyond ASCII that are not reserved. -/
def isUcsChar (c : Char) : Bool :=
  within c 0xA0 0xD7FF || within c 0xF900 0xFDCF || within c 0xFDF0 0xFFEF ||
    within c 0x10000 0x1FFFD || within c 0x20000 0x2FFFD || within c 0x30000 0x3FFFD ||
    within c 0x40000 0x4FFFD || within c 0x50000 0x5FFFD || within c 0x60000 0x6FFFD ||
    within c 0x70000 0x7FFFD || within c 0x80000 0x8FFFD || within c 0x90000 0x9FFFD ||
    within c 0xA0000 0xAFFFD || within c 0xB0000 0xBFFFD || within c 0xC0000 0xCFFFD ||
    within c 0xD0000 0xDFFFD || within c 0xE1000 0xEFFFD

/-- The characters for private use. -/
def isPrivate (c : Char) : Bool :=
  within c 0xE000 0xF8FF || within c 0xF0000 0xFFFFD || within c 0x100000 0x10FFFD

/-- The characters of ASCII that stand for themselves everywhere: unreserved ones and
sub-delimiters. -/
def isPlainAscii (c : Char) : Bool := c.isAlphanum || "-._~!$&'()*+,;=".toList.contains c

/-- The characters that stand for themselves everywhere. -/
def isPlain (c : Char) : Bool := isPlainAscii c || isUcsChar c

/-- Whether a text holds only allowed characters and escapes by a percent sign. -/
def isEscaped (allowed : Char → Bool) : List Char → Bool
  | [] => true
  | '%' :: a :: b :: rest => Address.isHex a && Address.isHex b && isEscaped allowed rest
  | c :: rest => allowed c && isEscaped allowed rest

/-- Whether a character may stand in the part of an authority before the host. -/
def isUserChar (c : Char) : Bool := isPlain c || c == ':'

/-- Whether a character may stand in an address of a future kind. -/
def isAddressChar (c : Char) : Bool := isPlainAscii c || c == ':'

/-- Whether a character may stand in a path. -/
def isPathChar (c : Char) : Bool := isPlain c || c == ':' || c == '@' || c == '/'

/-- Whether a character may stand in a fragment. -/
def isFragmentChar (c : Char) : Bool := isPathChar c || c == '?'

/-- Whether a character may stand in a query. -/
def isQueryChar (c : Char) : Bool := isFragmentChar c || isPrivate c

/-! ### Validity -/

/-- Whether a text is nothing or a port behind its colon. -/
def isPort : List Char → Bool
  | [] => true
  | c :: digits => c == ':' && digits.all Char.isDigit

/-- Whether a text is a host, possibly with a port. -/
def isHost : List Char → Bool
  | '[' :: rest =>
    let address := rest.takeWhile (· != ']')
    match rest.dropWhile (· != ']') with
    | _ :: port => isPort port &&
      (if address.head?.any (fun c => c == 'v' || c == 'V')
        then Address.isFuture isAddressChar address else Address.isIPv6 address)
    | [] => false
  | s => isEscaped isPlain (s.takeWhile (· != ':')) && isPort (s.dropWhile (· != ':'))

/-- Whether a text is an authority: a host with what may stand before it. -/
def isAuthority (s : List Char) : Bool :=
  match cutBehind '@' s with
  | (user, some host) =>
    if user.contains '[' then isHost s else isEscaped isUserChar user && isHost host
  | (_, none) => isHost s

/-- Whether a path can be told from a scheme: its first segment has no colon. -/
def isPathWithoutScheme (path : List Char) : Bool := !(path.takeWhile (· != '/')).contains ':'

/-- Whether every part holds what it may hold. -/
def isValid (r : Reference) : Bool :=
  r.authority.all isAuthority && isEscaped isPathChar r.path &&
    r.query.all (isEscaped isQueryChar) && r.fragment.all (isEscaped isFragmentChar) &&
    (r.scheme.isSome || r.authority.isSome || isPathWithoutScheme r.path)

end Reference

end TripleLoom
