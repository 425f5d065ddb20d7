import TripleLoom.Iri.Syntax

/-!
# TripleLoom.Iri.Resolve — IRI references against a base

A reference with a scheme stands for itself, and one with an authority lacks the scheme alone: the
paths of both are kept as they are.  Any other reference takes the parts it lacks from the base; its
path starts from the last directory of the base's path, and its segments `.` and `..` are followed
on the way.
-/

namespace TripleLoom.Reference

/-- A path up to the slash before its last segment, the slash included: the empty path if there is
no slash. -/
def directory (path : List Char) : List Char := (path.reverse.dropWhile (· != '/')).reverse

/-- A directory without its last segment. Behind an authority it keeps the slash that sets it off,
and elsewhere nothing needs to be left. -/
def parent (behindAuthority : Bool) (path : List Char) : List Char :=
  match directory path.dropLast with
  | [] => if behindAuthority then ['/'] else []
  | up => up

/-- Whether a directory would be taken for an authority: it is two slashes, and there is no
authority before it. -/
def isAmbiguous (behindAuthority : Bool) (here : List Char) : Bool :=
  !behindAuthority && here = ['/', '/']

/-- Follows the segments of a relative path from a directory. The one segment that may follow a
directory that would be taken for an authority is the one that leaves it. -/
def follow? (behindAuthority : Bool) (here : List Char) : List (List Char) → Option (List Char)
  | [] => some here
  | segment :: rest =>
    if segment = ['.', '.'] then follow? behindAuthority (parent behindAuthority here) rest
    else if isAmbiguous behindAuthority here then none
    else if segment = ['.'] then follow? behindAuthority here rest
    else if rest = [] then some (here ++ segment)
    else follow? behindAuthority (here ++ segment ++ ['/']) rest

/-- The path of a reference, its dot segments followed from a directory, or from the root if it
begins with a slash. -/
def followPath? (behindAuthority : Bool) (here path : List Char) : Option (List Char) :=
  match path with
  | '/' :: rest => follow? behindAuthority ['/'] (Text.pieces ['/'] rest)
  | path => follow? behindAuthority here (Text.pieces ['/'] path)

/-- The directory that relative paths start from: without a path of its own the base has the root
of its authority. -/
def start (base : Reference) : List Char :=
  if base.authority.isSome ∧ base.path.isEmpty then ['/'] else directory base.path

/-- The reference that stands for another one under a base, if the way there can be told from an
authority. -/
def resolve? (base r : Reference) : Option Reference :=
  if r.scheme.isSome then some r
  else if r.authority.isSome then some { r with scheme := base.scheme }
  else if r.path.isEmpty then
    some { base with query := r.query.or base.query, fragment := r.fragment }
  else do
    let path ← followPath? base.authority.isSome base.start r.path
    return { base with path := path, query := r.query, fragment := r.fragment }

end TripleLoom.Reference

namespace TripleLoom.Iri

/-- The IRI that a text is, if it is a valid one with a scheme. -/
def ofText? (s : String) : Option Iri :=
  let r := Reference.ofText s.toList
  if r.scheme.isSome ∧ r.isValid then some ⟨s⟩ else none

/-- The IRI that a valid reference stands for under a base. -/
def resolve? (base : Iri) (s : String) : Option Iri :=
  let r := Reference.ofText s.toList
  if r.isValid then
    ((Reference.ofText base.text.toList).resolve? r).map fun target =>
      ⟨String.ofList target.toText⟩
  else none

end TripleLoom.Iri
