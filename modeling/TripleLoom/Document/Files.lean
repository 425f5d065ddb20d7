import TripleLoom.Document
import TripleLoom.Text.Search

/-!
# TripleLoom.Document.Files — documents in a tree of files

A tree of files is asked for documents by `file:` URIs and by paths relative to one of its
directories.  A path behind the scheme does not start there: it is absolute, or it starts from the
working directory.  The media type of a file is known from its extension, and only a file that
holds UTF-8 is a document.
-/

namespace TripleLoom

/-- A path from the root, as the names on the way. -/
abbrev Path := List String

/-- A tree of files with the directory that relative paths without a scheme start from and the one
that those behind a scheme start from. The newest content of a file stands first. -/
structure FileTree where
  base : Path
  working : Path
  files : List (Path × ByteArray)
  deriving Inhabited

namespace FileTree

/-- The parts of a path between its slashes. -/
def parts (path : String) : List String :=
  (Text.pieces ['/'] path.toList).map String.ofList

/-- The path of a text that starts at a given directory, which a leading slash overrides. -/
def resolve (start : Path) (path : String) : Path × List String :=
  match parts path with
  | "" :: rest => ([], rest)
  | rest => (start, rest)

/-- Whether a path is that of a directory. -/
def isDirectory (t : FileTree) (path : Path) : Bool :=
  path.isPrefixOf t.base || path.isPrefixOf t.working ||
    t.files.any fun (file, _) => path != file && path.isPrefixOf file

/-- Follows the parts of a path from a directory. Every part but the last has to lead to a
directory. -/
def walk? (t : FileTree) : Path → List String → Option Path
  | here, [] => some here
  | here, part :: rest =>
    if t.isDirectory here then
      if part = "" ∨ part = "." then t.walk? here rest
      else if part = ".." then t.walk? here.dropLast rest
      else t.walk? (here ++ [part]) rest
    else none

/-- A tree with the content of one file, named relative to the base. -/
def write (t : FileTree) (name : String) (content : ByteArray) : FileTree :=
  let (start, names) := resolve t.base name
  { t with files := (start ++ names.filter (fun n => n ≠ "" ∧ n ≠ "."), content) :: t.files }

/-- The content of the file at the end of a path. -/
def read? (t : FileTree) (start : Path) (path : String) : Option ByteArray := do
  let (here, names) := resolve start path
  t.files.lookup (← t.walk? here names)

/-! ### Documents -/

/-- The media type that an extension, in any case of letters, stands for. -/
def mediaTypeOf? (extension : String) : Option String :=
  match Text.lowerAscii extension with
  | "csv" => some "text/csv"
  | "tsv" => some "text/tab-separated-values"
  | "json" => some "application/json"
  | "xml" => some "application/xml"
  | "html" => some "text/html"
  | "ttl" => some "text/turtle"
  | "txt" => some "text/plain"
  | "rqg" => some "application/vnd.sparql-generate"
  | _ => none

/-- The part of a path's last name behind its last point, unless that point starts the name. -/
def extension? (path : String) : Option String :=
  let name := ((parts path).getLastD "").toList
  let after := name.reverse.takeWhile (· != '.')
  if after.length + 1 < name.length then some (String.ofList after.reverse) else none

/-- Where a URI points: behind the scheme `file`, or relative to the base if it has no scheme. -/
def pathOf? (t : FileTree) (uri : String) : Option (Path × String) :=
  let s := uri.toList
  match "file://".toList.isPrefixOf? s, "file:".toList.isPrefixOf? s with
  | some path, _ => some (t.working, String.ofList path)
  | none, some path => some (t.working, String.ofList path)
  | none, none => if s.contains ':' then none else some (t.base, uri)

/-- The acceptable document of a URI. -/
def open? (t : FileTree) (uri : String) (accept : Option String) : Option Document := do
  let (start, path) ← t.pathOf? uri
  let content ← String.fromUTF8? (← t.read? start path)
  Document.accepted? (some ⟨content, extension? path >>= mediaTypeOf?⟩) accept

end FileTree

end TripleLoom
