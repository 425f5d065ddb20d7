import TripleLoom.Text.Ascii

/-!
# TripleLoom.Document — documents and where they are found

A document is a text with the media type it is known to have, if any.  A request may name the one
media type it accepts; media types are told apart without regard to the case of ASCII letters.
Documents are found by their URI in a catalogue.
-/

namespace TripleLoom

/-- A document. -/
structure Document where
  content : String
  mediaType : Option String
  deriving DecidableEq, Repr, Inhabited

/-- The media type that every document has. -/
def anyMediaType : String := "*/*"

/-- Whether a document is acceptable to a request. One without a media type always is. -/
def Document.isAcceptable (d : Document) (accept : Option String) : Bool :=
  match accept, d.mediaType with
  | some wanted, some actual =>
    wanted == anyMediaType || Text.lowerAscii wanted == Text.lowerAscii actual
  | _, _ => true

/-- The acceptable one of an optional document. -/
def Document.accepted? (found : Option Document) (accept : Option String) : Option Document :=
  found.filter (·.isAcceptable accept)

/-- Documents by their URI, the newest first. -/
structure Catalogue where
  entries : List (String × Document)
  deriving Repr, Inhabited

namespace Catalogue

/-- The catalogue without documents. -/
def empty : Catalogue := ⟨[]⟩

/-- A catalogue with one more document, in place of any other of its URI. -/
def insert (c : Catalogue) (uri : String) (d : Document) : Catalogue := ⟨(uri, d) :: c.entries⟩

/-- The acceptable document of a URI. -/
def open? (c : Catalogue) (uri : String) (accept : Option String) : Option Document :=
  Document.accepted? (c.entries.lookup uri) accept

end Catalogue

end TripleLoom
