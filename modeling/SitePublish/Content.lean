import SitePublish.Digest.Sha1
import SitePublish.Digest.Sha256
import SitePublish.Site.Path
import SitePublish.Text.Bytes

/-!
# File contents and their identities

A file is a text when its bytes are one. A blob is named by the digest that a git repository gives
its bytes, and a set of files by the digest of its framed entries: path and content, each behind its
length, so that no byte can pass from one to the other.
-/

set_option autoImplicit false

namespace SitePublish

inductive FileContent where
  | text (s : String)
  | binary (bytes : List UInt8)
deriving DecidableEq

namespace FileContent

def bytes : FileContent → List UInt8
  | .text s => Text.utf8 s
  | .binary b => b

def text? : FileContent → Option String
  | .text s => some s
  | .binary _ => none

def isBinary : FileContent → Bool
  | .text _ => false
  | .binary _ => true

def ofBytes (bytes : List UInt8) : FileContent :=
  match Text.ofUtf8? bytes with
  | some s => .text s
  | none => .binary bytes

theorem bytes_ofBytes (b : List UInt8) : (ofBytes b).bytes = b := by
  simp only [ofBytes]
  split
  · next h => exact Text.utf8_of_ofUtf8? h
  · rfl

end FileContent

structure BlobId where
  text : String
deriving DecidableEq

namespace BlobId

def ofText (s : String) : BlobId := ⟨Text.asciiLower s⟩

def frame (content : List UInt8) : List UInt8 :=
  Text.utf8 "blob " ++ Text.utf8 (toString content.length) ++ 0 :: content

def ofBytes (content : List UInt8) : BlobId := ⟨Digest.Sha1.hex (frame content)⟩

end BlobId

structure ContentHash where
  text : String
deriving DecidableEq

namespace ContentHash

def scheme : String := "sha256:"

def ofText (s : String) : ContentHash :=
  if Text.startsWith scheme s then ⟨s⟩ else ⟨scheme ++ s⟩

def ofBytes (content : List UInt8) : ContentHash := ⟨scheme ++ Digest.Sha256.hex content⟩

/-- A part behind its length as an unsigned word, the low byte first. -/
def framed (part : List UInt8) : List UInt8 := Digest.littleEndian 8 part.length ++ part

def stream (entries : List (String × List UInt8)) : List UInt8 :=
  entries.flatMap fun e => framed (Text.utf8 e.1) ++ framed e.2

def ofEntries (entries : List (String × List UInt8)) : ContentHash := ofBytes (stream entries)

def hex (h : ContentHash) : String :=
  match Text.stripPrefix scheme.toList h.text.toList with
  | some rest => String.ofList rest
  | none => h.text

end ContentHash

inductive FileOrigin where
  | generated
  | project
deriving DecidableEq

def FileOrigin.name : FileOrigin → String
  | .generated => "generated"
  | .project => "project"

structure Candidate where
  path : SitePath
  content : FileContent
  origin : FileOrigin
deriving DecidableEq

namespace Candidate

def blob (c : Candidate) : BlobId := BlobId.ofBytes c.content.bytes

def ofProject (path : SitePath) (bytes : List UInt8) : Candidate :=
  ⟨path, FileContent.ofBytes bytes, .project⟩

end Candidate

end SitePublish
