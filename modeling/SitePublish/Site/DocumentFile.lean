import SitePublish.FileTree.Basic
import SitePublish.Site.Document

/-!
# Document files

Where an editor keeps a document: a file is read as JSON and written in its pretty form, with its
directory made if need be.
-/

set_option autoImplicit false

namespace SitePublish

inductive DocumentFileError where
  | notFound (path : String)
  | malformed (path : String)
  | unreadable (cause : FileError)
deriving DecidableEq

def DocumentFileError.message (detail : String) : DocumentFileError → String
  | .notFound path => "Website document not found: " ++ path
  | .malformed path => "Invalid website document " ++ path ++ ": " ++ detail
  | .unreadable cause => "I/O error: " ++ cause.message

namespace DocumentFile

def load (files : FileTree) (path : String) : Except DocumentFileError Document :=
  match files.readText path with
  | .error .notFound => .error (.notFound path)
  | .error e => .error (.unreadable e)
  | .ok content =>
    match Document.parse? content with
    | some d => .ok d
    | none => .error (.malformed path)

/-- The directory of a file; a bare name lies in the working directory. -/
def directory (path : String) : String :=
  match FileTree.parent? path with
  | some dir => if dir = "" then "." else dir
  | none => "."

def save (files : FileTree) (path : String) (d : Document) :
    Except DocumentFileError FileTree :=
  match files.createDirs (directory path) with
  | .error e => .error (.unreadable e)
  | .ok files =>
    match files.write path (Text.utf8 d.render) with
    | .error e => .error (.unreadable e)
    | .ok files => .ok files

end DocumentFile

end SitePublish
