import SitePublish.Content
import SitePublish.Dict
import SitePublish.Time.Instant

/-!
# The source-control remote

What the program reads from and writes to the repository that holds the published site: commits,
snapshots of a branch as blob ids, and changes of files.
-/

set_option autoImplicit false

namespace SitePublish

structure RepoRef where
  owner : String
  repo : String
deriving DecidableEq

namespace RepoRef

def parse? (s : String) : Option RepoRef :=
  match Text.splitChars '/' (Text.trimChars s.toList) with
  | [owner, repo] =>
    if owner = [] ∨ repo = [] then none else some ⟨String.ofList owner, String.ofList repo⟩
  | _ => none

def display (r : RepoRef) : String := r.owner ++ "/" ++ r.repo

end RepoRef

structure Commit where
  id : String
  message : String
  author : String
  timestamp : Option Instant
  url : String
deriving DecidableEq

structure Snapshot where
  head : String
  blobs : Dict SitePath BlobId
deriving DecidableEq

inductive FileChange where
  | put (content : FileContent)
  | delete
deriving DecidableEq

structure FileWrite where
  path : SitePath
  change : FileChange
deriving DecidableEq

def FileWrite.isDelete (w : FileWrite) : Bool := w.change = .delete

structure CommitReceipt where
  id : String
  url : String
deriving DecidableEq

inductive RemoteError where
  | unauthorized (repo : String) (status : Nat) (message : String)
  | notFound (what : String)
  /-- The branch advanced between the snapshot and the write. -/
  | headMoved (branch expected : String)
  | http (status : Nat) (message : String)
  | transport (message : String)
  | invalidResponse (message : String)
deriving DecidableEq

namespace RemoteError

def message : RemoteError → String
  | .unauthorized repo status message =>
    "not authorized for " ++ repo ++ " (HTTP " ++ toString status ++ "): " ++ message
  | .notFound what => what ++ " not found"
  | .headMoved branch expected => "branch '" ++ branch ++ "' moved: expected head " ++ expected
  | .http status message => "source control returned HTTP " ++ toString status ++ ": " ++ message
  | .transport message => "source control request failed: " ++ message
  | .invalidResponse message => "unexpected source control response: " ++ message

def status? : RemoteError → Option Nat
  | .unauthorized _ status _ | .http status _ => some status
  | .notFound _ => some 404
  | .headMoved _ _ => some 409
  | .transport _ | .invalidResponse _ => none

def isUnauthorized : RemoteError → Bool
  | .unauthorized _ _ _ => true
  | _ => false

end RemoteError

end SitePublish
