import SitePublish.Json.Basic
import SitePublish.Remote.Basic

/-!
# Version histories

The commits of a branch as a user sees them: the newest first, numbered from the end of the page,
so that a longer page gives the same commits higher numbers.
-/

set_option autoImplicit false

namespace SitePublish

structure VersionRecord where
  number : Nat
  commit : Commit
deriving DecidableEq

structure VersionFetchError where
  /-- The status the remote answered with, if it answered. -/
  status : Option Nat
  text : String
deriving DecidableEq

namespace VersionFetchError

def ofRemote (e : RemoteError) : VersionFetchError := ⟨e.status?, e.message⟩

def message (e : VersionFetchError) : String := "failed to fetch versions: " ++ e.text

def isUnauthorized (e : VersionFetchError) : Bool := e.status = some 401 || e.status = some 403

end VersionFetchError

namespace VersionRecord

def shortIdLength : Nat := 7

def shortId (r : VersionRecord) : String := String.ofList (r.commit.id.toList.take shortIdLength)

def title (r : VersionRecord) : String := ((Text.lines r.commit.message).head?).getD ""

def numbered : List Commit → List VersionRecord
  | [] => []
  | c :: rest => ⟨rest.length + 1, c⟩ :: numbered rest

def toJson (r : VersionRecord) : Json :=
  Json.ofMembers
    [("versionNumber", Json.ofNat r.number), ("commitIdentifier", .str r.commit.id),
     ("shortIdentifier", .str r.shortId), ("message", .str r.commit.message),
     ("author", .str r.commit.author),
     ("timestamp", Json.ofOption (fun t : Instant => .str t.toText) r.commit.timestamp),
     ("url", .str r.commit.url)]

end VersionRecord

namespace VersionHistory

def maxPage : Nat := 100

def defaultPage : Nat := 30

def pageSize (asked : Nat) : Nat := max 1 (min asked maxPage)

def list {σ : Type} (listCommits : String → Nat → σ → Except RemoteError (List Commit) × σ)
    (branch : String) (asked : Nat) (s : σ) :
    Except VersionFetchError (List VersionRecord) × σ :=
  match listCommits branch (pageSize asked) s with
  | (.error e, s) => (.error (.ofRemote e), s)
  | (.ok commits, s) => (.ok (VersionRecord.numbered commits), s)

end VersionHistory

end SitePublish
