import SitePublish.Digest.Hex
import SitePublish.Remote.Basic

/-!
# A remote in memory

Branches with their histories and files. A write succeeds only on the head it expects; every commit
takes a number of its own, so a head that has been passed never comes back. The next write or the
next listing can be made to fail.
-/

set_option autoImplicit false

namespace SitePublish

structure MemoryBranch where
  /-- The newest first. -/
  history : List Commit
  blobs : Dict SitePath BlobId
  contents : Dict SitePath (List UInt8)
deriving DecidableEq

structure MemoryRemote where
  branches : Dict String MemoryBranch
  commits : Nat
  failNextWrite : Option RemoteError
  failNextList : Option RemoteError
deriving DecidableEq

namespace MemoryBranch

def empty : MemoryBranch := ⟨[], [], []⟩

def head? (b : MemoryBranch) : Option String := b.history.head?.map Commit.id

def applyWrite (b : MemoryBranch) (w : FileWrite) : MemoryBranch :=
  match w.change with
  | .put content =>
    { b with
      blobs := b.blobs.insert w.path (BlobId.ofBytes content.bytes)
      contents := b.contents.insert w.path content.bytes }
  | .delete => { b with blobs := b.blobs.erase w.path, contents := b.contents.erase w.path }

def push (b : MemoryBranch) (c : Commit) : MemoryBranch := { b with history := c :: b.history }

end MemoryBranch

namespace MemoryRemote

def empty : MemoryRemote := ⟨[], 0, none, none⟩

def branch? (r : MemoryRemote) (name : String) : Option MemoryBranch := r.branches.get? name

def head? (r : MemoryRemote) (name : String) : Option String :=
  (r.branch? name).bind MemoryBranch.head?

def commitId (n : Nat) : String :=
  let ds := Nat.toDigits 16 n
  String.ofList (List.replicate (40 - ds.length) '0' ++ ds)

def commitUrl (id : String) : String := "memory://commit/" ++ id

def newCommit (n : Nat) (message : String) : Commit :=
  ⟨commitId n, message, "siteforge", none, commitUrl (commitId n)⟩

def commit (r : MemoryRemote) (name message : String) (files : List FileWrite) : MemoryRemote :=
  let b := (r.branch? name).getD .empty
  let n := r.commits + 1
  { r with
    branches := r.branches.insert name
      ((files.foldl MemoryBranch.applyWrite b).push (newCommit n message))
    commits := n }

def seed (r : MemoryRemote) (name message : String) : String × MemoryRemote :=
  (commitId (r.commits + 1), r.commit name message [])

def snapshot (r : MemoryRemote) (name : String) : Option Snapshot := do
  let b ← r.branch? name
  let head ← b.head?
  return ⟨head, b.blobs⟩

def listCommits (r : MemoryRemote) (name : String) (count : Nat) :
    Except RemoteError (List Commit) × MemoryRemote :=
  match r.failNextList with
  | some e => (.error e, { r with failNextList := none })
  | none =>
    match r.branch? name with
    | none => (.error (.notFound ("branch '" ++ name ++ "'")), r)
    | some b => (.ok (b.history.take count), r)

def write (r : MemoryRemote) (name : String) (expected : Option String) (files : List FileWrite)
    (message : String) : Except RemoteError CommitReceipt × MemoryRemote :=
  match r.failNextWrite with
  | some e => (.error e, { r with failNextWrite := none })
  | none =>
    if r.head? name = expected then
      let id := commitId (r.commits + 1)
      (.ok ⟨id, commitUrl id⟩, r.commit name message files)
    else (.error (.headMoved name (expected.getD "none")), r)

def commitCount (r : MemoryRemote) (name : String) : Nat :=
  ((r.branch? name).map fun b => b.history.length).getD 0

def paths (r : MemoryRemote) (name : String) : List SitePath :=
  ((r.branch? name).map fun b => b.contents.keys).getD []

def file? (r : MemoryRemote) (name path : String) : Option (List UInt8) :=
  match SitePath.ofText path with
  | .error _ => none
  | .ok p => (r.branch? name).bind fun b => b.contents.get? p

end MemoryRemote

end SitePublish
