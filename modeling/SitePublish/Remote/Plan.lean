import SitePublish.Remote.Basic

/-!
# Commit plans

Which files a commit has to carry. A file whose blob is the one at the head of the branch is
skipped; a path of the branch that the generator owns and no file claims any more is deleted, and
every other path is left alone.
-/

set_option autoImplicit false

namespace SitePublish

inductive FileAction where
  | create
  | update
  | skip
  | delete
deriving DecidableEq

def FileAction.ofBlobs (blob : BlobId) (current : Option BlobId) : FileAction :=
  match current with
  | none => .create
  | some b => if b = blob then .skip else .update

structure PlannedFile where
  path : SitePath
  content : FileContent
  blob : BlobId
  action : FileAction
deriving DecidableEq

namespace PlannedFile

def isWrite (f : PlannedFile) : Bool := f.action = .create || f.action = .update

def isSkip (f : PlannedFile) : Bool := f.action = .skip

def write (f : PlannedFile) : FileWrite := ⟨f.path, .put f.content⟩

def ofCandidate (blobs : Dict SitePath BlobId) (c : Candidate) : PlannedFile :=
  ⟨c.path, c.content, c.blob, .ofBlobs c.blob (blobs.get? c.path)⟩

end PlannedFile

structure CommitPlan where
  /-- The head it was made for; none for a branch that does not exist. -/
  base : Option String
  files : List PlannedFile
  deletions : List SitePath
deriving DecidableEq

namespace CommitPlan

def ofSnapshot (files : List Candidate) (snapshot : Option Snapshot) (owned : SitePath → Bool) :
    CommitPlan :=
  let blobs := (snapshot.map Snapshot.blobs).getD []
  let retained := files.map Candidate.path
  { base := snapshot.map Snapshot.head
    files := files.map (PlannedFile.ofCandidate blobs)
    deletions := blobs.keys.filter fun p => !retained.contains p && owned p }

def toWrite (p : CommitPlan) : List PlannedFile := p.files.filter PlannedFile.isWrite

def writeCount (p : CommitPlan) : Nat := p.toWrite.length

def skipCount (p : CommitPlan) : Nat := p.files.countP PlannedFile.isSkip

def deleteCount (p : CommitPlan) : Nat := p.deletions.length

def changeCount (p : CommitPlan) : Nat := p.writeCount + p.deleteCount

def action? (p : CommitPlan) (path : SitePath) : Option FileAction :=
  if p.deletions.contains path then some .delete
  else (p.files.find? fun f => f.path = path).map PlannedFile.action

/-- Nothing differs from the head. A branch that does not exist always needs a commit, so that there
is something to publish. -/
def isNoop (p : CommitPlan) : Bool := p.base.isSome && p.changeCount = 0

def writes (p : CommitPlan) : List FileWrite :=
  p.toWrite.map PlannedFile.write ++ p.deletions.map fun path => ⟨path, .delete⟩

end CommitPlan

end SitePublish
