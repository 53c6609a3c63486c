import SitePublish.Deploy.Preparation
import SitePublish.Remote.Plan

/-!
# Results of deployments

What a caller learns about a deployment, a publication or a bootstrap that succeeded.
-/

set_option autoImplicit false

namespace SitePublish

structure DeployResult where
  target : Target
  branch : String
  dryRun : Bool
  phase : Phase
  /-- The paths that ship, in ascending order. -/
  files : List String
  excluded : List ExcludedFile
  stats : FilterStats
  fingerprint : ContentHash
  written : List String
  deleted : List String
  /-- How many files were identical on the branch. -/
  unchanged : Nat
  /-- Whether the branch already held this very content. -/
  noChanges : Bool
  commit : Option CommitReceipt
  deployment : Option Deployment
  version : Nat
deriving DecidableEq

namespace DeployResult

def isSuccess (r : DeployResult) : Bool := r.phase = .succeeded

def hasChanges (r : DeployResult) : Bool := r.commit.isSome

def url (r : DeployResult) : Option String := r.deployment.map Deployment.url

def ofPrepared (target : Target) (branch : String) (document : Document) (p : Prepared) :
    DeployResult where
  target := target
  branch := branch
  dryRun := true
  phase := .succeeded
  files := p.retained.map fun c => c.path.text
  excluded := p.excluded
  stats := p.stats
  fingerprint := p.fingerprint
  written := []
  deleted := []
  unchanged := 0
  noChanges := false
  commit := none
  deployment := none
  version := document.currentVersion

end DeployResult

structure RepublishResult where
  target : Target
  branch : String
  deployment : Deployment
deriving DecidableEq

structure BootstrapResult where
  /-- The dry run for the initial document. -/
  preview : DeployResult
  project : HostingProject
deriving DecidableEq

end SitePublish
