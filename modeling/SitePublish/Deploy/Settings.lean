import SitePublish.Deploy.Failure
import SitePublish.Deploy.Target
import SitePublish.Remote.Basic
import SitePublish.Site.Document

/-!
# What is deployed where

The branches and the hosting project of a site, and what a caller asks of one deployment. The
production branch belongs to production deployments: a preview may not touch it.
-/

set_option autoImplicit false

namespace SitePublish

structure DeploySettings where
  repo : RepoRef
  productionBranch : String
  previewBranch : String
  hostingProject : Option String
deriving DecidableEq

structure DeployOptions where
  target : Target
  /-- Instead of the branch that is set for the target. -/
  branch : Option String
  dryRun : Bool
  overrides : SeoOverrides
  /-- Instead of a message that names the version. -/
  message : Option String
deriving DecidableEq

namespace DeploySettings

def ofRepo (repo : RepoRef) : DeploySettings := ⟨repo, "main", "preview", none⟩

def branchOf (s : DeploySettings) : Target → String
  | .production => s.productionBranch
  | .preview => s.previewBranch

/-- The branch for a request: the one asked for, unless it is blank. -/
def resolveBranch (s : DeploySettings) (target : Target) (asked : Option String) : String :=
  match asked.map Text.trim with
  | some b => if b = "" then s.branchOf target else b
  | none => s.branchOf target

def checkOwnership (s : DeploySettings) (target : Target) (branch : String) :
    Except DeployFailure Unit :=
  if target = .preview ∧ branch = s.productionBranch then .error (.ownership branch) else .ok ()

end DeploySettings

end SitePublish
