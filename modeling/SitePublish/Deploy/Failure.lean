import SitePublish.Deploy.Lock
import SitePublish.Deploy.Phase
import SitePublish.Filter.Rule
import SitePublish.Hosting.Basic
import SitePublish.Page.Generation
import SitePublish.Project.Listing

/-!
# Failed deployments

What can go wrong in a deployment, and what is said about it: the phase, the branch and the commit
that stays on the branch when publishing fails after committing.
-/

set_option autoImplicit false

namespace SitePublish

inductive DeployFailure where
  | generation (cause : GenerationError)
  | project (cause : ProjectError)
  | sourceControl (cause : RemoteError)
  | hosting (cause : HostingError)
  | lock (cause : LockError)
  /-- A preview for the production branch. -/
  | ownership (branch : String)
  /-- Leaving out a generated file would publish half a page. -/
  | generatedFileExcluded (path : String) (rule : FilterRule) (reason : String)
  /-- No hosting project to publish to. -/
  | notBootstrapped
deriving DecidableEq

def DeployFailure.message : DeployFailure → String
  | .generation cause => cause.message
  | .project cause => cause.message
  | .sourceControl cause => cause.message
  | .hosting cause => cause.message
  | .lock cause => cause.message
  | .ownership branch => "preview deploys may not target the production branch '" ++ branch ++ "'"
  | .generatedFileExcluded path rule reason =>
    "generated file '" ++ path ++ "' would be excluded from production (" ++ rule.name ++ "): " ++
      reason
  | .notBootstrapped => "no hosting project configured; run bootstrap first"

structure DeployError where
  phase : Phase
  branch : String
  dryRun : Bool
  commit : Option String
  cause : DeployFailure
deriving DecidableEq

namespace DeployError

def message (e : DeployError) : String :=
  "deploy to '" ++ e.branch ++ "' failed during " ++ e.phase.name ++
    (if e.dryRun then " (dry run)" else "") ++ ": " ++ e.cause.message

def isTransport (e : DeployError) : Bool :=
  match e.cause with
  | .sourceControl _ | .hosting _ => true
  | _ => false

end DeployError

end SitePublish
