import SitePublish.Deploy.Target
import SitePublish.Remote.Basic

/-!
# The hosting provider

Who builds and serves a branch of the repository.
-/

set_option autoImplicit false

namespace SitePublish

structure Deployment where
  id : String
  url : String
deriving DecidableEq

structure HostingProject where
  id : String
  url : String
  domain : Option String
deriving DecidableEq

structure DeploymentRequest where
  project : String
  repo : RepoRef
  branch : String
  /-- The commit to build; the head of the branch if it is none. -/
  commit : Option String
  target : Target
deriving DecidableEq

inductive HostingError where
  | unauthorized (status : Nat) (message : String)
  | http (status : Nat) (message : String)
  | transport (message : String)
  | invalidResponse (message : String)
deriving DecidableEq

namespace HostingError

def message : HostingError → String
  | .unauthorized status message =>
    "hosting provider rejected credentials (HTTP " ++ toString status ++ "): " ++ message
  | .http status message => "hosting provider returned HTTP " ++ toString status ++ ": " ++ message
  | .transport message => "hosting request failed: " ++ message
  | .invalidResponse message => "unexpected hosting response: " ++ message

def status? : HostingError → Option Nat
  | .unauthorized status _ | .http status _ => some status
  | .transport _ | .invalidResponse _ => none

def isUnauthorized : HostingError → Bool
  | .unauthorized _ _ => true
  | _ => false

end HostingError

end SitePublish
