import SitePublish.Hosting.Basic

/-!
# A host in memory

Records what it is asked for. The next call can be made to fail.
-/

set_option autoImplicit false

namespace SitePublish

structure RecordedDeployment where
  project : String
  branch : String
  commit : Option String
deriving DecidableEq

structure MemoryHost where
  /-- In the order requested. -/
  deployments : List RecordedDeployment
  projects : List HostingProject
  failNext : Option HostingError
deriving DecidableEq

namespace MemoryHost

def empty : MemoryHost := ⟨[], [], none⟩

def deploy (h : MemoryHost) (q : DeploymentRequest) :
    Except HostingError Deployment × MemoryHost :=
  match h.failNext with
  | some e => (.error e, { h with failNext := none })
  | none =>
    let n := toString (h.deployments.length + 1)
    (.ok ⟨"dpl_" ++ n, "https://" ++ q.project ++ "-" ++ n ++ ".memory.test"⟩,
      { h with deployments := h.deployments ++ [⟨q.project, q.branch, q.commit⟩] })

def provision (h : MemoryHost) (repo : RepoRef) (domain : Option String) :
    Except HostingError HostingProject × MemoryHost :=
  match h.failNext with
  | some e => (.error e, { h with failNext := none })
  | none =>
    let n := toString (h.projects.length + 1)
    let p : HostingProject := ⟨"prj_" ++ n, "https://" ++ repo.repo ++ ".memory.test", domain⟩
    (.ok p, { h with projects := h.projects ++ [p] })

end MemoryHost

end SitePublish
