import SitePublish.Proofs.Deploy.Preparation
import SitePublish.Proofs.Deploy.Remote

/-!
# Sessions

Deployments, publications and bootstraps in any order by one deployer, with failures of the remote
and of the host put in their way. A file comes to a branch in one way only: a real deployment to
that branch has it among the files that ship. As production ships only what the filter includes and
a preview may not go to the production branch, nothing else is ever on the production branch.
-/

set_option autoImplicit false

namespace SitePublish

namespace Session

inductive Call where
  | deploy (document : Document) (options : DeployOptions) (listing : Listing)
  | republish (target : Target) (asked : Option String)
  | bootstrap (document : Document) (domain : Option String) (overrides : SeoOverrides)
      (listing : Listing)
  | failWrite (error : RemoteError)
  | failHost (error : HostingError)
  /-- Somebody changes the files of the working directory, where the lock files are. -/
  | rearrange (files : FileTree)

section Runs

variable {τ : Type}

def after (d : Deployer (World τ)) (w : World τ) : Call → World τ
  | .deploy document options listing => (d.execute document options listing.candidates w).state
  | .republish target asked => (d.republish target asked w).state
  | .bootstrap document domain overrides listing =>
    (d.bootstrap document domain overrides listing.candidates w).state
  | .failWrite e => { w with remote := { w.remote with failNextWrite := some e } }
  | .failHost e => { w with host := { w.host with failNext := some e } }
  | .rearrange files => { w with files := files }

def run (d : Deployer (World τ)) : List Call → World τ → World τ
  | [], w => w
  | call :: calls, w => run d calls (after d w call)

end Runs

/-- A call that is a real deployment for this target to this branch, and has the file among those
that ship. -/
inductive Ships (pipeline : Pipeline) (settings : DeploySettings) (target : Target)
    (branch : String) (e : SitePath × List UInt8) : Call → Prop
  | deploy {document : Document} {options : DeployOptions} {listing : Listing}
      {prepared : Prepared} {c : Candidate}
      (for_target : options.target = target)
      (to_branch : settings.resolveBranch options.target options.branch = branch)
      (own : settings.checkOwnership target branch = .ok ())
      (real : options.dryRun = false)
      (prepare : (pipeline.prepare target document options.overrides listing.candidates).1 =
        .ok prepared)
      (retained : c ∈ prepared.retained) (path : c.path = e.1) (bytes : c.content.bytes = e.2) :
      Ships pipeline settings target branch e (.deploy document options listing)

section Shipping

variable {pipeline : Pipeline} {settings : DeploySettings} {branch : String}
  {e : SitePath × List UInt8} {call : Call}

theorem Ships.includes (h : Ships pipeline settings .production branch e call) :
    pipeline.filter.Includes e.1 e.2 := by
  cases h with
  | deploy for_target to_branch own real prepare retained path bytes =>
    rw [← path, ← bytes]
    exact Pipeline.includes_of_mem_production prepare (fun _ hl => Listing.faithful_candidates hl)
      retained

theorem not_ships_preview_production :
    ¬ Ships pipeline settings .preview settings.productionBranch e call := by
  intro h
  cases h with
  | deploy for_target to_branch own real prepare retained path bytes =>
    rw [DeploySettings.checkOwnership, if_pos ⟨rfl, rfl⟩] at own
    cases own

end Shipping

variable {τ : Type} {d : Deployer (World τ)} (hv : d.services.InMemory World.remote)
include hv

theorem mem_files_after {w : World τ} {call : Call} {branch : String} {e : SitePath × List UInt8}
    (h : e ∈ (after d w call).remote.files branch) :
    e ∈ w.remote.files branch ∨ ∃ target, Ships d.pipeline d.settings target branch e call := by
  cases call with
  | deploy document options listing =>
    rcases (d.execute_ends document options listing.candidates w).remote hv
      with hr | ⟨prepared, own, prepare, real, hr⟩
    · rw [after, hr] at h
      exact Or.inl h
    · rw [after, hr] at h
      rcases MemoryRemote.mem_files_carry h with h | ⟨rfl, c, retained, path, bytes⟩
      · exact Or.inl h
      · exact Or.inr ⟨options.target, .deploy rfl rfl own real prepare retained path bytes⟩
  | republish target asked =>
    rw [after, Deployer.republish_remote hv] at h
    exact Or.inl h
  | bootstrap document domain overrides listing =>
    rw [after, Deployer.bootstrap_remote hv] at h
    exact Or.inl h
  | failWrite error => exact Or.inl h
  | failHost error => exact Or.inl h
  | rearrange files => exact Or.inl h

theorem mem_files_run {w : World τ} {calls : List Call} {branch : String}
    {e : SitePath × List UInt8} (h : e ∈ (run d calls w).remote.files branch) :
    e ∈ w.remote.files branch ∨
      ∃ call ∈ calls, ∃ target, Ships d.pipeline d.settings target branch e call := by
  induction calls generalizing w with
  | nil => exact Or.inl h
  | cons call calls ih =>
    rcases ih h with ha | ⟨c, hc, hs⟩
    · rcases mem_files_after hv ha with hw | hs
      · exact Or.inl hw
      · exact Or.inr ⟨call, List.mem_cons_self, hs⟩
    · exact Or.inr ⟨c, List.mem_cons_of_mem _ hc, hs⟩

end Session

end SitePublish
