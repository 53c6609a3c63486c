import SitePublish.Proofs.Command.Run
import SitePublish.Proofs.Deploy.Journal
import SitePublish.Proofs.FileTree.Write

/-!
# What happens at a workplace

A workplace can keep a journal of the commits that are made in it, which changes nothing else. The
services that settings describe leave every file alone that is not named like a lock file.
-/

set_option autoImplicit false

namespace SitePublish

def Worked.unobserved {τ : Type} (out : Worked (List Made × τ)) : Worked τ :=
  ⟨out.result, out.events, out.world.unobserved⟩

namespace Command

variable {τ : Type}

def Workplace.journaled (place : Workplace τ) : Workplace (List Made × τ) :=
  ⟨fun files reach => (place.deployer files reach).map fun d => d.onto d.services.journaled,
    place.project⟩

theorem Workplace.exists_of_journaled {place : Workplace τ} {files : FileTree} {reach : Reach}
    {observed : Deployer (World (List Made × τ))}
    (equip : place.journaled.deployer files reach = .ok observed) :
    ∃ d, place.deployer files reach = .ok d ∧ observed = d.onto d.services.journaled := by
  obtain ⟨d, hd, he⟩ := exists_of_map_eq_ok equip
  exact ⟨d, hd, he.symm⟩

theorem deployAndSave_unobserved (d : Deployer (World τ)) (document : Document)
    (options : DeployOptions) (project : Except ProjectError (List Candidate)) (path : String)
    (save : Bool) (w : World (List Made × τ)) :
    (deployAndSave (d.onto d.services.journaled) document options project path save w).unobserved =
      deployAndSave d document options project path save w.unobserved := by
  have observed : d.execute document options project w.unobserved =
      ((d.onto d.services.journaled).execute document options project w).mapState
        World.unobserved :=
    Deployer.execute_refines (d := d.onto d.services.journaled) d.services.journaled_refines
      document options project w
  unfold deployAndSave
  rw [observed]
  rcases (d.onto d.services.journaled).execute document options project w
    with ⟨e | r, events, left⟩
  · rfl
  · dsimp only [Outcome.mapState]
    split
    · rw [show left.unobserved.files = left.files from rfl]
      split <;> rfl
    · rfl

theorem deployDocument_unobserved (place : Workplace τ) (input : DocumentInput)
    (options : SeoOverrides → DeployOptions) (save : Bool) (w : World (List Made × τ)) :
    (deployDocument place.journaled input options save w).unobserved =
      deployDocument place input options save w.unobserved := by
  unfold deployDocument
  rw [show w.unobserved.files = w.files from rfl]
  split
  · rfl
  · dsimp only [Workplace.journaled]
    rcases place.deployer w.files _ with e | d
    · rfl
    · exact deployAndSave_unobserved d _ _ _ _ save w

end Command

namespace World

variable {τ : Type} {P : FileTree → Prop}

theorem lock_preserves {dir : Option String}
    (create : ∀ d ∈ dir, ∀ branch t, P t → P (LockFile.create t d branch).2) (branch : String)
    (w : World τ) (holds : P w.files) : P (lock dir branch w).2.files := by
  unfold lock
  cases dir with
  | none => exact holds
  | some d =>
    have made := create d rfl branch w.files holds
    dsimp only
    cases hc : LockFile.create w.files d branch with
    | mk result files =>
      rw [hc] at made
      cases result <;> exact made

theorem offline_preserves {dir : Option String}
    (create : ∀ d ∈ dir, ∀ branch t, P t → P (LockFile.create t d branch).2) :
    (offline dir : Services (World τ)).Preserves fun w => P w.files where
  snapshot _ _ h := h
  write _ _ _ _ _ h := h
  publish _ _ h := h
  lock := lock_preserves create
  unlock _ _ h := h

theorem files_through {ε α : Type} (call : Http.Call τ ε α) (w : World τ) :
    (through call w).2.files = w.files := rfl

theorem withHost_preserves {v : Services (World τ)} (h : v.Preserves fun w => P w.files)
    (host : Vercel) (exchange : Http.Exchange τ) :
    (withHost v host exchange).Preserves fun w => P w.files :=
  { h with
    publish := fun request w holds => by
      dsimp only [withHost]
      rwa [files_through] }

theorem withRemote_preserves {v : Services (World τ)} (h : v.Preserves fun w => P w.files)
    (g : GitHub) (exchange : Http.Exchange τ) :
    (withRemote v g exchange).Preserves fun w => P w.files :=
  { h with
    snapshot := fun branch w holds => by
      dsimp only [withRemote]
      rwa [files_through]
    write := fun branch expected files message w holds => by
      dsimp only [withRemote]
      rwa [files_through] }

end World

namespace Config

variable {τ : Type} {path : String}

/-- The lock files have other names than this file, if there are any. -/
def LocksApart (c : Config) (path : String) : Prop :=
  c.lockDir = none ∨ ∀ branch, FileTree.lastName path ≠ some (LockFile.name branch)

theorem services_preserves {c : Config} (apart : c.LocksApart path) (k : Credentials)
    (repo : RepoRef) (base : Option String) (exchange : Http.Exchange τ) (bytes : List UInt8) :
    (c.services k repo base exchange).Preserves fun w => w.files.readBytes path = .ok bytes := by
  have create (d : String) (hd : d ∈ c.lockDir.map (resolve base)) (branch : String)
      (t : FileTree) (read : t.readBytes path = .ok bytes) :
      (LockFile.create t d branch).2.readBytes path = .ok bytes := by
    rcases apart with unset | ne
    · rw [unset] at hd
      cases hd
    · exact LockFile.readBytes_create d branch (ne branch) read
  let P (t : FileTree) : Prop := t.readBytes path = .ok bytes
  have offline : (World.offline (c.lockDir.map (resolve base)) : Services (World τ)).Preserves
      fun w => P w.files := World.offline_preserves create
  unfold services
  dsimp only
  split
  · split
    · exact World.withRemote_preserves (World.withHost_preserves offline _ exchange) _ exchange
    · exact World.withRemote_preserves offline _ exchange
  · split
    · exact World.withHost_preserves offline _ exchange
    · exact offline

end Config

namespace Command

variable {τ : Type} {path : String}

def Workplace.Spares (place : Workplace τ) (path : String) : Prop :=
  ∀ files reach d, place.deployer files reach = .ok d →
    ∀ bytes, d.services.Preserves fun w => w.files.readBytes path = .ok bytes

theorem workplace_spares (s : Surroundings τ) {c : Config} (base : Option String)
    (apart : c.LocksApart path) : (workplace s c base).Spares path := by
  intro files reach d equip bytes
  obtain ⟨pipeline, -, equip⟩ := exists_of_bind_eq_ok equip
  obtain ⟨k, -, equip⟩ := exists_of_bind_eq_ok equip
  obtain ⟨settings, -, equip⟩ := exists_of_bind_eq_ok equip
  cases equip
  exact Config.services_preserves apart k settings.repo base s.exchange bytes

end Command

end SitePublish
