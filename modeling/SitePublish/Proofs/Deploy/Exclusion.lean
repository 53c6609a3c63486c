import SitePublish.Proofs.Deploy.Refinement
import SitePublish.Proofs.Deploy.Rehearsal
import SitePublish.Proofs.Deploy.Session

/-!
# Where excluded files can get

What the filter excludes never gets to the production branch. Any other branch may be asked for by
name for both targets: files that a preview left there stay when they are not owned, and publishing
that branch as production publishes them too. They are the only excluded files that are ever
published.
-/

set_option autoImplicit false

namespace SitePublish

/-- What the host was asked for, with the remote as it was then. -/
structure Ask where
  request : DeploymentRequest
  remote : MemoryRemote

/-- Services that take down in their state what the host is asked for. -/
structure Services.Noting {σ : Type} (v : Services σ) (view : σ → MemoryRemote)
    (noted : σ → List Ask) : Prop where
  snapshot : ∀ branch s, noted (v.snapshot branch s).2 = noted s
  write : ∀ branch expected files message s,
    noted (v.write branch expected files message s).2 = noted s
  publish : ∀ request s, noted (v.publish request s).2 = noted s ++ [⟨request, view s⟩]
  provision : ∀ repo domain s, noted (v.provision repo domain s).2 = noted s
  lock : ∀ branch s, noted (v.lock branch s).2 = noted s
  unlock : ∀ branch s, noted (v.unlock branch s) = noted s

namespace World

def watched (lockDir : Option String) : Services (World (List Ask)) :=
  { offline lockDir with
    publish := fun request w =>
      let (result, after) := (offline lockDir).publish request w
      (result, { after with connection := w.connection ++ [⟨request, w.remote⟩] }) }

theorem watched_inMemory (lockDir : Option String) :
    (watched lockDir).InMemory World.remote where
  snapshot _ _ := rfl
  write _ _ _ _ _ := rfl
  publish _ _ := rfl
  provision _ _ _ := rfl
  lock := lock_keeps World.remote (fun _ _ _ => rfl) lockDir
  unlock _ _ := rfl

theorem watched_hostInMemory (lockDir : Option String) :
    (watched lockDir).HostInMemory World.host where
  snapshot _ _ := rfl
  write _ _ _ _ _ := rfl
  publish _ _ := rfl
  provision _ _ _ := rfl
  lock := lock_keeps World.host (fun _ _ _ => rfl) lockDir
  unlock _ _ := rfl

theorem watched_noting (lockDir : Option String) :
    (watched lockDir).Noting World.remote World.connection where
  snapshot _ _ := rfl
  write _ _ _ _ _ := rfl
  publish _ _ := rfl
  provision _ _ _ := rfl
  lock := lock_keeps World.connection (fun _ _ _ => rfl) lockDir
  unlock _ _ := rfl

def unwatched (w : World (List Ask)) : World Unit :=
  ⟨w.remote, w.host, w.locks, w.files, ()⟩

theorem watched_refines (lockDir : Option String) :
    (watched lockDir).Refines (offline lockDir) unwatched where
  snapshot _ _ := rfl
  write _ _ _ _ _ := rfl
  publish _ _ := rfl
  provision _ _ _ := rfl
  lock branch w := by
    change ((lock lockDir branch w).1, unwatched (lock lockDir branch w).2) =
      lock lockDir branch (unwatched w)
    unfold lock
    cases lockDir with
    | none => rfl
    | some dir =>
      simp only [unwatched]
      rcases LockFile.create w.files dir branch with ⟨e | _, files⟩ <;> rfl
  unlock _ _ := rfl

end World

namespace Deployer

variable {σ : Type} {d : Deployer σ} {view : σ → MemoryRemote} {noted : σ → List Ask}

/-- From one state to the next the host was asked at most once, about the remote of the second. -/
def AskedOnce (view : σ → MemoryRemote) (noted : σ → List Ask) (target : Target) (branch : String)
    (s t : σ) : Prop :=
  noted t = noted s ∨
    ∃ project repo head, noted t = noted s ++ [⟨⟨project, repo, branch, head, target⟩, view t⟩]

section Noting

variable (hv : d.services.InMemory view) (hn : d.services.Noting view noted)
include hv hn

theorem PublishEnds.asked {target : Target} {branch : String} {head : Option String} {s : σ}
    {out : Except DeployFailure Deployment × List DeployEvent × σ}
    (h : PublishEnds d target branch head s out) :
    AskedOnce view noted target branch s out.2.2 := by
  rcases h.state_eq with he | ⟨home, -, he⟩
  · exact Or.inl (congrArg noted he)
  · exact Or.inr ⟨home, d.settings.repo, head, by rw [he, hn.publish, hv.publish]⟩

theorem ShipEnds.asked {document : Document} {options : DeployOptions} {branch : String}
    {prepared : Prepared} {s : σ} {out : Except Fault (Committed × Deployment) × List DeployEvent × σ}
    (h : ShipEnds d document options branch prepared s out) :
    AskedOnce view noted options.target branch s out.2.2 := by
  have hs := hn.snapshot branch s
  cases h with
  | unread read =>
    rw [read] at hs
    exact Or.inl hs
  | uncommitted read planned commit =>
    rw [read] at hs
    exact Or.inl ((commit.keeps noted hn.write).trans hs)
  | unpublished read planned commit publish =>
    rw [read] at hs
    have hp := publish.asked hv hn
    rwa [AskedOnce, (commit.keeps noted hn.write).trans hs] at hp
  | done read planned commit publish =>
    rw [read] at hs
    have hp := publish.asked hv hn
    rwa [AskedOnce, (commit.keeps noted hn.write).trans hs] at hp

theorem AskedOnce.locked {target : Target} {branch : String} {s t u : σ}
    {result : Except LockError Unit} (lock : d.services.lock branch s = (result, t))
    (h : AskedOnce view noted target branch t u) :
    AskedOnce view noted target branch s (d.services.unlock branch u) := by
  have hl := hn.lock branch s
  rw [lock] at hl
  rwa [AskedOnce, hn.unlock, hv.unlock, ← hl]

theorem ExecuteEnds.asked {document : Document} {options : DeployOptions}
    {project : Except ProjectError (List Candidate)} {branch : String} {s : σ}
    {out : Outcome σ DeployResult} (h : ExecuteEnds d document options project branch s out) :
    AskedOnce view noted options.target branch s out.state := by
  have locked : ∀ {prepared out}, LockedEnds d document options branch prepared s out →
      AskedOnce view noted options.target branch s out.2.2 := by
    intro prepared out ship
    cases ship with
    | barred lock =>
      have hl := hn.lock branch s
      rw [lock] at hl
      exact Or.inl hl
    | shipped lock ship => exact (ship.asked hv hn).locked hv hn lock
  cases h with
  | disowned own => exact Or.inl rfl
  | unprepared own prepare => exact Or.inl rfl
  | rehearsed own prepare dry => exact Or.inl rfl
  | failed own prepare real ship => exact locked ship
  | done own prepare real ship => exact locked ship

theorem RepublishEnds.asked {target : Target} {branch : String} {s : σ}
    {out : Outcome σ RepublishResult} (h : RepublishEnds d target branch s out) :
    AskedOnce view noted target branch s out.state := by
  cases h with
  | disowned own => exact Or.inl rfl
  | barred own lock =>
    have hl := hn.lock branch s
    rw [lock] at hl
    exact Or.inl hl
  | unpublished own lock publish => exact (publish.asked hv hn).locked hv hn lock
  | done own lock publish => exact (publish.asked hv hn).locked hv hn lock

end Noting

end Deployer

namespace Session

/-- Every file of a branch is one that the filter includes. -/
def Clean (f : ProductionFilter) (r : MemoryRemote) (branch : String) : Prop :=
  ∀ e ∈ r.files branch, f.Includes e.1 e.2

/-- A file that the filter excludes and that a preview brought to the branch. -/
structure Leftover (pipeline : Pipeline) (settings : DeploySettings) (calls : List Call)
    (r : MemoryRemote) (branch : String) (e : SitePath × List UInt8) : Prop where
  present : e ∈ r.files branch
  excluded : ¬ pipeline.filter.Includes e.1 e.2
  previewed : ∃ call ∈ calls, Ships pipeline settings .preview branch e call

section Runs

variable {τ : Type} {d : Deployer (World τ)} (hv : d.services.InMemory World.remote)
  {calls : List Call} {w : World τ}
include hv

/-- What is on a branch and was not there at first is included, or else a preview brought it. -/
theorem includes_or_previewed (hw : w.remote = .empty) {branch : String}
    {e : SitePath × List UInt8} (h : e ∈ (run d calls w).remote.files branch) :
    d.pipeline.filter.Includes e.1 e.2 ∨
      ∃ call ∈ calls, Ships d.pipeline d.settings .preview branch e call := by
  rcases mem_files_run hv h with hw' | ⟨call, hc, target, hs⟩
  · rw [hw] at hw'
    cases hw'
  · cases target with
    | preview => exact Or.inr ⟨call, hc, hs⟩
    | production => exact Or.inl hs.includes

theorem clean_production_run (hw : w.remote = .empty) :
    Clean d.pipeline.filter (run d calls w).remote d.settings.productionBranch := by
  intro e he
  rcases includes_or_previewed hv hw he with h | ⟨call, -, hs⟩
  · exact h
  · exact absurd hs not_ships_preview_production

theorem clean_run_iff (hw : w.remote = .empty) (branch : String) :
    Clean d.pipeline.filter (run d calls w).remote branch ↔
      ¬ ∃ e, Leftover d.pipeline d.settings calls (run d calls w).remote branch e := by
  constructor
  · rintro h ⟨e, hl⟩
    exact hl.excluded (h e hl.present)
  · intro h e he
    by_contra hx
    have hp := (includes_or_previewed hv hw he).resolve_left hx
    exact h ⟨e, he, hx, hp⟩

end Runs

section Asks

variable {d : Deployer (World (List Ask))} (hv : d.services.InMemory World.remote)
  (hn : d.services.Noting World.remote World.connection)
include hv hn

theorem asked_after (w : World (List Ask)) (call : Call) :
    (after d w call).connection = w.connection ∨
      ∃ request, (after d w call).connection = w.connection ++ [⟨request, (after d w call).remote⟩] := by
  cases call with
  | deploy document options listing =>
    exact ((d.execute_ends document options listing.candidates w).asked hv hn).imp_right
      fun ⟨_, _, _, h⟩ => ⟨_, h⟩
  | republish target asked =>
    exact ((d.republish_ends target asked w).asked hv hn).imp_right fun ⟨_, _, _, h⟩ => ⟨_, h⟩
  | bootstrap document domain overrides listing =>
    exact Or.inl ((d.bootstrap_ends document domain overrides listing.candidates w).keeps
      World.connection hn.provision)
  | failWrite error => exact Or.inl rfl
  | failHost error => exact Or.inl rfl
  | rearrange files => exact Or.inl rfl

theorem mem_asked_run {calls : List Call} {w : World (List Ask)} {ask : Ask}
    (h : ask ∈ (run d calls w).connection) :
    ask ∈ w.connection ∨ ∃ earlier, earlier <+: calls ∧ ask.remote = (run d earlier w).remote := by
  induction calls generalizing w with
  | nil => exact Or.inl h
  | cons call calls ih =>
    rcases ih h with ha | ⟨earlier, hp, hr⟩
    · rcases asked_after hv hn w call with he | ⟨request, he⟩
      · rw [he] at ha
        exact Or.inl ha
      · rw [he] at ha
        rcases List.mem_append.mp ha with hw | hl
        · exact Or.inl hw
        · rw [List.mem_singleton.mp hl]
          exact Or.inr ⟨[call], ⟨calls, rfl⟩, rfl⟩
    · exact Or.inr ⟨call :: earlier, List.cons_prefix_cons.mpr ⟨rfl, hp⟩, hr⟩

end Asks

theorem run_unwatched (pipeline : Pipeline) (settings : DeploySettings) (lockDir : Option String)
    (calls : List Call) (w : World (List Ask)) :
    (run ⟨pipeline, settings, World.watched lockDir⟩ calls w).unwatched =
      run ⟨pipeline, settings, World.offline lockDir⟩ calls w.unwatched := by
  let d : Deployer (World (List Ask)) := ⟨pipeline, settings, World.watched lockDir⟩
  have hr : d.services.Refines (World.offline lockDir) World.unwatched :=
    World.watched_refines lockDir
  have step : ∀ (w : World (List Ask)) (call : Call),
      (after d w call).unwatched = after (d.onto (World.offline lockDir)) w.unwatched call := by
    intro w call
    cases call with
    | deploy document options listing =>
      exact (congrArg Outcome.state
        (Deployer.execute_refines hr document options listing.candidates w)).symm
    | republish target asked =>
      exact (congrArg Outcome.state (Deployer.republish_refines hr target asked w)).symm
    | bootstrap document domain overrides listing =>
      exact (congrArg Outcome.state
        (Deployer.bootstrap_refines hr document domain overrides listing.candidates w)).symm
    | failWrite error => rfl
    | failHost error => rfl
    | rearrange files => rfl
  induction calls generalizing w with
  | nil => rfl
  | cons call calls ih =>
    rw [run, ih, run]
    exact congrArg _ (step w call)

/-- Whatever is deployed, published and bootstrapped, to which branches and in which order, and
whatever fails meanwhile. -/
theorem production_branch_clean {τ : Type} (pipeline : Pipeline) (settings : DeploySettings)
    (lockDir : Option String) (calls : List Call) {w : World τ} (hw : w.remote = .empty) :
    Clean pipeline.filter (run ⟨pipeline, settings, World.offline lockDir⟩ calls w).remote
      settings.productionBranch :=
  clean_production_run (World.offline_inMemory lockDir) hw

section Bakery

open Bakery

def deployGuide (target : Target) (branch : String) : Call :=
  .deploy blank (options target branch) (.ok [guide])

def bakeryCalls : List Call :=
  [deployGuide .preview "staging", .failHost (.transport "reset"), deployGuide .production "main"]

theorem head_bakeryCalls :
    (run deployer bakeryCalls (workshop ())).remote.head? "main" =
      some (MemoryRemote.commitId 2) := by
  have rehearsed : deployer.rehearsal blank (options .production "main") (.ok [guide.candidate]) =
      .ok (.ofBatch .production guideBatch) :=
    rehearsal_blank rfl rfl rfl (batch_guide (by decide)) rfl
  have listed : Listing.candidates (.ok [guide]) = .ok [guide.candidate] := rfl
  have last (w : World Unit) : after deployer w (deployGuide .production "main") =
      (deployer.shipLocked blank (options .production "main") "main"
        (.ofBatch .production guideBatch) w).2.2 := by
    rw [deployGuide, after, listed, (Deployer.execute_of_rehearsal_real rehearsed rfl).1]
    rfl
  rw [bakeryCalls, run, run, run, run, last]
  decide

theorem production_branch_clean_bakery :
    (workshop () : World Unit).remote = .empty ∧
      (run deployer bakeryCalls (workshop ())).remote.head? "main" =
        some (MemoryRemote.commitId 2) ∧
      Clean ProductionFilter.plain (run deployer bakeryCalls (workshop ())).remote "main" :=
  ⟨rfl, head_bakeryCalls, production_branch_clean pipeline settings none bakeryCalls rfl⟩

end Bakery

/-- When the host is asked for a production deployment, the branch is clean just when no preview
of the calls so far left a file there that the filter excludes; the production branch always is. -/
theorem clean_ask_iff (pipeline : Pipeline) (settings : DeploySettings) (lockDir : Option String)
    (calls : List Call) {w : World (List Ask)} (hw : w.remote = .empty) (hn : w.connection = []) :
    ∀ ask ∈ (run ⟨pipeline, settings, World.watched lockDir⟩ calls w).connection,
      ask.request.target = .production →
      (ask.request.branch = settings.productionBranch →
        Clean pipeline.filter ask.remote ask.request.branch) ∧
      ∃ earlier, earlier <+: calls ∧
        ask.remote =
          (run ⟨pipeline, settings, World.offline lockDir⟩ earlier w.unwatched).remote ∧
        (Clean pipeline.filter ask.remote ask.request.branch ↔
          ¬ ∃ e, Leftover pipeline settings earlier ask.remote ask.request.branch e) := by
  intro ask ha _
  let d : Deployer (World Unit) := ⟨pipeline, settings, World.offline lockDir⟩
  have hd : d.services.InMemory World.remote := World.offline_inMemory lockDir
  have hu : w.unwatched.remote = .empty := hw
  have hv := World.watched_inMemory lockDir
  rcases mem_asked_run hv (World.watched_noting lockDir) ha with hold | ⟨earlier, hp, hr⟩
  · rw [hn] at hold
    cases hold
  · have hplain : (run ⟨pipeline, settings, World.watched lockDir⟩ earlier w).remote =
        (run ⟨pipeline, settings, World.offline lockDir⟩ earlier w.unwatched).remote :=
      congrArg World.remote (run_unwatched pipeline settings lockDir earlier w)
    rw [hr, hplain]
    refine ⟨fun hb => ?_, earlier, hp, rfl, clean_run_iff hd hu ask.request.branch⟩
    rw [hb]
    exact clean_production_run hd hu

section Leak

open Bakery

def watcher : Deployer (World (List Ask)) := ⟨pipeline, settings, World.watched none⟩

def leakCalls : List Call :=
  [deployGuide .preview "staging", .republish .production (some "staging")]

def leak : Ask :=
  ⟨⟨"bakery", ⟨"acme", "bakery"⟩, "staging", none, .production⟩,
    (run watcher [deployGuide .preview "staging"] (workshop [])).remote⟩

theorem leak_asked : leak ∈ (run watcher leakCalls (workshop [])).connection :=
  List.mem_cons_of_mem _ List.mem_cons_self

theorem guide_excluded : ¬ ProductionFilter.plain.Includes guidePath guide.bytes := by
  rw [ProductionFilter.Includes, Bool.not_eq_true]
  rfl

theorem guide_staged : (guidePath, guide.bytes) ∈ leak.remote.files "staging" := by
  obtain ⟨prepared, c, deployment, home, prepare, -, -, landing, -⟩ :=
    (watcher.execute_ends blank (options .preview "staging") (.ok [guide.candidate])
      (workshop [])).landing_of_ok (World.watched_inMemory none) (World.watched_hostInMemory none)
      MemoryRemote.empty_sound rfl rfl
  obtain ⟨generated, files, hg, hf, rfl⟩ := Pipeline.prepare_eq_ok prepare
  cases hf
  have hm : guide.candidate ∈ Pipeline.merged [guide.candidate] generated := by
    cases hg
    exact List.mem_cons_self
  have hr := (Pipeline.retained_preview pipeline _ _).mem_iff.mpr hm
  exact landing.mem_of_new rfl hr

/-- A file that the filter excludes is at the head of a branch that is published as production. -/
theorem excluded_file_published :
    ∃ ask ∈ (run watcher leakCalls (workshop [])).connection,
      ask.request.target = .production ∧
        ∃ e ∈ ask.remote.files ask.request.branch, ¬ ProductionFilter.plain.Includes e.1 e.2 :=
  ⟨leak, leak_asked, rfl, (guidePath, guide.bytes), guide_staged, guide_excluded⟩

/-- What makes that branch unclean is left there by a preview. -/
theorem leftover_published :
    ∃ earlier, earlier <+: leakCalls ∧
      ∃ e, Leftover pipeline settings earlier leak.remote leak.request.branch e := by
  obtain ⟨-, earlier, hp, -, hc⟩ :=
    clean_ask_iff pipeline settings none leakCalls (w := workshop []) rfl rfl leak leak_asked rfl
  refine ⟨earlier, hp, ?_⟩
  by_contra hl
  exact guide_excluded (hc.mpr hl (guidePath, guide.bytes) guide_staged)

end Leak

end Session

end SitePublish
