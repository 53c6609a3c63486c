import SitePublish.Proofs.Deploy.Rehearsal

/-!
# Deploying again

A deployment that got as far as publishing leaves nothing to do for the branch. As long as nobody
else writes to the branch this stays so, whatever becomes of the other branches, the host and the
files of the working directory: to deploy the same pages again commits nothing and publishes the
head that is there. It is all one whether the first deployment succeeded or was refused by the host.
-/

set_option autoImplicit false

namespace SitePublish

namespace MemoryRemote

def Call.WritesTo (branch : String) : Call → Prop
  | .seed other _ | .write other _ _ _ => other = branch
  | .snapshot _ | .list _ _ | .failWrite _ | .failList _ => False

theorem branch?_after (r : MemoryRemote) {branch : String} {call : Call}
    (elsewhere : ¬ call.WritesTo branch) : (r.after call).branch? branch = r.branch? branch := by
  cases call with
  | seed other message => exact branch?_commit_of_ne r message [] (Ne.symm elsewhere)
  | snapshot other => rfl
  | list other count =>
    simp only [after, listCommits]
    split
    · rfl
    · split <;> rfl
  | write other expected ws message =>
    rcases r.write_cases other expected ws message with ⟨e, -, he⟩ | ⟨-, -, he⟩ | ⟨-, -, he⟩
    · rw [after, he]
      rfl
    · rw [after, he]
      exact branch?_commit_of_ne r message ws (Ne.symm elsewhere)
    · rw [after, he]
  | failWrite e => rfl
  | failList e => rfl

theorem Landing.isNoop_again {r later : MemoryRemote} {branch message : String}
    {files : List Candidate} {owned : SitePath → Bool} {c : Committed}
    (h : Landing r later branch message files owned c) :
    (CommitPlan.ofSnapshot files (later.snapshot branch) owned).isNoop = true := by
  have sound := h.lands.sound h.sound
  have blobs : CommitPlan.blobsOf (later.snapshot branch) = later.blobs branch :=
    sound.snapshot_blobs branch
  rw [CommitPlan.isNoop_ofSnapshot]
  refine ⟨?_, ?_, ?_⟩
  · obtain ⟨head, -, hh⟩ := h.exists_head
    rw [← later.snapshot_base branch] at hh
    cases hs : later.snapshot branch with
    | none =>
      rw [hs] at hh
      cases hh
    | some snapshot => rfl
  · rw [List.filter_eq_nil_iff]
    intro f hf
    simp [Candidate.differs, blobs, h.blob_claimed hf]
  · rw [List.eq_nil_iff_forall_not_mem]
    intro p hp
    obtain ⟨hk, unclaimed, ho⟩ := CommitPlan.mem_deletions.mp hp
    rw [blobs, sound.blobs_eq, Dict.keys_mapValues, h.mem_keys_owned ho, List.mem_map] at hk
    obtain ⟨f, hf, rfl⟩ := hk
    exact unclaimed f hf rfl

end MemoryRemote

namespace Generator

variable (g : Generator) (pages : List (String × Page)) (n m : Nat) (overrides : SeoOverrides)

theorem pagesFrom_version (routes : List (String × Route)) :
    g.pagesFrom ⟨pages, n⟩ overrides routes = g.pagesFrom ⟨pages, m⟩ overrides routes := by
  induction routes with
  | nil => rfl
  | cons entry rest ih =>
    obtain ⟨key, route⟩ := entry
    rw [pagesFrom, pagesFrom, ih]

theorem generate_version :
    g.generate ⟨pages, n⟩ overrides = g.generate ⟨pages, m⟩ overrides := by
  rw [generate, generate, funext (pagesFrom_version g pages n m overrides)]
  rfl

end Generator

namespace Deployer

variable {σ : Type}

/-- Nothing is left to do on a branch for these files. -/
structure Settled (d : Deployer σ) (prepared : Prepared) (branch : String) (r : MemoryRemote) :
    Prop where
  sound : r.Sound
  idle : (d.planFor prepared (r.snapshot branch)).isNoop = true

/-- Another real deployment of the same pages to the same branch. -/
structure Repeats (d : Deployer σ) (document : Document) (options : DeployOptions)
    (document' : Document) (options' : DeployOptions) : Prop where
  pages : document'.pages = document.pages
  target : options'.target = options.target
  branch : d.branchFor options' = d.branchFor options
  overrides : options'.overrides = options.overrides
  real : options'.dryRun = false

section Settled

variable {d : Deployer σ} {prepared : Prepared} {branch : String} {r : MemoryRemote}

theorem Settled.of_branch {later : MemoryRemote} (h : d.Settled prepared branch r)
    (sound : later.Sound) (same : later.branch? branch = r.branch? branch) :
    d.Settled prepared branch later where
  sound := sound
  idle := by
    rw [MemoryRemote.snapshot, same]
    exact h.idle

variable {view : σ → MemoryRemote} {host : σ → MemoryHost} {document document' : Document}
  {options options' : DeployOptions} {project : Except ProjectError (List Candidate)} {s : σ}

theorem Repeats.rehearsal_eq (h : d.Repeats document options document' options')
    (project : Except ProjectError (List Candidate)) :
    d.rehearsal document' options' project = d.rehearsal document options project := by
  have files : d.pipeline.generator.generate document' options.overrides =
      d.pipeline.generator.generate document options.overrides := by
    obtain ⟨pages, version⟩ := document
    obtain ⟨pages', version'⟩ := document'
    cases h.pages
    exact Generator.generate_version _ _ _ _ _
  rw [rehearsal, h.branch, h.target, h.overrides, Pipeline.prepare, files]
  rfl

variable (hv : d.services.InMemory view)
include hv

theorem ShipEnds.landing {events : List DeployEvent} {t : σ}
    {result : Except Fault (Committed × Deployment)}
    (h : ShipEnds d document options branch prepared s (result, events, t))
    (sound : (view s).Sound) (distinct : (prepared.retained.map Candidate.path).Nodup)
    (past : ∀ fault, result = .error fault → fault.phase = .publishing) :
    ∃ c, MemoryRemote.Landing (view s) (view t) branch (commitMessage document options c.plan)
      prepared.retained d.pipeline.generator.layout.owns c := by
  cases h with
  | unread read => cases past _ rfl
  | uncommitted read planned commit => cases past _ rfl
  | @unpublished _ _ c _ _ _ _ _ _ read planned commit publish =>
    rw [hv.snapshot] at read
    cases read
    obtain ⟨rfl, lands⟩ := commit.lands hv
    rw [← publish.remote hv] at lands
    exact ⟨c, sound, distinct, planned, lands⟩
  | @done _ _ c _ _ _ _ _ _ read planned commit publish =>
    rw [hv.snapshot] at read
    cases read
    obtain ⟨rfl, lands⟩ := commit.lands hv
    rw [← publish.remote hv] at lands
    exact ⟨c, sound, distinct, planned, lands⟩

theorem settled_of_past (real : options.dryRun = false) (sound : (view s).Sound)
    (past : ∀ e, (d.execute document options project s).result = .error e → e.phase = .publishing) :
    ∃ prepared, d.rehearsal document options project = .ok prepared ∧
      d.Settled prepared (d.branchFor options)
        (view (d.execute document options project s).state) := by
  rcases h : d.rehearsal document options project with ⟨phase, e⟩ | prepared
  · -- What a rehearsal finds fails before anything is committed.
    have early := phase_of_rehearsal_error h
    have late := past _ (execute_of_rehearsal_error h).1
    dsimp only at late
    rw [late] at early
    rcases early with hp | hp <;> cases hp
  · refine ⟨prepared, rfl, ?_⟩
    obtain ⟨state_eq, result_eq⟩ := execute_of_rehearsal_real (s := s) h real
    obtain ⟨-, _, prepare⟩ := rehearsal_eq_ok.mp h
    have distinct := Pipeline.prepared_paths_nodup (congrArg Prod.fst prepare)
    have ends := d.shipLocked_ends document options (d.branchFor options) prepared s
    rw [state_eq]
    rcases hs : d.shipLocked document options (d.branchFor options) prepared s
      with ⟨result, events, t⟩
    rw [hs] at ends result_eq
    have late : ∀ fault, result = .error fault → fault.phase = .publishing := by
      rintro fault rfl
      exact past _ result_eq
    cases ends with
    | barred lock => cases late _ rfl
    | shipped lock ship =>
      rw [← hv.of_lock lock] at sound
      obtain ⟨c, landing⟩ := ship.landing hv sound distinct late
      dsimp only
      rw [hv.unlock]
      exact ⟨landing.lands.sound landing.sound, landing.isNoop_again⟩

/-- On a branch that is settled a deployment commits nothing, however it ends. -/
theorem Settled.remote_eq (h : d.Settled prepared (d.branchFor options) (view s))
    (rehearse : d.rehearsal document options project = .ok prepared) :
    view (d.execute document options project s).state = view s := by
  rcases (d.execute_ends document options project s).remote hv
    with same | ⟨prepared', -, prepare, -, carried⟩
  · exact same
  · obtain ⟨-, events, prepare'⟩ := rehearsal_eq_ok.mp rehearse
    rw [prepare'] at prepare
    cases prepare
    rw [carried, Deployer.carried]
    exact if_pos h.idle

variable (hh : d.services.HostInMemory host)
include hh

theorem Settled.result_of_ok {result : DeployResult}
    (h : d.Settled prepared (d.branchFor options) (view s))
    (rehearse : d.rehearsal document options project = .ok prepared)
    (real : options.dryRun = false)
    (ok : (d.execute document options project s).result = .ok result) :
    ∃ deployment home head, d.settings.hostingProject = some home ∧
      (view s).head? (d.branchFor options) = some head ∧
      (host (d.execute document options project s).state).deployments =
        (host s).deployments ++ [⟨home, d.branchFor options, some head⟩] ∧
      result = { DeployResult.ofPrepared options.target (d.branchFor options) document prepared with
        dryRun := false
        unchanged := prepared.retained.length
        noChanges := true
        deployment := some deployment } := by
  obtain ⟨prepared', c, deployment, home, prepare', home_eq, rfl, landing, asked⟩ :=
    (d.execute_ends document options project s).landing_of_ok hv hh h.sound real ok
  obtain ⟨-, events, prepare⟩ := rehearsal_eq_ok.mp rehearse
  rw [prepare] at prepare'
  cases prepare'
  have noop : c.plan.isNoop = true := by
    rw [landing.planned]
    exact h.idle
  obtain ⟨-, same, -⟩ := landing.noop_iff.mp noop
  obtain ⟨receipt, later⟩ := landing.same_of_noop noop
  obtain ⟨head, c_head, head_eq⟩ := landing.exists_head
  have skips : c.plan.skipCount = prepared.retained.length := by
    rw [landing.skipCount_eq, List.countP_eq_length]
    intro f hf
    simpa using List.filter_eq_nil_iff.mp same f hf
  refine ⟨deployment, home, head, home_eq, ?_, ?_, ?_⟩
  · rw [← later]
    exact head_eq
  · rw [asked, c_head]
    rfl
  · simp [resultOf, receipt, Committed.writes, skips, DeployResult.ofPrepared, branchFor]

theorem Settled.ok_of_flag {home : String}
    (h : d.Settled prepared (d.branchFor options) (view s))
    (rehearse : d.rehearsal document options project = .ok prepared)
    (real : options.dryRun = false) (home_eq : d.settings.hostingProject = some home)
    (free : (d.services.lock (d.branchFor options) s).1 = .ok ())
    (flag : (host s).failNext = none) :
    ∃ r, (d.execute document options project s).result = .ok r := by
  have ends := d.shipLocked_ends document options (d.branchFor options) prepared s
  rw [(execute_of_rehearsal_real rehearse real).2]
  generalize d.shipLocked document options (d.branchFor options) prepared s = out at ends ⊢
  obtain ⟨fault | ⟨committed, deployment⟩, events, t⟩ := out
  · cases ends with
    | barred lock =>
      rw [lock] at free
      cases free
    | shipped lock ship =>
      cases ship with
      | unread read =>
        rw [hv.snapshot] at read
        cases read
      | uncommitted read planned commit =>
        rw [hv.snapshot] at read
        cases read
        cases commit with
        | refused noop write =>
          rw [planned, hv.of_lock lock, h.idle] at noop
          cases noop
      | unpublished read planned commit publish =>
        rw [hv.snapshot] at read
        cases read
        have kept := commit.keeps host hh.write
        rw [← hh.of_lock lock, ← kept] at flag
        obtain ⟨deployment, ok⟩ := publish.ok_of_flag hh home_eq flag
        cases ok
  · exact ⟨_, rfl⟩

end Settled

section Interlude

variable {τ : Type}

/-- What can happen after a deployment to a branch, as long as nobody else writes to the branch. -/
inductive Interlude (d : Deployer (World τ)) (document : Document) (options : DeployOptions)
    (project : Except ProjectError (List Candidate)) : World τ → World τ → Prop
  | none {w : World τ} : Interlude d document options project w w
  | elsewhere {w v : World τ} (sofar : Interlude d document options project w v)
      (call : MemoryRemote.Call) (other : ¬ call.WritesTo (d.branchFor options)) :
      Interlude d document options project w { v with remote := v.remote.after call }
  /-- Publications, dry runs and bootstraps are of this kind. -/
  | around {w v u : World τ} (sofar : Interlude d document options project w v)
      (same : u.remote = v.remote) : Interlude d document options project w u
  | again {w v : World τ} {document' : Document} {options' : DeployOptions}
      (sofar : Interlude d document options project w v)
      (repeats : d.Repeats document options document' options') :
      Interlude d document options project w (d.execute document' options' project v).state

/-- How a deployment ends that had been made before, for the head that was left then. -/
structure Repeated (settings : DeploySettings) (document : Document) (branch : String)
    (head : String) (before after : World τ) (dry result : DeployResult) : Prop where
  noChanges : result.noChanges = true
  commit : result.commit = none
  written : result.written = []
  deleted : result.deleted = []
  unchanged : result.unchanged = result.files.length
  version : result.version = document.currentVersion
  files : result.files = dry.files
  excluded : result.excluded = dry.excluded
  fingerprint : result.fingerprint = dry.fingerprint
  asked : ∃ home, settings.hostingProject = some home ∧
    after.host.deployments = before.host.deployments ++ [⟨home, branch, some head⟩]

theorem Interlude.keeps {d : Deployer (World τ)} (hv : d.services.InMemory World.remote)
    {document : Document} {options : DeployOptions}
    {project : Except ProjectError (List Candidate)} {w v : World τ} {prepared : Prepared}
    (h : d.Interlude document options project w v)
    (rehearse : d.rehearsal document options project = .ok prepared)
    (settled : d.Settled prepared (d.branchFor options) w.remote) :
    d.Settled prepared (d.branchFor options) v.remote ∧
      v.remote.branch? (d.branchFor options) = w.remote.branch? (d.branchFor options) := by
  -- Nothing that can happen changes the branch, and only the branch decides what is left to do.
  induction h with
  | none => exact ⟨settled, rfl⟩
  | @elsewhere v _ call other ih =>
    obtain ⟨here, same⟩ := ih
    have kept := v.remote.branch?_after other
    exact ⟨here.of_branch (here.sound.after call) kept, kept.trans same⟩
  | around _ same ih => rwa [same]
  | @again v _ _ _ repeats ih =>
    have idle := Settled.remote_eq (s := v) hv (repeats.branch ▸ ih.1)
      ((repeats.rehearsal_eq project).trans rehearse)
    rwa [idle]

/-- From every state that the remote can get into. Whatever the second deployment says of its
version and in its message, and however it ends, it commits nothing. If it succeeds, it reports that
nothing changed, and all else as a dry run does; and the host is asked for the head that the first
deployment left. -/
theorem repetition_idle (pipeline : Pipeline) (settings : DeploySettings)
    (lockDir : Option String) (document : Document) (options : DeployOptions)
    (project : Except ProjectError (List Candidate)) {w v : World τ}
    (reachable : w.remote.Reachable) (real : options.dryRun = false) :
    let d : Deployer (World τ) := ⟨pipeline, settings, World.offline lockDir⟩
    let first := d.execute document options project w
    (∃ r, first.result = .ok r) ∨ (∃ e, first.result = .error e ∧ e.phase = .publishing) →
    d.Interlude document options project first.state v →
    ∀ document' options', d.Repeats document options document' options' →
      let branch := d.branchFor options
      let again := d.execute document' options' project v
      again.state.remote = v.remote ∧
      again.state.remote.branch? branch = first.state.remote.branch? branch ∧
      (∀ home, settings.hostingProject = some home →
        (World.lock lockDir branch v).1 = .ok () → v.host.failNext = none →
        ∃ r, again.result = .ok r) ∧
      ∀ r, again.result = .ok r → ∃ head dry, first.state.remote.head? branch = some head ∧
        (∀ u, (d.execute document' { options' with dryRun := true } project u).result = .ok dry) ∧
        Repeated settings document' branch head v again.state dry r := by
  intro d first past between document' options' repeats branch again
  have hv : d.services.InMemory World.remote := World.offline_inMemory lockDir
  have hh : d.services.HostInMemory World.host := World.offline_hostInMemory lockDir
  have late : ∀ e, first.result = .error e → e.phase = .publishing := by
    intro e failed
    rcases past with ⟨r, ok⟩ | ⟨e', failed', phase⟩
    · rw [failed] at ok
      cases ok
    · rw [failed] at failed'
      cases failed'
      exact phase
  obtain ⟨prepared, rehearse, settled⟩ :=
    settled_of_past (d := d) hv real reachable.sound late
  obtain ⟨still, same⟩ := between.keeps hv rehearse settled
  have rehearse' := (repeats.rehearsal_eq project).trans rehearse
  rw [← repeats.branch] at still
  have idle : again.state.remote = v.remote := still.remote_eq hv rehearse'
  refine ⟨idle, by rw [idle]; exact same, fun home home_eq free flag => ?_, fun r ok => ?_⟩
  · change (World.lock lockDir (d.branchFor options) v).1 = .ok () at free
    rw [← repeats.branch] at free
    exact still.ok_of_flag hv hh rehearse' repeats.real home_eq free flag
  obtain ⟨deployment, home, head, home_eq, head_eq, asked, rfl⟩ :=
    still.result_of_ok hv hh rehearse' repeats.real ok
  have dry := fun u =>
    (execute_of_rehearsal_dry (s := u) ((rehearsal_dryRun true).trans rehearse') rfl).1
  refine ⟨head, _, ?_, dry, ?_⟩
  · rw [MemoryRemote.head?, ← same, ← MemoryRemote.head?, ← head_eq]
    exact congrArg v.remote.head? repeats.branch.symm
  · exact {
      noChanges := rfl
      commit := rfl
      written := rfl
      deleted := rfl
      unchanged := (List.length_map _).symm
      version := rfl
      files := rfl
      excluded := rfl
      fingerprint := rfl
      asked := ⟨home, home_eq, by rw [asked, repeats.branch]⟩ }

end Interlude

end Deployer

namespace Bakery

def refused : Outcome (World Unit) DeployResult :=
  deployer.execute blank (options .preview "staging") (.ok [guide.candidate]) closed

def reopened : World Unit :=
  { refused.state with remote := (refused.state.remote.seed "main" "news").2 }

def again : DeployOptions := { options .preview "staging" with message := some "again" }

theorem retry_idle :
    let out := deployer.execute ⟨[], 7⟩ again (.ok [guide.candidate]) reopened
    out.state.remote = reopened.remote ∧
      ∃ r, out.result = .ok r ∧ r.noChanges = true ∧ r.written = [] ∧ r.version = 7 := by
  have past : ∃ e, refused.result = .error e ∧ e.phase = .publishing := ⟨_, rfl, rfl⟩
  have between : deployer.Interlude blank (options .preview "staging") (.ok [guide.candidate])
      refused.state reopened :=
    .elsewhere .none (.seed "main" "news") (show "main" ≠ "staging" by decide)
  have idle := Deployer.repetition_idle pipeline settings none blank (options .preview "staging")
    (.ok [guide.candidate]) ⟨[], rfl⟩ rfl (Or.inr past) between ⟨[], 7⟩ again
    ⟨rfl, rfl, rfl, rfl, rfl⟩
  have well : reopened.host.failNext = none := rfl
  obtain ⟨r, ok⟩ := idle.2.2.1 "bakery" rfl rfl well
  obtain ⟨head, dry, -, -, repeated⟩ := idle.2.2.2 r ok
  exact ⟨idle.1, r, ok, repeated.noChanges, repeated.written, repeated.version⟩

end Bakery

end SitePublish
