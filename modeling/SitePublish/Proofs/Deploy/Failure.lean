import SitePublish.Proofs.Deploy.Delivery

/-!
# What a call leaves that failed

A deployment that fails leaves the remote as it was, or, when its error names a commit, with this one
commit more at the head of its branch. No call that fails makes the host record anything, a failure
that was put in the way of a service takes effect once, and every call gives back the branch that it
took.
-/

set_option autoImplicit false

namespace SitePublish

/-- A failure that was put in the way of a service is gone when it has taken effect, and only
then. -/
def Fired {ε : Type} (of : ε → DeployFailure) (cause : DeployFailure) (before after : Option ε) :
    Prop :=
  (∀ x, cause = of x → before = some x ∧ after = none) ∧ ((∀ x, cause ≠ of x) → after = before)

/-- A failure that comes from no service. -/
def DeployFailure.Inward (cause : DeployFailure) : Prop :=
  (∀ x, cause ≠ .sourceControl x) ∧ ∀ x, cause ≠ .hosting x

theorem DeployFailure.inward_lock (e : LockError) : (DeployFailure.lock e).Inward :=
  ⟨nofun, nofun⟩

theorem DeploySettings.inward_of_disowned {settings : DeploySettings} {target : Target}
    {branch : String} {cause : DeployFailure}
    (own : settings.checkOwnership target branch = .error cause) : cause.Inward := by
  unfold checkOwnership at own
  split at own <;> cases own
  exact ⟨nofun, nofun⟩

theorem Pipeline.inward_of_prepare {p : Pipeline} {target : Target} {document : Document}
    {overrides : SeoOverrides} {project : Except ProjectError (List Candidate)} {phase : Phase}
    {cause : DeployFailure}
    (h : (p.prepare target document overrides project).1 = .error (phase, cause)) :
    cause.Inward := by
  rcases prepare_error_cases h with ⟨-, _, rfl⟩ | ⟨-, ⟨_, rfl⟩ | ⟨_, _, _, rfl⟩⟩ <;>
  exact ⟨nofun, nofun⟩

namespace MemoryHost

theorem provision_error {h later : MemoryHost} {repo : RepoRef} {domain : Option String}
    {e : HostingError} (failed : h.provision repo domain = (.error e, later)) :
    h.failNext = some e ∧ later = { h with failNext := none } := by
  unfold provision at failed
  split at failed
  · next cause hf =>
    cases failed
    exact ⟨hf, rfl⟩
  · cases failed

inductive Spares (h : MemoryHost) (cause : DeployFailure) : MemoryHost → Prop
  | unasked (other : ∀ e, cause ≠ .hosting e) : Spares h cause h
  | refused {e : HostingError} (refusal : cause = .hosting e) (flag : h.failNext = some e) :
      Spares h cause { h with failNext := none }

section Spares

variable {h later : MemoryHost} {cause : DeployFailure} (hs : h.Spares cause later)
include hs

theorem Spares.deployments_eq : later.deployments = h.deployments := by
  cases hs <;> rfl

theorem Spares.projects_eq : later.projects = h.projects := by
  cases hs <;> rfl

theorem Spares.fired : Fired .hosting cause h.failNext later.failNext := by
  cases hs with
  | unasked other => exact ⟨fun x hx => absurd hx (other x), fun _ => rfl⟩
  | @refused e refusal flag =>
    subst refusal
    refine ⟨fun x hx => ?_, fun other => absurd rfl (other e)⟩
    cases hx
    exact ⟨flag, rfl⟩

end Spares

end MemoryHost

namespace MemoryRemote

inductive Keeps (r : MemoryRemote) (e : DeployError) : MemoryRemote → Prop
  | untouched (without : e.commit = none) (other : ∀ x, e.cause ≠ .sourceControl x) : Keeps r e r
  | refused {x : RemoteError} (without : e.commit = none) (refusal : e.cause = .sourceControl x)
      (flag : r.failNextWrite = some x) : Keeps r e { r with failNextWrite := none }
  | committed {message : String} {ws : List FileWrite} (phase : e.phase = .publishing)
      (other : ∀ x, e.cause ≠ .sourceControl x)
      (with_commit : e.commit = some (commitId (r.commits + 1))) :
      Keeps r e (r.commit e.branch message ws)

section Keeps

variable {r later : MemoryRemote} {e : DeployError}

theorem Lands.keeps {branch message : String} {c : Committed} {dryRun : Bool}
    {cause : DeployFailure} (h : Lands r branch message c later)
    (other : ∀ x, cause ≠ .sourceControl x) :
    r.Keeps ⟨.publishing, branch, dryRun, c.commitId, cause⟩ later := by
  cases h with
  | idle noop => exact .untouched rfl other
  | landed noop base receipt_eq =>
    subst receipt_eq
    exact Keeps.committed (e := ⟨.publishing, branch, dryRun, some _, cause⟩) rfl other rfl

theorem Keeps.branches (h : r.Keeps e later) (without : e.commit = none) :
    later.branches = r.branches := by
  cases h with
  | untouched _ other => rfl
  | refused _ refusal flag => rfl
  | committed phase other with_commit =>
    rw [without] at with_commit
    cases with_commit

theorem Keeps.grown {c : String} (h : r.Keeps e later) (with_commit : e.commit = some c) :
    e.phase = .publishing ∧
      (∃ commit, commit.id = c ∧ later.history e.branch = commit :: r.history e.branch) ∧
      later.head? e.branch = some c ∧
      ∀ other, other ≠ e.branch → later.branch? other = r.branch? other := by
  cases h with
  | untouched without other =>
    rw [without] at with_commit
    cases with_commit
  | refused without refusal flag =>
    rw [without] at with_commit
    cases with_commit
  | @committed message ws phase other hc =>
    rw [with_commit] at hc
    cases hc
    refine ⟨phase, ⟨newCommit (r.commits + 1) message, rfl, ?_⟩, ?_, fun other ho => ?_⟩
    · rw [history_commit, if_pos rfl]
    · rw [head?_commit, if_pos rfl]
    · exact branch?_commit_of_ne r message ws ho

theorem Keeps.fired (h : r.Keeps e later) :
    Fired .sourceControl e.cause r.failNextWrite later.failNextWrite := by
  cases h with
  | untouched without other => exact ⟨fun x hx => absurd hx (other x), fun _ => rfl⟩
  | @refused x without refusal flag =>
    refine ⟨fun y hy => ?_, fun other => absurd refusal (other x)⟩
    rw [refusal] at hy
    cases hy
    exact ⟨flag, rfl⟩
  | committed phase other with_commit => exact ⟨fun x hx => absurd hx (other x), fun _ => rfl⟩

end Keeps

end MemoryRemote

theorem DeployError.keeps_of_inward {e : DeployError} (without : e.commit = none)
    (inward : e.cause.Inward) (r : MemoryRemote) (h : MemoryHost) :
    r.Keeps e r ∧ h.Spares e.cause h :=
  ⟨.untouched without inward.1, .unasked inward.2⟩

/-- Services that keep in their state which branches are held. -/
structure Services.Holding {σ : Type} (v : Services σ) (locks : σ → LockTable) : Prop where
  snapshot : ∀ branch s, locks (v.snapshot branch s).2 = locks s
  write : ∀ branch expected files message s,
    locks (v.write branch expected files message s).2 = locks s
  publish : ∀ request s, locks (v.publish request s).2 = locks s
  provision : ∀ repo domain s, locks (v.provision repo domain s).2 = locks s
  taken : ∀ branch s t, v.lock branch s = (.ok (), t) → locks t = (locks s).acquire branch
  barred : ∀ branch s e t, v.lock branch s = (.error e, t) → locks t = locks s
  unlock : ∀ branch s, locks (v.unlock branch s) = (locks s).release branch

theorem World.offline_holding {τ : Type} (dir : Option String) :
    (offline dir : Services (World τ)).Holding World.locks where
  snapshot _ _ := rfl
  write _ _ _ _ _ := rfl
  publish _ _ := rfl
  provision _ _ _ := rfl
  taken branch w t h := by
    change lock dir branch w = _ at h
    rcases lock_cases dir branch w with ⟨files, he⟩ | ⟨_, files, he⟩ <;> rw [he] at h
    · cases h
      rfl
    · cases h
  barred branch w e t h := by
    change lock dir branch w = _ at h
    rcases lock_cases dir branch w with ⟨files, he⟩ | ⟨_, files, he⟩ <;> rw [he] at h
    · cases h
    · cases h
      rfl
  unlock _ _ := rfl

namespace Deployer

variable {σ : Type} {d : Deployer σ} {document : Document} {options : DeployOptions}
  {project : Except ProjectError (List Candidate)} {s : σ}

section Holding

variable {locks : σ → LockTable} (hl : d.services.Holding locks)
include hl

theorem locks_of_unlock {branch : String} {t u : σ} (lock : d.services.lock branch s = (.ok (), t))
    (kept : locks u = locks t) : locks (d.services.unlock branch u) = locks s := by
  rw [hl.unlock, kept, hl.taken branch s t lock, LockTable.release_acquire]

theorem LockedEnds.gives_back {branch : String} {prepared : Prepared}
    {out : Except Fault (Committed × Deployment) × List DeployEvent × σ}
    (h : LockedEnds d document options branch prepared s out) : locks out.2.2 = locks s := by
  cases h with
  | barred lock => exact hl.barred branch s _ _ lock
  | shipped lock ship =>
    exact locks_of_unlock hl lock (ship.keeps locks hl.snapshot hl.write hl.publish)

theorem ExecuteEnds.gives_back {branch : String} {out : Outcome σ DeployResult}
    (h : ExecuteEnds d document options project branch s out) : locks out.state = locks s := by
  cases h with
  | disowned own => rfl
  | unprepared own prepare => rfl
  | rehearsed own prepare dry => rfl
  | failed own prepare real ship => exact ship.gives_back hl
  | done own prepare real ship => exact ship.gives_back hl

theorem RepublishEnds.gives_back {target : Target} {branch : String} {out : Outcome σ RepublishResult}
    (h : RepublishEnds d target branch s out) : locks out.state = locks s := by
  cases h with
  | disowned own => rfl
  | barred own lock => exact hl.barred branch s _ _ lock
  | unpublished own lock publish => exact locks_of_unlock hl lock (publish.keeps locks hl.publish)
  | done own lock publish => exact locks_of_unlock hl lock (publish.keeps locks hl.publish)

end Holding

theorem ShipEnds.home_of_hosting {branch : String} {prepared : Prepared} {fault : Fault}
    {events : List DeployEvent} {t : σ} {x : HostingError}
    (h : ShipEnds d document options branch prepared s (.error fault, events, t))
    (refusal : fault.cause = .hosting x) : ∃ home, d.settings.hostingProject = some home := by
  cases h with
  | unread read => cases refusal
  | uncommitted read planned commit => cases refusal
  | unpublished read planned commit publish =>
    cases publish with
    | homeless unset => cases refusal
    | refused home ask => exact ⟨_, home⟩

theorem ExecuteEnds.home_of_hosting {branch : String} {out : Outcome σ DeployResult}
    {e : DeployError} {x : HostingError}
    (h : ExecuteEnds d document options project branch s out) (failed : out.result = .error e)
    (refusal : e.cause = .hosting x) :
    d.settings.checkOwnership options.target branch = .ok () ∧
      ∃ home, d.settings.hostingProject = some home := by
  cases h with
  | disowned own =>
    cases failed
    exact absurd refusal ((DeploySettings.inward_of_disowned own).2 x)
  | unprepared own prepare =>
    cases failed
    exact absurd refusal ((Pipeline.inward_of_prepare (congrArg Prod.fst prepare)).2 x)
  | rehearsed own prepare dry => cases failed
  | failed own prepare real ship =>
    cases failed
    cases ship with
    | barred lock => cases refusal
    | shipped lock ship => exact ⟨own, ship.home_of_hosting refusal⟩
  | done own prepare real ship => cases failed

section InMemory

variable {view : σ → MemoryRemote} {host : σ → MemoryHost}

/-- A commit for the head that the remote has fails only when it is made to. -/
theorem CommitEnds.refusal (hv : d.services.InMemory view) {branch message : String}
    {plan : CommitPlan} {e : RemoteError} {events : List DeployEvent} {t : σ}
    (h : CommitEnds d branch message plan s (.error e, events, t))
    (base : plan.base = (view s).head? branch) :
    (view s).failNextWrite = some e ∧ view t = { view s with failNextWrite := none } := by
  have hw := hv.write branch plan.base plan.writes message s
  cases h with
  | refused noop write =>
    rw [write] at hw
    rcases (view s).write_cases branch plan.base plan.writes message
      with ⟨_, flag, he⟩ | ⟨-, -, he⟩ | ⟨-, moved, -⟩
    · rw [he] at hw
      obtain ⟨hfail, hlater⟩ := Prod.mk.inj hw
      cases hfail
      exact ⟨flag, hlater⟩
    · rw [he] at hw
      cases (Prod.mk.inj hw).1
    · exact absurd base.symm moved

theorem PublishEnds.spares (hh : d.services.HostInMemory host) {target : Target} {branch : String}
    {head : Option String} {e : DeployFailure} {events : List DeployEvent} {t : σ}
    (h : PublishEnds d target branch head s (.error e, events, t)) :
    (host s).Spares e (host t) ∧ ∀ x, e ≠ .sourceControl x := by
  cases h with
  | homeless unset => exact ⟨.unasked nofun, nofun⟩
  | @refused home cause t home_eq ask =>
    refine ⟨?_, nofun⟩
    have hp := hh.publish ⟨home, d.settings.repo, branch, head, target⟩ s
    rw [ask] at hp
    rcases (host s).deploy_cases ⟨home, d.settings.repo, branch, head, target⟩
      with ⟨_, flag, he⟩ | ⟨-, _, he⟩ <;> rw [he] at hp
    · obtain ⟨hfail, hlater⟩ := Prod.mk.inj hp
      cases hfail
      rw [hlater]
      exact .refused rfl flag
    · cases (Prod.mk.inj hp).1

variable (hv : d.services.InMemory view) (hh : d.services.HostInMemory host)
include hv hh

theorem ShipEnds.keeps_of_error {branch : String} {prepared : Prepared} {fault : Fault}
    {events : List DeployEvent} {t : σ}
    (h : ShipEnds d document options branch prepared s (.error fault, events, t)) :
    (view s).Keeps ⟨fault.phase, branch, options.dryRun, fault.commit, fault.cause⟩ (view t) ∧
      (host s).Spares fault.cause (host t) := by
  cases h with
  | unread read =>
    rw [hv.snapshot] at read
    cases read
  | uncommitted read planned commit =>
    rw [hv.snapshot] at read
    cases read
    -- The plan is for the head that was just read, so the commit cannot find another one.
    rw [planned] at commit
    obtain ⟨flag, hlater⟩ := commit.refusal hv ((view s).snapshot_base branch)
    rw [hlater, commit.keeps host hh.write]
    exact ⟨.refused rfl rfl flag, .unasked nofun⟩
  | unpublished read planned commit publish =>
    rw [hv.snapshot] at read
    cases read
    obtain ⟨-, lands⟩ := commit.lands hv
    obtain ⟨spares, other⟩ := publish.spares hh
    rw [commit.keeps host hh.write] at spares
    rw [← publish.remote hv] at lands
    exact ⟨lands.keeps other, spares⟩

theorem LockedEnds.keeps_of_error {branch : String} {prepared : Prepared} {fault : Fault}
    {events : List DeployEvent} {t : σ}
    (h : LockedEnds d document options branch prepared s (.error fault, events, t)) :
    (view s).Keeps ⟨fault.phase, branch, options.dryRun, fault.commit, fault.cause⟩ (view t) ∧
      (host s).Spares fault.cause (host t) := by
  cases h with
  | barred lock =>
    rw [hv.of_lock lock, hh.of_lock lock]
    exact DeployError.keeps_of_inward (e := ⟨_, branch, options.dryRun, _, _⟩) rfl
      (DeployFailure.inward_lock _) _ _
  | shipped lock ship =>
    rw [hv.unlock, hh.unlock, ← hv.of_lock lock, ← hh.of_lock lock]
    exact ship.keeps_of_error hv hh

theorem ExecuteEnds.keeps_of_error {branch : String} {out : Outcome σ DeployResult}
    {e : DeployError} (h : ExecuteEnds d document options project branch s out)
    (failed : out.result = .error e) :
    (view s).Keeps e (view out.state) ∧ (host s).Spares e.cause (host out.state) := by
  cases h with
  | disowned own =>
    cases failed
    exact DeployError.keeps_of_inward rfl (DeploySettings.inward_of_disowned own) _ _
  | unprepared own prepare =>
    cases failed
    exact DeployError.keeps_of_inward rfl
      (Pipeline.inward_of_prepare (congrArg Prod.fst prepare)) _ _
  | rehearsed own prepare dry => cases failed
  | failed own prepare real ship =>
    cases failed
    exact ship.keeps_of_error hv hh
  | done own prepare real ship => cases failed

theorem BootstrapEnds.spares_of_error {domain : Option String} {overrides : SeoOverrides}
    {out : Outcome σ BootstrapResult} {e : DeployError}
    (h : BootstrapEnds d document domain overrides project s out) (failed : out.result = .error e) :
    (host s).Spares e.cause (host out.state) := by
  have ends := d.execute_ends document (bootstrapOptions overrides) project s
  have same := ends.state_of_dry rfl
  cases h with
  | unready rehearse =>
    cases failed
    rw [rehearse] at ends
    exact (ends.keeps_of_error hv hh rfl).2
  | @refused _ _ cause t u rehearse provision =>
    cases failed
    rw [rehearse] at same
    have hp := hh.provision d.settings.repo domain t
    rw [provision] at hp
    obtain ⟨flag, later⟩ := MemoryHost.provision_error hp.symm
    dsimp only [Run.fail] at later same ⊢
    rw [later, ← same]
    exact .refused rfl flag
  | done rehearse provision => cases failed

omit hv

theorem RepublishEnds.spares_of_error {target : Target} {branch : String}
    {out : Outcome σ RepublishResult} {e : DeployError} (h : RepublishEnds d target branch s out)
    (failed : out.result = .error e) : (host s).Spares e.cause (host out.state) := by
  cases h with
  | disowned own =>
    cases failed
    exact .unasked (DeploySettings.inward_of_disowned own).2
  | barred own lock =>
    cases failed
    dsimp only [Run.fail]
    rw [hh.of_lock lock]
    exact .unasked (DeployFailure.inward_lock _).2
  | unpublished own lock publish =>
    cases failed
    dsimp only [Run.fail]
    rw [hh.unlock, ← hh.of_lock lock]
    exact (publish.spares hh).1
  | done own lock publish => cases failed

theorem RepublishEnds.asked_of_ok {target : Target} {branch : String}
    {out : Outcome σ RepublishResult} {r : RepublishResult} (h : RepublishEnds d target branch s out)
    (ok : out.result = .ok r) : ∃ home, d.settings.hostingProject = some home ∧
      (host out.state).deployments = (host s).deployments ++ [⟨home, branch, none⟩] := by
  cases h with
  | disowned own => cases ok
  | barred own lock => cases ok
  | unpublished own lock publish => cases ok
  | done own lock publish =>
    obtain ⟨home, home_eq, asked⟩ := publish.home_of_ok hh
    exact ⟨home, home_eq, by rw [hh.unlock, asked, hh.of_lock lock]⟩

theorem RepublishEnds.ok_of_flag {target : Target} {branch home : String}
    {out : Outcome σ RepublishResult} (h : RepublishEnds d target branch s out)
    (own : d.settings.checkOwnership target branch = .ok ())
    (home_eq : d.settings.hostingProject = some home)
    (lock : (d.services.lock branch s).1 = .ok ()) (flag : (host s).failNext = none) :
    ∃ r, out.result = .ok r := by
  cases h with
  | disowned other =>
    rw [own] at other
    cases other
  | barred _ other =>
    rw [other] at lock
    cases lock
  | unpublished _ lock publish =>
    obtain ⟨deployment, ok⟩ := publish.ok_of_flag hh home_eq (by rw [hh.of_lock lock, flag])
    cases ok
  | done _ lock publish => exact ⟨_, rfl⟩

end InMemory

/-- What the error of a deployment says of the state that the deployment left. -/
structure Reported {τ : Type} (before after : World τ) (e : DeployError) : Prop where
  deployments : after.host.deployments = before.host.deployments
  projects : after.host.projects = before.host.projects
  intact : e.commit = none → after.remote.branches = before.remote.branches
  late : ∀ c, e.commit = some c → e.phase = .publishing
  grown : ∀ c, e.commit = some c → ∃ commit, commit.id = c ∧
    after.remote.history e.branch = commit :: before.remote.history e.branch
  head : ∀ c, e.commit = some c → after.remote.head? e.branch = some c
  others : ∀ c, e.commit = some c → ∀ other, other ≠ e.branch →
    after.remote.branch? other = before.remote.branch? other
  write_flag : Fired .sourceControl e.cause before.remote.failNextWrite after.remote.failNextWrite
  host_flag : Fired .hosting e.cause before.host.failNext after.host.failNext

/-- What the error of any other call says of the state that the call left. -/
structure Unrecorded {τ : Type} (before after : World τ) (e : DeployError) : Prop where
  remote : after.remote = before.remote
  deployments : after.host.deployments = before.host.deployments
  projects : after.host.projects = before.host.projects
  host_flag : Fired .hosting e.cause before.host.failNext after.host.failNext

theorem Reported.of_keeps {τ : Type} {before after : World τ} {e : DeployError}
    (h : before.remote.Keeps e after.remote) (hs : before.host.Spares e.cause after.host) :
    Reported before after e where
  deployments := hs.deployments_eq
  projects := hs.projects_eq
  intact := h.branches
  late _ hc := (h.grown hc).1
  grown _ hc := (h.grown hc).2.1
  head _ hc := (h.grown hc).2.2.1
  others _ hc := (h.grown hc).2.2.2
  write_flag := h.fired
  host_flag := hs.fired

theorem Unrecorded.of_spares {τ : Type} {before after : World τ} {e : DeployError}
    (same : after.remote = before.remote) (hs : before.host.Spares e.cause after.host) :
    Unrecorded before after e where
  remote := same
  deployments := hs.deployments_eq
  projects := hs.projects_eq
  host_flag := hs.fired

/-- Whatever failure is put in the way of whatever call, in any state of the remote and the host.
When a deployment leaves a commit, publishing the branch again publishes this commit. -/
theorem failure_reported {τ : Type} (pipeline : Pipeline) (settings : DeploySettings)
    (lockDir : Option String) (w : World τ) :
    let d : Deployer (World τ) := ⟨pipeline, settings, World.offline lockDir⟩
    (∀ document options project,
      let out := d.execute document options project w
      out.state.locks = w.locks ∧
      ∀ e, out.result = .error e → Reported w out.state e ∧
        ∀ c, e.commit = some c → ∀ target asked, settings.resolveBranch target asked = e.branch →
          let again := d.republish target asked out.state
          again.state.remote.head? e.branch = some c ∧
          (∀ r, again.result = .ok r → ∃ home, settings.hostingProject = some home ∧
            again.state.host.deployments = w.host.deployments ++ [⟨home, e.branch, none⟩]) ∧
          (∀ x, e.cause = .hosting x → target = options.target →
            (World.lock lockDir e.branch out.state).1 = .ok () → ∃ r, again.result = .ok r)) ∧
    (∀ target asked,
      let out := d.republish target asked w
      out.state.locks = w.locks ∧ ∀ e, out.result = .error e → Unrecorded w out.state e) ∧
    ∀ document domain overrides project,
      let out := d.bootstrap document domain overrides project w
      out.state.locks = w.locks ∧ ∀ e, out.result = .error e → Unrecorded w out.state e := by
  intro d
  have hv : d.services.InMemory World.remote := World.offline_inMemory lockDir
  have hh : d.services.HostInMemory World.host := World.offline_hostInMemory lockDir
  have hl : d.services.Holding World.locks := World.offline_holding lockDir
  refine ⟨fun document options project => ?_, fun target asked => ?_,
    fun document domain overrides project => ?_⟩
  · intro out
    have ends : ExecuteEnds d document options project _ w out :=
      d.execute_ends document options project w
    refine ⟨ends.gives_back hl, fun e failed => ?_⟩
    obtain ⟨keeps, spares⟩ := ends.keeps_of_error hv hh failed
    have reported := Reported.of_keeps keeps spares
    refine ⟨reported, fun c hc target asked to_branch => ?_⟩
    intro again
    have ends' : RepublishEnds d target _ out.state again := d.republish_ends target asked out.state
    refine ⟨?_, fun r ok => ?_, fun x refusal same free => ?_⟩
    · rw [d.republish_remote hv target asked out.state]
      exact reported.head c hc
    · obtain ⟨home, home_eq, asked_eq⟩ := ends'.asked_of_ok hh ok
      exact ⟨home, home_eq, by rw [asked_eq, reported.deployments, to_branch]⟩
    · subst same
      obtain ⟨own, home, home_eq⟩ := ends.home_of_hosting failed refusal
      rw [← ends.branch_of_error failed, ← to_branch] at own
      rw [← to_branch] at free
      exact ends'.ok_of_flag hh own home_eq free (reported.host_flag.1 x refusal).2
  · intro out
    have ends : RepublishEnds d target _ w out := d.republish_ends target asked w
    exact ⟨ends.gives_back hl, fun e failed =>
      .of_spares (d.republish_remote hv target asked w) (ends.spares_of_error hh failed)⟩
  · intro out
    have ends : BootstrapEnds d document domain overrides project w out :=
      d.bootstrap_ends document domain overrides project w
    exact ⟨ends.keeps World.locks hl.provision, fun e failed =>
      .of_spares (d.bootstrap_remote hv document domain overrides project w)
        (ends.spares_of_error hv hh failed)⟩

end Deployer

namespace Bakery

theorem closed_reported :
    let out := deployer.execute blank (options .preview "staging") (.ok [guide.candidate]) closed
    ∃ e c, out.result = .error e ∧ e.commit = some c ∧ out.state.host.deployments = [] ∧
      (deployer.republish .preview (some "staging") out.state).state.host.deployments =
        [⟨"bakery", "staging", none⟩] ∧
      out.state.remote.head? "staging" = some c := by
  intro out
  obtain ⟨e, c, failed, hc, hb, refusal⟩ : ∃ e c, out.result = .error e ∧ e.commit = some c ∧
      e.branch = "staging" ∧ e.cause = .hosting (.transport "closed") := ⟨_, _, rfl, rfl, rfl, rfl⟩
  obtain ⟨execute, -⟩ := Deployer.failure_reported pipeline settings none closed
  obtain ⟨reported, retry⟩ := (execute blank (options .preview "staging")
    (.ok [guide.candidate])).2 e failed
  obtain ⟨head, published, succeeds⟩ := retry c hc .preview (some "staging") hb.symm
  obtain ⟨r, ok⟩ := succeeds _ refusal rfl rfl
  obtain ⟨home, home_eq, asked⟩ := published r ok
  cases home_eq
  rw [hb] at asked
  exact ⟨e, c, failed, hc, reported.deployments, asked, hb ▸ reported.head c hc⟩

end Bakery

end SitePublish
