import SitePublish.Deploy.World
import SitePublish.Proofs.Deploy.Run
import SitePublish.Proofs.Remote.Plan

/-!
# What deployments do to a remote in memory

Over a remote in memory only the commit of a real deployment changes the remote: it carries out the
plan for the branch as it is then. Dry runs, publishing again, bootstrapping, locks and the host
leave every branch alone.
-/

set_option autoImplicit false

namespace SitePublish

/-- Services over a remote in memory, which `remote` finds in their state. -/
structure Services.InMemory {σ : Type} (v : Services σ) (remote : σ → MemoryRemote) : Prop where
  snapshot : ∀ branch s, v.snapshot branch s = (.ok ((remote s).snapshot branch), s)
  write : ∀ branch expected files message s,
    ((v.write branch expected files message s).1, remote (v.write branch expected files message s).2) =
      (remote s).write branch expected files message
  publish : ∀ request s, remote (v.publish request s).2 = remote s
  provision : ∀ repo domain s, remote (v.provision repo domain s).2 = remote s
  lock : ∀ branch s, remote (v.lock branch s).2 = remote s
  unlock : ∀ branch s, remote (v.unlock branch s) = remote s

theorem Services.InMemory.of_lock {σ : Type} {v : Services σ} {view : σ → MemoryRemote}
    (hv : v.InMemory view) {branch : String} {s t : σ} {result : Except LockError Unit}
    (lock : v.lock branch s = (result, t)) : view t = view s := by
  rw [← hv.lock branch s, lock]

namespace World

variable {τ : Type}

/-- Taking a branch changes only what is held and the lock files. -/
theorem exists_lock_eq (dir : Option String) (branch : String) (w : World τ) :
    ∃ locks files, (lock dir branch w).2 = { w with locks := locks, files := files } := by
  unfold lock
  split
  · exact ⟨_, _, rfl⟩
  · split <;> exact ⟨_, _, rfl⟩

theorem lock_cases (dir : Option String) (branch : String) (w : World τ) :
    (∃ files, lock dir branch w =
      (.ok (), { w with locks := w.locks.acquire branch, files := files })) ∨
    (∃ e files, lock dir branch w = (.error e, { w with files := files })) := by
  unfold lock
  split
  · exact Or.inl ⟨w.files, rfl⟩
  · split
    · exact Or.inr ⟨_, _, rfl⟩
    · exact Or.inl ⟨_, rfl⟩

theorem lock_keeps {β : Type} (f : World τ → β)
    (hf : ∀ w locks files, f { w with locks := locks, files := files } = f w)
    (dir : Option String) (branch : String) (w : World τ) : f (lock dir branch w).2 = f w := by
  obtain ⟨locks, files, h⟩ := exists_lock_eq dir branch w
  rw [h, hf]

theorem offline_inMemory (dir : Option String) :
    (offline dir : Services (World τ)).InMemory World.remote where
  snapshot _ _ := rfl
  write _ _ _ _ _ := rfl
  publish _ _ := rfl
  provision _ _ _ := rfl
  lock := lock_keeps World.remote (fun _ _ _ => rfl) dir
  unlock _ _ := rfl

end World

namespace MemoryRemote

/-- Carrying out a plan is a write, unless there is nothing to do. -/
def carry (r : MemoryRemote) (branch message : String) (plan : CommitPlan) : MemoryRemote :=
  if plan.isNoop then r else (r.write branch plan.base plan.writes message).2

theorem mem_files_carry {r : MemoryRemote} {branch message other : String}
    {files : List Candidate} {snapshot : Option Snapshot} {owned : SitePath → Bool}
    {e : SitePath × List UInt8}
    (h : e ∈ (r.carry branch message (.ofSnapshot files snapshot owned)).files other) :
    e ∈ r.files other ∨
      (other = branch ∧ ∃ c ∈ files, c.path = e.1 ∧ c.content.bytes = e.2) := by
  unfold carry at h
  split at h
  · exact Or.inl h
  · rcases r.write_cases branch (CommitPlan.ofSnapshot files snapshot owned).base
      (CommitPlan.ofSnapshot files snapshot owned).writes message
      with ⟨_, -, he⟩ | ⟨-, -, he⟩ | ⟨-, -, he⟩ <;> rw [he] at h
    · exact Or.inl h
    · rw [files_commit] at h
      split at h
      · next hb =>
        subst hb
        exact (CommitPlan.mem_of_mem_applied h).imp_right fun hc => ⟨rfl, hc⟩
      · exact Or.inl h
    · exact Or.inl h

/-- What a commit that succeeded made of a remote: nothing if the plan asks for nothing, else one
commit with the writes of the plan. -/
inductive Lands (r : MemoryRemote) (branch message : String) :
    Committed → MemoryRemote → Prop
  | idle {plan : CommitPlan} (noop : plan.isNoop = true) : Lands r branch message ⟨plan, none⟩ r
  | landed {plan : CommitPlan} {receipt : CommitReceipt} (noop : plan.isNoop = false)
      (base : r.head? branch = plan.base)
      (receipt_eq : receipt = ⟨commitId (r.commits + 1), commitUrl (commitId (r.commits + 1))⟩) :
      Lands r branch message ⟨plan, some receipt⟩ (r.commit branch message plan.writes)

section Lands

variable {r later : MemoryRemote} {branch message : String} {c : Committed}

theorem Lands.sound (h : Lands r branch message c later) (hr : r.Sound) : later.Sound := by
  cases h with
  | idle noop => exact hr
  | landed noop base receipt_eq => exact hr.commit branch message _

theorem Lands.files (h : Lands r branch message c later) :
    later.files branch = c.plan.applied (r.files branch) := by
  cases h with
  | idle noop => rw [CommitPlan.applied, CommitPlan.writes_of_isNoop noop, List.foldl_nil]
  | landed noop base receipt_eq => rw [files_commit, if_pos rfl, CommitPlan.applied]

theorem Lands.others (h : Lands r branch message c later) {other : String} (ho : other ≠ branch) :
    later.branch? other = r.branch? other := by
  cases h with
  | idle noop => rfl
  | landed noop base receipt_eq => exact branch?_commit_of_ne r message _ ho

theorem Lands.head (h : Lands r branch message c later) (hb : c.plan.base = r.head? branch) :
    later.head? branch = c.head := by
  cases h with
  | idle noop => exact hb.symm
  | landed noop base receipt_eq => rw [head?_commit, if_pos rfl, receipt_eq, Committed.head]

theorem Lands.writes (h : Lands r branch message c later) : c.writes = c.plan.writes := by
  cases h with
  | idle noop => exact (CommitPlan.writes_of_isNoop noop).symm
  | landed noop base receipt_eq => rfl

theorem Lands.head_isSome (h : Lands r branch message c later) : c.head.isSome = true := by
  cases h with
  | idle noop => exact (Bool.and_eq_true_iff.mp noop).1
  | landed noop base receipt_eq => rfl

end Lands

end MemoryRemote

namespace Deployer

variable {σ : Type}

def carried (d : Deployer σ) (document : Document) (options : DeployOptions) (branch : String)
    (prepared : Prepared) (r : MemoryRemote) : MemoryRemote :=
  let plan := d.planFor prepared (r.snapshot branch)
  r.carry branch (commitMessage document options plan) plan

section InMemory

variable {d : Deployer σ} {view : σ → MemoryRemote} (hv : d.services.InMemory view)
include hv

theorem CommitEnds.remote {branch message : String} {plan : CommitPlan} {s : σ}
    {out : Except RemoteError Committed × List DeployEvent × σ}
    (h : CommitEnds d branch message plan s out) :
    view out.2.2 = (view s).carry branch message plan := by
  rw [h.state_eq, MemoryRemote.carry]
  split
  · rfl
  · exact congrArg Prod.snd (hv.write branch plan.base plan.writes message s)

theorem CommitEnds.lands {branch message : String} {plan : CommitPlan} {s t : σ}
    {c : Committed} {events : List DeployEvent}
    (h : CommitEnds d branch message plan s (.ok c, events, t)) :
    c.plan = plan ∧ (view s).Lands branch message c (view t) := by
  have hw := hv.write branch plan.base plan.writes message s
  cases h with
  | skipped noop => exact ⟨rfl, .idle noop⟩
  | made noop write =>
    rw [write] at hw
    rcases (view s).write_cases branch plan.base plan.writes message
      with ⟨_, -, he⟩ | ⟨-, base, he⟩ | ⟨-, -, he⟩ <;> rw [he] at hw
    · cases (Prod.mk.inj hw).1
    · obtain ⟨hreceipt, hlater⟩ := Prod.mk.inj hw
      rw [hlater]
      exact ⟨rfl, .landed noop base (Except.ok.inj hreceipt)⟩
    · cases (Prod.mk.inj hw).1

theorem PublishEnds.remote {target : Target} {branch : String} {head : Option String} {s : σ}
    {out : Except DeployFailure Deployment × List DeployEvent × σ}
    (h : PublishEnds d target branch head s out) : view out.2.2 = view s := by
  rcases h.state_eq with he | ⟨home, -, he⟩
  · rw [he]
  · rw [he, hv.publish]

theorem ShipEnds.remote {document : Document} {options : DeployOptions} {branch : String}
    {prepared : Prepared} {s : σ} {out : Except Fault (Committed × Deployment) × List DeployEvent × σ}
    (h : ShipEnds d document options branch prepared s out) :
    view out.2.2 = d.carried document options branch prepared (view s) := by
  cases h with
  | unread read =>
    rw [hv.snapshot] at read
    cases read
  | uncommitted read planned commit =>
    rw [hv.snapshot] at read
    cases read
    rw [commit.remote hv, planned, carried]
  | unpublished read planned commit publish =>
    rw [hv.snapshot] at read
    cases read
    rw [publish.remote hv, commit.remote hv, planned, carried]
  | done read planned commit publish =>
    rw [hv.snapshot] at read
    cases read
    rw [publish.remote hv, commit.remote hv, planned, carried]

theorem LockedEnds.remote {document : Document} {options : DeployOptions} {branch : String}
    {prepared : Prepared} {s : σ} {out : Except Fault (Committed × Deployment) × List DeployEvent × σ}
    (h : LockedEnds d document options branch prepared s out) :
    view out.2.2 = view s ∨
      view out.2.2 = d.carried document options branch prepared (view s) := by
  cases h with
  | barred lock =>
    left
    rw [← hv.lock branch s, lock]
  | shipped lock ship =>
    right
    rw [hv.unlock, ship.remote hv, ← hv.lock branch s, lock]

/-- A real deployment that gets as far as the commit carries out its plan; every other one leaves
the remote alone. -/
theorem ExecuteEnds.remote {document : Document} {options : DeployOptions}
    {project : Except ProjectError (List Candidate)} {branch : String} {s : σ}
    {out : Outcome σ DeployResult} (h : ExecuteEnds d document options project branch s out) :
    view out.state = view s ∨
      ∃ prepared, d.settings.checkOwnership options.target branch = .ok () ∧
        (d.pipeline.prepare options.target document options.overrides project).1 = .ok prepared ∧
        options.dryRun = false ∧
        view out.state = d.carried document options branch prepared (view s) := by
  cases h with
  | disowned own => exact Or.inl rfl
  | unprepared own prepare => exact Or.inl rfl
  | rehearsed own prepare dry => exact Or.inl rfl
  | failed own prepare real ship =>
    exact (ship.remote hv).imp_right fun hr => ⟨_, own, congrArg Prod.fst prepare, real, hr⟩
  | done own prepare real ship =>
    exact (ship.remote hv).imp_right fun hr => ⟨_, own, congrArg Prod.fst prepare, real, hr⟩

theorem RepublishEnds.remote {target : Target} {branch : String} {s : σ}
    {out : Outcome σ RepublishResult} (h : RepublishEnds d target branch s out) :
    view out.state = view s := by
  cases h with
  | disowned own => rfl
  | barred own lock =>
    rw [← hv.lock branch s, lock]
    rfl
  | unpublished own lock publish =>
    have hl := hv.lock branch s
    rw [lock] at hl
    exact (hv.unlock _ _).trans ((publish.remote hv).trans hl)
  | done own lock publish =>
    have hl := hv.lock branch s
    rw [lock] at hl
    exact (hv.unlock _ _).trans ((publish.remote hv).trans hl)

theorem republish_remote (target : Target) (asked : Option String) (s : σ) :
    view (d.republish target asked s).state = view s := (d.republish_ends target asked s).remote hv

theorem bootstrap_remote (document : Document) (domain : Option String) (overrides : SeoOverrides)
    (project : Except ProjectError (List Candidate)) (s : σ) :
    view (d.bootstrap document domain overrides project s).state = view s :=
  (d.bootstrap_ends document domain overrides project s).keeps view hv.provision

end InMemory

end Deployer

end SitePublish
