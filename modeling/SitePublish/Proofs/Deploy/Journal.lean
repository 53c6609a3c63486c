import SitePublish.Deploy.World
import SitePublish.Proofs.Deploy.Refinement
import SitePublish.Proofs.Deploy.Run

/-!
# A journal of commits

Services that note every commit they make answer as they did before, so what they note belongs to
the deployment that runs over them. A deployment makes at most one commit, with the message for its
document, and tells of it in its result if it succeeds.
-/

set_option autoImplicit false

namespace SitePublish

structure Made where
  branch : String
  message : String
  receipt : CommitReceipt
deriving DecidableEq

def Made.ofAnswer (branch message : String) : Except RemoteError CommitReceipt → List Made
  | .ok receipt => [⟨branch, message, receipt⟩]
  | .error _ => []

namespace Services

variable {σ : Type}

/-- Services that keep in their state which commits they made. -/
structure Journals (v : Services σ) (journal : σ → List Made) : Prop where
  snapshot : ∀ branch s, journal (v.snapshot branch s).2 = journal s
  write : ∀ branch expected files message s,
    journal (v.write branch expected files message s).2 =
      journal s ++ Made.ofAnswer branch message (v.write branch expected files message s).1
  publish : ∀ request s, journal (v.publish request s).2 = journal s
  lock : ∀ branch s, journal (v.lock branch s).2 = journal s
  unlock : ∀ branch s, journal (v.unlock branch s) = journal s

/-- Services whose calls keep what holds of their state. -/
structure Preserves (v : Services σ) (P : σ → Prop) : Prop where
  snapshot : ∀ branch s, P s → P (v.snapshot branch s).2
  write : ∀ branch expected files message s, P s → P (v.write branch expected files message s).2
  publish : ∀ request s, P s → P (v.publish request s).2
  lock : ∀ branch s, P s → P (v.lock branch s).2
  unlock : ∀ branch s, P s → P (v.unlock branch s)

end Services

namespace World

variable {τ : Type}

def journal (w : World (List Made × τ)) : List Made := w.connection.1

def unobserved (w : World (List Made × τ)) : World τ :=
  ⟨w.remote, w.host, w.locks, w.files, w.connection.2⟩

def observed (w : World τ) (journal : List Made) : World (List Made × τ) :=
  ⟨w.remote, w.host, w.locks, w.files, (journal, w.connection)⟩

end World

namespace Services

variable {τ : Type}

def journaled (v : Services (World τ)) : Services (World (List Made × τ)) where
  snapshot branch w :=
    let (result, u) := v.snapshot branch w.unobserved
    (result, u.observed w.journal)
  write branch expected files message w :=
    let (result, u) := v.write branch expected files message w.unobserved
    (result, u.observed (w.journal ++ Made.ofAnswer branch message result))
  publish request w :=
    let (result, u) := v.publish request w.unobserved
    (result, u.observed w.journal)
  provision repo domain w :=
    let (result, u) := v.provision repo domain w.unobserved
    (result, u.observed w.journal)
  lock branch w :=
    let (result, u) := v.lock branch w.unobserved
    (result, u.observed w.journal)
  unlock branch w := (v.unlock branch w.unobserved).observed w.journal

variable (v : Services (World τ))

theorem journaled_refines : v.journaled.Refines v World.unobserved where
  snapshot _ _ := rfl
  write _ _ _ _ _ := rfl
  publish _ _ := rfl
  provision _ _ _ := rfl
  lock _ _ := rfl
  unlock _ _ := rfl

theorem journaled_journals : v.journaled.Journals World.journal where
  snapshot _ _ := rfl
  write _ _ _ _ _ := rfl
  publish _ _ := rfl
  lock _ _ := rfl
  unlock _ _ := rfl

theorem Preserves.journaled {v : Services (World τ)} {P : World τ → Prop} (h : v.Preserves P) :
    v.journaled.Preserves fun w => P w.unobserved where
  snapshot branch w := h.snapshot branch w.unobserved
  write branch expected files message w := h.write branch expected files message w.unobserved
  publish request w := h.publish request w.unobserved
  lock branch w := h.lock branch w.unobserved
  unlock branch w := h.unlock branch w.unobserved

end Services

section Outside

open World (withHost withRemote offline through)

variable {τ : Type} {g : GitHub} {host : Vercel} {exchange : Http.Exchange τ}
  {services : Services (World τ)} {branch message : String} {w : World (List Made × τ)} {t : τ}

theorem World.lock_journaled :
    (withRemote (withHost (offline none) host exchange) g exchange).journaled.lock branch w =
      (.ok (), { w with locks := w.locks.acquire branch }) := rfl

theorem World.snapshot_journaled {result : Except RemoteError (Option Snapshot)}
    (read : g.snapshot exchange branch w.unobserved.connection = (result, t)) :
    (withRemote services g exchange).journaled.snapshot branch w =
      (result, { w with connection := (w.journal, t) }) := by
  dsimp only [Services.journaled, withRemote, through]
  rw [read]
  rfl

theorem World.write_journaled {result : Except RemoteError CommitReceipt} {base : Option String}
    {files : List FileWrite}
    (made : g.write exchange branch base files message w.unobserved.connection = (result, t)) :
    (withRemote services g exchange).journaled.write branch base files message w =
      (result, { w with connection := (w.journal ++ Made.ofAnswer branch message result, t) }) := by
  dsimp only [Services.journaled, withRemote, through]
  rw [made]
  rfl

theorem World.publish_journaled {result : Except HostingError Deployment}
    {request : DeploymentRequest}
    (asked : host.deploy exchange request w.unobserved.connection = (result, t)) :
    (withRemote (withHost services host exchange) g exchange).journaled.publish request w =
      (result, { w with connection := (w.journal, t) }) := by
  dsimp only [Services.journaled, withRemote, withHost, through]
  rw [asked]
  rfl

end Outside

namespace Deployer

variable {σ : Type} {d : Deployer σ} {document : Document} {options : DeployOptions}
  {branch : String} {s : σ}

/-- What a deployment adds to a journal: the commit that it makes, if it makes one. -/
inductive Notes (document : Document) (options : DeployOptions) (branch : String) :
    List Made → Option CommitReceipt → Prop
  | nothing : Notes document options branch [] none
  | commit (plan : CommitPlan) (receipt : CommitReceipt) :
      Notes document options branch [⟨branch, commitMessage document options plan, receipt⟩]
        (some receipt)

section Noting

variable {journal : σ → List Made} (hj : d.services.Journals journal)
include hj

theorem CommitEnds.notes {plan : CommitPlan}
    {out : Except RemoteError Committed × List DeployEvent × σ}
    (h : CommitEnds d branch (commitMessage document options plan) plan s out) :
    ∃ made receipt, journal out.2.2 = journal s ++ made ∧
      Notes document options branch made receipt ∧ ∀ c, out.1 = .ok c → c.receipt = receipt := by
  have hw := hj.write branch plan.base plan.writes (commitMessage document options plan) s
  cases h with
  | skipped noop =>
    exact ⟨[], none, (List.append_nil _).symm, .nothing, fun c hc => by cases hc; rfl⟩
  | refused noop write =>
    rw [write] at hw
    exact ⟨[], none, hw, .nothing, fun c hc => by cases hc⟩
  | @made receipt t noop write =>
    rw [write] at hw
    exact ⟨_, some receipt, hw, .commit plan receipt, fun c hc => by cases hc; rfl⟩

theorem ShipEnds.notes {prepared : Prepared}
    {out : Except Fault (Committed × Deployment) × List DeployEvent × σ}
    (h : ShipEnds d document options branch prepared s out) :
    ∃ made receipt, journal out.2.2 = journal s ++ made ∧
      Notes document options branch made receipt ∧
      ∀ c deployment, out.1 = .ok (c, deployment) → c.receipt = receipt := by
  have hr := hj.snapshot branch s
  cases h with
  | unread read =>
    rw [read] at hr
    exact ⟨[], none, by simpa using hr, .nothing, fun c deployment hc => by cases hc⟩
  | uncommitted read planned commit =>
    rw [read] at hr
    obtain ⟨made, receipt, log, notes, -⟩ := commit.notes hj
    exact ⟨made, receipt, hr ▸ log, notes, fun c deployment hc => by cases hc⟩
  | unpublished read planned commit publish =>
    rw [read] at hr
    obtain ⟨made, receipt, log, notes, -⟩ := commit.notes hj
    rw [← publish.keeps journal hj.publish] at log
    exact ⟨made, receipt, hr ▸ log, notes, fun c deployment hc => by cases hc⟩
  | done read planned commit publish =>
    rw [read] at hr
    obtain ⟨made, receipt, log, notes, told⟩ := commit.notes hj
    rw [← publish.keeps journal hj.publish] at log
    exact ⟨made, receipt, hr ▸ log, notes, fun c deployment hc => by cases hc; exact told _ rfl⟩

theorem LockedEnds.notes {prepared : Prepared}
    {out : Except Fault (Committed × Deployment) × List DeployEvent × σ}
    (h : LockedEnds d document options branch prepared s out) :
    ∃ made receipt, journal out.2.2 = journal s ++ made ∧
      Notes document options branch made receipt ∧
      ∀ c deployment, out.1 = .ok (c, deployment) → c.receipt = receipt := by
  have hl := hj.lock branch s
  cases h with
  | barred lock =>
    rw [lock] at hl
    exact ⟨[], none, by simpa using hl, .nothing, fun c deployment hc => by cases hc⟩
  | shipped lock ship =>
    rw [lock] at hl
    rw [hj.unlock, ← hl]
    exact ship.notes hj

theorem ExecuteEnds.notes {project : Except ProjectError (List Candidate)}
    {out : Outcome σ DeployResult} (h : ExecuteEnds d document options project branch s out) :
    ∃ made receipt, journal out.state = journal s ++ made ∧
      Notes document options branch made receipt ∧
      ∀ r, out.result = .ok r → r.commit = receipt := by
  have nothing : journal s = journal s ++ [] := (List.append_nil _).symm
  cases h with
  | disowned own => exact ⟨[], none, nothing, .nothing, fun r hr => by cases hr⟩
  | unprepared own prepare => exact ⟨[], none, nothing, .nothing, fun r hr => by cases hr⟩
  | rehearsed own prepare dry =>
    exact ⟨[], none, nothing, .nothing, fun r hr => by cases hr; rfl⟩
  | failed own prepare real ship =>
    obtain ⟨made, receipt, log, notes, -⟩ := ship.notes hj
    exact ⟨made, receipt, log, notes, fun r hr => by cases hr⟩
  | done own prepare real ship =>
    obtain ⟨made, receipt, log, notes, told⟩ := ship.notes hj
    exact ⟨made, receipt, log, notes, fun r hr => by cases hr; exact told _ _ rfl⟩

end Noting

section Preserving

variable {P : σ → Prop} (hp : d.services.Preserves P)
include hp

theorem CommitEnds.preserves {message : String} {plan : CommitPlan}
    {out : Except RemoteError Committed × List DeployEvent × σ}
    (h : CommitEnds d branch message plan s out) (holds : P s) : P out.2.2 := by
  rw [h.state_eq]
  split
  · exact holds
  · exact hp.write branch plan.base plan.writes message s holds

theorem PublishEnds.preserves {target : Target} {head : Option String}
    {out : Except DeployFailure Deployment × List DeployEvent × σ}
    (h : PublishEnds d target branch head s out) (holds : P s) : P out.2.2 := by
  rcases h.state_eq with he | ⟨home, -, he⟩ <;> rw [he]
  · exact holds
  · exact hp.publish _ s holds

theorem ShipEnds.preserves {prepared : Prepared}
    {out : Except Fault (Committed × Deployment) × List DeployEvent × σ}
    (h : ShipEnds d document options branch prepared s out) (holds : P s) : P out.2.2 := by
  have hr := hp.snapshot branch s holds
  cases h with
  | unread read => rwa [read] at hr
  | uncommitted read planned commit =>
    rw [read] at hr
    exact commit.preserves hp hr
  | unpublished read planned commit publish =>
    rw [read] at hr
    exact publish.preserves hp (commit.preserves hp hr)
  | done read planned commit publish =>
    rw [read] at hr
    exact publish.preserves hp (commit.preserves hp hr)

theorem LockedEnds.preserves {prepared : Prepared}
    {out : Except Fault (Committed × Deployment) × List DeployEvent × σ}
    (h : LockedEnds d document options branch prepared s out) (holds : P s) : P out.2.2 := by
  have hl := hp.lock branch s holds
  cases h with
  | barred lock => rwa [lock] at hl
  | shipped lock ship =>
    rw [lock] at hl
    exact hp.unlock branch _ (ship.preserves hp hl)

theorem ExecuteEnds.preserves {project : Except ProjectError (List Candidate)}
    {out : Outcome σ DeployResult} (h : ExecuteEnds d document options project branch s out)
    (holds : P s) : P out.state := by
  cases h with
  | failed own prepare real ship => exact ship.preserves hp holds
  | done own prepare real ship => exact ship.preserves hp holds
  | _ => exact holds

end Preserving

end Deployer

end SitePublish
