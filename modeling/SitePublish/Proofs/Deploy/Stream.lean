import Mathlib.Data.List.Chain
import SitePublish.Proofs.Deploy.Preparation
import SitePublish.Proofs.Deploy.Run

/-!
# The stream of a deployment

What a deployment reports walks through its phases: every report belongs to the phase that was
entered last, and a phase is entered only from one that may advance to it. The walk of a stage is put
together from those of its parts. Behind the walk comes the only terminal event, which says how the
call ended.
-/

set_option autoImplicit false

namespace SitePublish

namespace Phase

def rank : Phase → Nat
  | .generating => 0
  | .filtering => 1
  | .committing => 2
  | .publishing => 3
  | .succeeded | .failed => 4

theorem rank_lt_of_canAdvanceTo {p q : Phase} (h : p.canAdvanceTo q = true) : p.rank < q.rank := by
  cases p <;> cases q <;> first | decide | cases h

end Phase

namespace DeployEvent

def isTerminal : DeployEvent → Bool
  | .failed _ _ | .completed _ _ _ => true
  | _ => false

def isCompletion : DeployEvent → Bool
  | .completed _ _ _ => true
  | _ => false

/-- What only those are told who want details. -/
def isDetail : DeployEvent → Bool
  | .fileExcluded _ _ _ => true
  | _ => false

def phase? : DeployEvent → Option Phase
  | .entered p => some p
  | _ => none

/-- What a sink receives of a stream, with or without the details. -/
def told (detailed : Bool) (events : List DeployEvent) : List DeployEvent :=
  events.filter fun e => detailed || !e.isDetail

def phases (events : List DeployEvent) : List Phase := events.filterMap phase?

theorem phases_entered (p : Phase) (events : List DeployEvent) :
    phases (.entered p :: events) = p :: phases events := rfl

theorem phases_cons {e : DeployEvent} (h : e.phase? = none) (events : List DeployEvent) :
    phases (e :: events) = phases events := List.filterMap_cons_none h

section Told

variable {detailed : Bool} {events : List DeployEvent}

theorem mem_told {e : DeployEvent} (plain : e.isDetail = false) :
    e ∈ told detailed events ↔ e ∈ events := by
  simp [told, plain]

theorem told_append (front back : List DeployEvent) :
    told detailed (front ++ back) = told detailed front ++ told detailed back :=
  List.filter_append front back

theorem told_of_plain (plain : ∀ e ∈ events, e.isDetail = false) : told detailed events = events :=
  List.filter_eq_self.mpr fun e he => by simp [plain e he]

theorem filterMap_told {β : Type} {f : DeployEvent → Option β}
    (plain : ∀ e, e.isDetail = true → f e = none) :
    (told detailed events).filterMap f = events.filterMap f := by
  rw [told, List.filterMap_filter]
  congr 1
  funext e
  cases he : e.isDetail with
  | true => cases detailed <;> simp [plain e he]
  | false => simp

theorem phases_told : phases (told detailed events) = phases events :=
  filterMap_told fun e he => by cases e <;> first | rfl | cases he

end Told

/-- An event that reports something, and the phase it belongs to; none before the first phase. -/
inductive ToldIn : DeployEvent → Option Phase → Prop
  | started {target branch dryRun pages} : ToldIn (.started target branch dryRun pages) none
  | generated {files} : ToldIn (.generated files) (some .generating)
  | fileExcluded {path rule reason} : ToldIn (.fileExcluded path rule reason) (some .filtering)
  | filtered {included excluded fingerprint} :
      ToldIn (.filtered included excluded fingerprint) (some .filtering)
  | planned {writes skips deletions} : ToldIn (.planned writes skips deletions) (some .committing)
  | committed {commit files} : ToldIn (.committed commit files) (some .committing)
  | commitSkipped {head} : ToldIn (.commitSkipped head) (some .committing)
  | published {deployment url} : ToldIn (.published deployment url) (some .publishing)

theorem ToldIn.phase?_eq {e : DeployEvent} {p : Option Phase} (h : ToldIn e p) : e.phase? = none := by
  cases h <;> rfl

theorem ToldIn.unique {e : DeployEvent} {p q : Option Phase} (h : ToldIn e p) (h' : ToldIn e q) :
    p = q := by
  cases h <;> cases h' <;> rfl

theorem ToldIn.isTerminal_eq {e : DeployEvent} {p : Option Phase} (h : ToldIn e p) :
    e.isTerminal = false := by
  cases h <;> rfl

end DeployEvent

/-- Whatever these events report, the second does not report of an earlier phase. -/
def DeployEvent.InOrder (e later : DeployEvent) : Prop :=
  ∀ before after : Phase, e.ToldIn (some before) → later.ToldIn (some after) →
    before.rank ≤ after.rank

open DeployEvent

/-- A stream without an end: the phase before it, the events, and the phase after it. -/
inductive Walks : Option Phase → List DeployEvent → Option Phase → Prop
  | still (p : Option Phase) : Walks p [] p
  | report {p q : Option Phase} {e : DeployEvent} {events : List DeployEvent} (here : e.ToldIn p)
      (rest : Walks p events q) : Walks p (e :: events) q
  | enter {p r : Option Phase} {q : Phase} {events : List DeployEvent}
      (legal : ∀ before ∈ p, before.canAdvanceTo q = true) (rest : Walks (some q) events r) :
      Walks p (.entered q :: events) r

namespace Walks

variable {p q r : Option Phase} {front back events : List DeployEvent}

theorem append (h : Walks p front q) (h' : Walks q back r) : Walks p (front ++ back) r := by
  induction h with
  | still p => exact h'
  | report here rest ih => exact .report here (ih h')
  | enter legal rest ih => exact .enter legal (ih h')

theorem reports (here : ∀ e ∈ events, e.ToldIn p) : Walks p events p := by
  induction events with
  | nil => exact .still p
  | cons e events ih =>
    obtain ⟨first, others⟩ := List.forall_mem_cons.mp here
    exact .report first (ih others)

theorem step {before after : Phase} (h : Walks p events (some before))
    (legal : before.canAdvanceTo after = true) :
    Walks p (events ++ [.entered after]) (some after) :=
  h.append (.enter (fun _ hb => Option.some.inj hb ▸ legal) (.still _))

theorem legal (h : Walks p events q) :
    (p.toList ++ phases events).IsChain fun before after => before.canAdvanceTo after = true := by
  induction h with
  | still p => cases p <;> simp [phases]
  | @report p q e events here rest ih => rwa [phases_cons here.phase?_eq]
  | @enter p r q events legal rest ih =>
    rw [phases_entered]
    cases p with
    | none => exact ih
    | some before => exact .cons_cons (legal before rfl) ih

theorem last_phase (h : Walks p events q) : (p.toList ++ phases events).getLast? = q := by
  induction h with
  | still p => cases p <;> rfl
  | @report p q e events here rest ih => rwa [phases_cons here.phase?_eq]
  | @enter p r q events legal rest ih =>
    rw [phases_entered, List.getLast?_append_cons]
    exact ih

theorem open_ended (h : Walks p events q) : ∀ e ∈ events, e.isTerminal = false := by
  induction h with
  | still p => exact fun e he => nomatch he
  | report here rest ih => exact List.forall_mem_cons.mpr ⟨here.isTerminal_eq, ih⟩
  | enter legal rest ih => exact List.forall_mem_cons.mpr ⟨rfl, ih⟩

theorem rank_reached {before after : Phase} (h : Walks (some before) events (some after)) :
    before.rank ≤ after.rank := by
  generalize hp : some before = p, hq : some after = q at h
  induction h generalizing before with
  | still p =>
    cases hp
    cases hq
    exact le_rfl
  | report here rest ih => exact ih hp hq
  | enter legal rest ih =>
    exact (Phase.rank_lt_of_canAdvanceTo (legal before hp.symm)).le.trans (ih rfl hq)

theorem rank_le {before after : Phase} {e : DeployEvent} (h : Walks (some before) events q)
    (mem : e ∈ events) (here : e.ToldIn (some after)) : before.rank ≤ after.rank := by
  generalize hp : some before = p at h
  induction h generalizing before with
  | still p => cases mem
  | report there rest ih =>
    rcases List.mem_cons.mp mem with rfl | mem
    · cases hp.trans (there.unique here)
      exact le_rfl
    · exact ih mem hp
  | enter legal rest ih =>
    rcases List.mem_cons.mp mem with rfl | mem
    · cases here
    · exact (Phase.rank_lt_of_canAdvanceTo (legal before hp.symm)).le.trans (ih mem rfl)

theorem rank_ge {before after : Phase} {e : DeployEvent} (h : Walks p events (some after))
    (mem : e ∈ events) (here : e.ToldIn (some before)) : before.rank ≤ after.rank := by
  generalize hq : some after = q at h
  induction h with
  | still p => cases mem
  | report there rest ih =>
    subst hq
    rcases List.mem_cons.mp mem with rfl | mem
    · cases there.unique here
      exact rest.rank_reached
    · exact ih mem rfl
  | enter legal rest ih =>
    rcases List.mem_cons.mp mem with rfl | mem
    · cases here
    · exact ih mem hq

theorem ordered (h : Walks p events q) : events.Pairwise InOrder := by
  induction h with
  | still p => exact .nil
  | report here rest ih =>
    refine .cons (fun later mem before after told_before told_after => ?_) ih
    rw [here.unique told_before] at rest
    exact rest.rank_le mem told_after
  | enter legal rest ih => exact .cons (fun _ _ _ _ told _ => nomatch told) ih

end Walks

/-- A stream that a call with this result may give: the phases begin with the first and follow each
other legally, reports come in the order of their phases, and the only terminal event is the last and
says how the call ended. -/
structure Conducted {α : Type} (first : Phase) (result : Except DeployError α)
    (events : List DeployEvent) : Prop where
  begins : (phases events).head? = some first
  legal : (phases events).IsChain fun before after => before.canAdvanceTo after = true
  ordered : events.Pairwise InOrder
  ends : ∃ front last, events = front ++ [last] ∧ last.isTerminal = true ∧
    ∀ e ∈ front, e.isTerminal = false
  completed : ∀ a, result = .ok a →
    ∃ commit deployment dryRun, events.getLast? = some (.completed commit deployment dryRun)
  failed : ∀ e, result = .error e → events.getLast? = some (.failed e.phase e.cause.message) ∧
    (phases events).getLast? = some e.phase ∧ e.phase.canAdvanceTo .failed = true

namespace Conducted

variable {α : Type} {first : Phase} {result : Except DeployError α} {events : List DeployEvent}

theorem told (h : Conducted first result events) (detailed : Bool) :
    Conducted first result (DeployEvent.told detailed events) := by
  obtain ⟨front, last, rfl, terminal, open_ended⟩ := h.ends
  have plain : last.isDetail = false := by cases last <;> first | rfl | cases terminal
  have cut : DeployEvent.told detailed (front ++ [last]) =
      DeployEvent.told detailed front ++ [last] := by
    rw [told_append, told_of_plain (List.forall_mem_singleton.mpr plain)]
  have same : (DeployEvent.told detailed (front ++ [last])).getLast? =
      (front ++ [last]).getLast? := by
    rw [cut, List.getLast?_concat, List.getLast?_concat]
  exact
    { begins := by rw [phases_told]; exact h.begins
      legal := by rw [phases_told]; exact h.legal
      ordered := h.ordered.filter _
      ends := ⟨_, last, cut, terminal, fun e he => open_ended e (List.mem_filter.mp he).1⟩
      completed := same ▸ h.completed
      failed := by rw [same, phases_told]; exact h.failed }

variable {p : Phase}

theorem phases_concat {last : DeployEvent} (terminal : last.isTerminal = true) :
    phases (events ++ [last]) = phases events := by
  have none : last.phase? = none := by cases last <;> first | rfl | cases terminal
  rw [phases, List.filterMap_append, List.filterMap_cons_none none, List.filterMap_nil,
    List.append_nil, phases]

theorem ordered_concat {q : Option Phase} {last : DeployEvent} (walk : Walks none events q)
    (terminal : last.isTerminal = true) : (events ++ [last]).Pairwise InOrder := by
  refine List.pairwise_append.mpr ⟨walk.ordered, List.pairwise_singleton _ _, ?_⟩
  rintro e he later mem before after told_before told_after
  rw [List.mem_singleton.mp mem] at told_after
  rw [told_after.isTerminal_eq] at terminal
  cases terminal

theorem of_error {f : Fault} {run : Run} (walk : Walks none events (some f.phase))
    (begins : (phases events).head? = some first) (live : f.phase.canAdvanceTo .failed = true) :
    @Conducted α first (.error ⟨f.phase, run.branch, run.dryRun, f.commit, f.cause⟩)
      (events ++ [.failed f.phase f.cause.message]) where
  begins := by rwa [phases_concat rfl]
  legal := by rw [phases_concat rfl]; exact walk.legal
  ordered := ordered_concat walk rfl
  ends := ⟨events, _, rfl, rfl, walk.open_ended⟩
  completed := nofun
  failed := by
    rintro e ⟨⟩
    exact ⟨List.getLast?_concat, by rw [phases_concat rfl]; exact walk.last_phase, live⟩

theorem of_ok {a : α} {commit deployment : Option String} {dryRun : Bool}
    (walk : Walks none events (some p)) (begins : (phases events).head? = some first)
    (done : p.canAdvanceTo .succeeded = true) :
    Conducted first (.ok a)
      (events ++ [.entered .succeeded, .completed commit deployment dryRun]) := by
  have walk := walk.step done
  rw [List.append_cons]
  exact
    { begins := by
        rw [phases_concat rfl, phases, List.filterMap_append, List.head?_append, ← phases, begins]
        rfl
      legal := by rw [phases_concat rfl]; exact walk.legal
      ordered := ordered_concat walk rfl
      ends := ⟨_, _, rfl, rfl, walk.open_ended⟩
      completed := fun _ _ => ⟨commit, deployment, dryRun, List.getLast?_concat⟩
      failed := by
        rintro e ⟨⟩ }

end Conducted

theorem Pipeline.prepare_walks (p : Pipeline) (target : Target) (document : Document)
    (overrides : SeoOverrides) (project : Except ProjectError (List Candidate)) :
    Walks (some .generating) (p.prepare target document overrides project).2
      (match (p.prepare target document overrides project).1 with
      | .error (phase, _) => some phase
      | .ok _ => some .filtering) := by
  have filtering {files : Nat} :
      Walks (some .generating) [.generated files, .entered .filtering] (some .filtering) :=
    (Walks.reports (List.forall_mem_singleton.mpr .generated)).step rfl
  unfold prepare
  split
  · exact .still _
  · dsimp only
    split
    · exact filtering
    · split
      · exact filtering
      · refine filtering.append (.reports fun e he => ?_)
        rcases List.mem_append.mp he with he | he
        · obtain ⟨f, -, rfl⟩ := List.mem_map.mp he
          exact .fileExcluded
        · obtain rfl := List.mem_singleton.mp he
          exact .filtered

namespace Deployer

variable {σ : Type} {d : Deployer σ} {s : σ}

theorem CommitEnds.walks {branch message : String} {plan : CommitPlan}
    {out : Except RemoteError Committed × List DeployEvent × σ}
    (h : CommitEnds d branch message plan s out) :
    Walks (some .committing) (planned plan :: out.2.1) (some .committing) := by
  refine .report .planned ?_
  cases h with
  | skipped noop => exact .report .commitSkipped (.still _)
  | refused noop write => exact .still _
  | made noop write => exact .report .committed (.still _)

theorem PublishEnds.walks {target : Target} {branch : String} {head : Option String}
    {out : Except DeployFailure Deployment × List DeployEvent × σ}
    (h : PublishEnds d target branch head s out) :
    Walks (some .publishing) out.2.1 (some .publishing) := by
  cases h with
  | homeless unset => exact .still _
  | refused home ask => exact .still _
  | made home ask => exact .report .published (.still _)

variable {document : Document} {options : DeployOptions} {branch : String} {prepared : Prepared}

def shipPhase : Except Fault (Committed × Deployment) → Phase
  | .error f => f.phase
  | .ok _ => .publishing

theorem ShipEnds.walks {out : Except Fault (Committed × Deployment) × List DeployEvent × σ}
    (h : ShipEnds d document options branch prepared s out) :
    Walks (some .committing) out.2.1 (some (shipPhase out.1)) := by
  cases h with
  | unread read => exact .still _
  | uncommitted read planned commit => exact commit.walks
  | unpublished read planned commit publish =>
    exact (commit.walks.step rfl).append publish.walks
  | done read planned commit publish => exact (commit.walks.step rfl).append publish.walks

theorem LockedEnds.walks {out : Except Fault (Committed × Deployment) × List DeployEvent × σ}
    (h : LockedEnds d document options branch prepared s out) :
    Walks (some .committing) out.2.1 (some (shipPhase out.1)) := by
  cases h with
  | barred lock => exact .still _
  | shipped lock ship => exact ship.walks

theorem opening_walks (document : Document) (options : DeployOptions) (branch : String) :
    Walks none (opening document options branch) (some .generating) :=
  .report .started (.enter nofun (.still _))

theorem ExecuteEnds.conducted {project : Except ProjectError (List Candidate)}
    {out : Outcome σ DeployResult} (h : ExecuteEnds d document options project branch s out) :
    Conducted .generating out.result out.events := by
  have start := opening_walks document options branch
  have walk := start.append
    (d.pipeline.prepare_walks options.target document options.overrides project)
  cases h with
  | disowned own => exact .of_error start rfl rfl
  | @unprepared phase e events own prepare =>
    rw [prepare] at walk
    have early := Pipeline.prepare_error_cases (congrArg Prod.fst prepare)
    refine .of_error walk rfl ?_
    rcases early with ⟨rfl, -⟩ | ⟨rfl, -⟩ <;> rfl
  | rehearsed own prepare dry =>
    rw [prepare] at walk
    exact .of_ok walk rfl rfl
  | failed own prepare real ship =>
    rw [prepare] at walk
    have walk := walk.step (show Phase.canAdvanceTo .filtering .committing = true from rfl)
    refine .of_error (walk.append ship.walks) rfl ?_
    rcases ship.phase_of_error with late | late <;> rw [late] <;> rfl
  | done own prepare real ship =>
    rw [prepare] at walk
    have walk := walk.step (show Phase.canAdvanceTo .filtering .committing = true from rfl)
    exact .of_ok (walk.append ship.walks) rfl rfl

theorem RepublishEnds.conducted {target : Target} {out : Outcome σ RepublishResult}
    (h : RepublishEnds d target branch s out) :
    Conducted .publishing out.result out.events := by
  have start : Walks none [.entered .publishing] (some .publishing) := .enter nofun (.still _)
  cases h with
  | disowned own => exact .of_error start rfl rfl
  | barred own lock => exact .of_error start rfl rfl
  | unpublished own lock publish => exact .of_error (start.append publish.walks) rfl rfl
  | done own lock publish => exact .of_ok (start.append publish.walks) rfl rfl

end Deployer

end SitePublish
