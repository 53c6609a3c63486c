import SitePublish.Proofs.Deploy.Refinement
import SitePublish.Proofs.Deploy.Rehearsal
import SitePublish.Proofs.Deploy.Stream

/-!
# What a stream tells of commits and exclusions

Services that note every attempt to commit answer as they did before, so the attempts of a deployment
can be held against what it tells: it tells the sizes of the plan before the only attempt, and of a
commit just when one was made. Right before it tells that filtering is done, it lists what the filter
leaves out to those who want details.
-/

set_option autoImplicit false

namespace SitePublish

structure Attempt where
  branch : String
  expected : Option String
  files : List FileWrite
  message : String
  answer : Except RemoteError CommitReceipt

def Attempt.made? (a : Attempt) : Option (String × Nat) :=
  match a.answer with
  | .ok receipt => some (receipt.id, a.files.length)
  | .error _ => none

theorem Attempt.made?_of_error {a : Attempt} {e : RemoteError} (answer : a.answer = .error e) :
    a.made? = none := by
  rw [made?, answer]

theorem Attempt.made?_of_ok {a : Attempt} {receipt : CommitReceipt} (answer : a.answer = .ok receipt) :
    a.made? = some (receipt.id, a.files.length) := by
  rw [made?, answer]

namespace Services

variable {σ : Type}

/-- Services that keep in their state which attempts were made. -/
structure Records (v : Services σ) (log : σ → List Attempt) : Prop where
  snapshot : ∀ branch s, log (v.snapshot branch s).2 = log s
  write : ∀ branch expected files message s,
    log (v.write branch expected files message s).2 =
      log s ++ [⟨branch, expected, files, message, (v.write branch expected files message s).1⟩]
  publish : ∀ request s, log (v.publish request s).2 = log s
  lock : ∀ branch s, log (v.lock branch s).2 = log s
  unlock : ∀ branch s, log (v.unlock branch s) = log s

def recorded (v : Services σ) : Services (List Attempt × σ) where
  snapshot branch s :=
    let (result, t) := v.snapshot branch s.2
    (result, s.1, t)
  write branch expected files message s :=
    let (result, t) := v.write branch expected files message s.2
    (result, s.1 ++ [⟨branch, expected, files, message, result⟩], t)
  publish request s :=
    let (result, t) := v.publish request s.2
    (result, s.1, t)
  provision repo domain s :=
    let (result, t) := v.provision repo domain s.2
    (result, s.1, t)
  lock branch s :=
    let (result, t) := v.lock branch s.2
    (result, s.1, t)
  unlock branch s := (s.1, v.unlock branch s.2)

theorem recorded_refines (v : Services σ) : v.recorded.Refines v Prod.snd where
  snapshot _ _ := rfl
  write _ _ _ _ _ := rfl
  publish _ _ := rfl
  provision _ _ _ := rfl
  lock _ _ := rfl
  unlock _ _ := rfl

theorem recorded_records (v : Services σ) : v.recorded.Records Prod.fst where
  snapshot _ _ := rfl
  write _ _ _ _ _ := rfl
  publish _ _ := rfl
  lock _ _ := rfl
  unlock _ _ := rfl

end Services

namespace DeployEvent

def commit? : DeployEvent → Option (String × Nat)
  | .committed commit files => some (commit, files)
  | _ => none

def isPublication : DeployEvent → Bool
  | .published _ _ => true
  | _ => false

def isAccount : DeployEvent → Bool
  | .planned _ _ _ | .committed _ _ | .commitSkipped _ => true
  | _ => false

def isVerdict : DeployEvent → Bool
  | .fileExcluded _ _ _ | .filtered _ _ _ => true
  | _ => false

theorem toldIn_of_isAccount {e : DeployEvent} (h : e.isAccount = true) :
    e.ToldIn (some .committing) := by
  cases e <;> first | constructor | cases h

theorem toldIn_of_isPublication {e : DeployEvent} (h : e.isPublication = true) :
    e.ToldIn (some .publishing) := by
  cases e <;> first | constructor | cases h

theorem toldIn_of_commit? {e : DeployEvent} {c : String × Nat} (h : e.commit? = some c) :
    e.ToldIn (some .committing) := by
  cases e <;> first | constructor | cases h

theorem toldIn_of_isVerdict {e : DeployEvent} (h : e.isVerdict = true) :
    e.ToldIn (some .filtering) := by
  cases e <;> first | constructor | cases h

end DeployEvent

open DeployEvent (told commit? isAccount isVerdict toldIn_of_isAccount toldIn_of_isVerdict)

/-- The numbers told of a plan are those of the files that it writes and of those that it skips. -/
structure Counts (retained : Nat) (files : List FileWrite) (writes skips deletions : Nat) : Prop where
  all : writes + skips = retained
  puts : writes = files.countP fun w => !w.isDelete
  deletes : deletions = files.countP FileWrite.isDelete

theorem CommitPlan.counts_ofSnapshot (files : List Candidate) (snapshot : Option Snapshot)
    (owned : SitePath → Bool) :
    let plan := ofSnapshot files snapshot owned
    Counts files.length plan.writes plan.writeCount plan.skipCount plan.deleteCount where
  all := by
    rw [writeCount, toWrite_ofSnapshot, List.length_map, ← List.countP_eq_length_filter,
      skipCount_ofSnapshot, List.length_eq_countP_add_countP (Candidate.differs (blobsOf snapshot))]
    simp
  puts := by simp [writes, writeCount, PlannedFile.write, FileWrite.isDelete, Function.comp_def]
  deletes := by simp [writes, deleteCount, PlannedFile.write, FileWrite.isDelete, Function.comp_def]

/-- What is told of committing, beside the attempts and the commit that was made. -/
inductive Account (retained : Nat) : List DeployEvent → List Attempt → Option String → Prop
  | nothing : Account retained [] [] none
  | idle {writes skips deletions : Nat} {head : Option String}
      (counts : Counts retained [] writes skips deletions) :
      Account retained [.planned writes skips deletions, .commitSkipped head] [] none
  | refused {writes skips deletions : Nat} {a : Attempt} {e : RemoteError}
      (counts : Counts retained a.files writes skips deletions) (answer : a.answer = .error e) :
      Account retained [.planned writes skips deletions] [a] none
  | made {writes skips deletions : Nat} {a : Attempt} {receipt : CommitReceipt}
      (counts : Counts retained a.files writes skips deletions) (answer : a.answer = .ok receipt) :
      Account retained
        [.planned writes skips deletions, .committed receipt.id a.files.length] [a]
        (some receipt.id)

namespace Account

variable {retained : Nat} {told : List DeployEvent} {attempts : List Attempt}
  {commit : Option String} (h : Account retained told attempts commit)
include h

theorem once : attempts.length ≤ 1 := by
  cases h <;> simp

theorem committed : told.filterMap commit? = attempts.filterMap Attempt.made? := by
  cases h with
  | nothing => rfl
  | idle counts => rfl
  | refused counts answer =>
    rw [List.filterMap_cons_none (Attempt.made?_of_error answer)]
    rfl
  | made counts answer =>
    rw [List.filterMap_cons_some (Attempt.made?_of_ok answer)]
    rfl

theorem named : commit.toList = (told.filterMap commit?).map Prod.fst := by
  cases h <;> rfl

theorem filter_eq : told.filter isAccount = told := by
  cases h <;> rfl

theorem announced (tried : attempts ≠ []) :
    ∃ writes skips deletions, .planned writes skips deletions ∈ told := by
  cases h with
  | nothing => exact absurd rfl tried
  | idle counts => exact absurd rfl tried
  | refused counts answer => exact ⟨_, _, _, List.mem_cons_self⟩
  | made counts answer => exact ⟨_, _, _, List.mem_cons_self⟩

theorem planned {writes skips deletions : Nat} (mem : .planned writes skips deletions ∈ told) :
    Counts retained (attempts.flatMap Attempt.files) writes skips deletions := by
  cases h with
  | nothing => cases mem
  | idle counts =>
    rcases List.mem_cons.mp mem with same | mem
    · cases same
      exact counts
    · cases List.mem_singleton.mp mem
  | refused counts answer =>
    cases List.mem_singleton.mp mem
    rwa [List.flatMap_singleton]
  | made counts answer =>
    rcases List.mem_cons.mp mem with same | mem
    · cases same
      rwa [List.flatMap_singleton]
    · cases List.mem_singleton.mp mem

end Account

/-- What a stream says of the attempts, with the number of files if they were selected. -/
structure Accounted (retained : Option Nat) (attempts : List Attempt) (commit : Option String)
    (events : List DeployEvent) : Prop where
  once : attempts.length ≤ 1
  committed : events.filterMap commit? = attempts.filterMap Attempt.made?
  named : commit.toList = (events.filterMap commit?).map Prod.fst
  first : events.Pairwise fun e later => e.isPublication = true → later.commit? = none
  announced : attempts ≠ [] →
    ∃ writes skips deletions, .planned writes skips deletions ∈ events
  planned : ∀ writes skips deletions, .planned writes skips deletions ∈ events →
    ∃ n ∈ retained, Counts n (attempts.flatMap Attempt.files) writes skips deletions

theorem Conducted.commit_first {α : Type} {first : Phase} {result : Except DeployError α}
    {events : List DeployEvent} (h : Conducted first result events) :
    events.Pairwise fun e later => e.isPublication = true → later.commit? = none := by
  refine h.ordered.imp fun ordered publication => Option.eq_none_iff_forall_ne_some.mpr ?_
  intro c commit
  have late := ordered _ _ (DeployEvent.toldIn_of_isPublication publication)
    (DeployEvent.toldIn_of_commit? commit)
  exact absurd late (by decide)

theorem DeployEvent.filterMap_commit? (events : List DeployEvent) :
    events.filterMap commit? = (events.filter isAccount).filterMap commit? := by
  rw [List.filterMap_filter]
  congr 1
  funext e
  cases e <;> rfl

namespace Accounted

variable {α : Type} {start : Phase} {result : Except DeployError α} {retained : Option Nat}
  {attempts : List Attempt} {commit : Option String} {events : List DeployEvent}
  (conducted : Conducted start result events)
include conducted

theorem of_account {n : Nat} (h : Account n (events.filter isAccount) attempts commit)
    (selected : retained = some n) : Accounted retained attempts commit events where
  once := h.once
  committed := (DeployEvent.filterMap_commit? events).trans h.committed
  named := DeployEvent.filterMap_commit? events ▸ h.named
  first := conducted.commit_first
  announced tried :=
    let ⟨writes, skips, deletions, mem⟩ := h.announced tried
    ⟨writes, skips, deletions, (List.mem_filter.mp mem).1⟩
  planned _ _ _ mem := ⟨n, selected, h.planned (List.mem_filter.mpr ⟨mem, rfl⟩)⟩

theorem of_silent (silent : events.filter isAccount = []) : Accounted retained [] none events where
  once := Nat.zero_le 1
  committed := by rw [DeployEvent.filterMap_commit?, silent]; rfl
  named := by rw [DeployEvent.filterMap_commit?, silent]; rfl
  first := conducted.commit_first
  announced tried := absurd rfl tried
  planned _ _ _ mem := by cases silent ▸ List.mem_filter.mpr ⟨mem, rfl⟩

omit conducted

theorem told (h : Accounted retained attempts commit events) (detailed : Bool) :
    Accounted retained attempts commit (DeployEvent.told detailed events) := by
  have same : (DeployEvent.told detailed events).filterMap commit? = events.filterMap commit? :=
    DeployEvent.filterMap_told fun e he => by cases e <;> first | rfl | cases he
  have mem {writes skips deletions : Nat} :
      .planned writes skips deletions ∈ DeployEvent.told detailed events ↔
        .planned writes skips deletions ∈ events := DeployEvent.mem_told rfl
  exact
    { once := h.once
      committed := same.trans h.committed
      named := same ▸ h.named
      first := h.first.filter _
      announced := fun tried => by simpa only [mem] using h.announced tried
      planned := fun _ _ _ planned => h.planned _ _ _ (mem.mp planned) }

end Accounted

/-- What a stream lists of a selection: the excluded files, if details are wanted, right before the
numbers. A selection that failed is not told of. -/
def Listed (detailed : Bool) (selection : Except (Phase × DeployFailure) Prepared)
    (events : List DeployEvent) : Prop :=
  match selection with
  | .error _ => ∀ e ∈ events, e.isVerdict = false
  | .ok prepared =>
    ∃ front back, events = front ++
        (if detailed then
          prepared.excluded.map fun f => .fileExcluded f.path f.rule f.reason else []) ++
        .filtered prepared.stats.included prepared.stats.excluded prepared.fingerprint.text ::
          back ∧
      ∀ e ∈ front ++ back, e.isVerdict = false

theorem Listed.told_of_error {detailed : Bool} {cause : Phase × DeployFailure}
    {events : List DeployEvent} (h : ∀ e ∈ events, e.isVerdict = false) :
    Listed detailed (.error cause) (told detailed events) :=
  fun e he => h e (List.mem_filter.mp he).1

theorem Listed.told_of_ok {detailed : Bool} {prepared : Prepared} {front back : List DeployEvent}
    (h : ∀ e ∈ front ++ back, e.isVerdict = false) :
    Listed detailed (.ok prepared) (told detailed (front ++ prepared.events ++ back)) := by
  refine ⟨told detailed front, told detailed back, ?_, fun e he => ?_⟩
  · rw [DeployEvent.told_append, DeployEvent.told_append, Prepared.events,
      DeployEvent.told_append, List.append_assoc, List.append_assoc, List.append_assoc]
    congr 1
    cases detailed <;> simp [told, DeployEvent.isDetail]
  · rw [← DeployEvent.told_append] at he
    exact h e (List.mem_filter.mp he).1

theorem Pipeline.prepare_events {p : Pipeline} {target : Target} {document : Document}
    {overrides : SeoOverrides} {project : Except ProjectError (List Candidate)}
    {prepared : Prepared} {events : List DeployEvent}
    (h : p.prepare target document overrides project = (.ok prepared, events)) :
    ∃ files, events = [.generated files, .entered .filtering] ++ prepared.events := by
  unfold prepare at h
  split at h
  · cases h
  · cases project with
    | error cause => cases h
    | ok files =>
      dsimp only at h
      split at h
      · cases h
      · cases h
        exact ⟨_, rfl⟩

theorem Pipeline.prepare_silent {p : Pipeline} {target : Target} {document : Document}
    {overrides : SeoOverrides} {project : Except ProjectError (List Candidate)}
    {phase : Phase} {cause : DeployFailure} {events : List DeployEvent}
    (h : p.prepare target document overrides project = (.error (phase, cause), events)) :
    ∀ e ∈ events, e.isVerdict = false := by
  unfold prepare at h
  split at h
  · cases h
    exact nofun
  · cases project with
    | error cause =>
      cases h
      simp [isVerdict]
    | ok files =>
      dsimp only at h
      split at h
      · cases h
        simp [isVerdict]
      · cases h

theorem Pipeline.prepare_unaccounted (p : Pipeline) (target : Target) (document : Document)
    (overrides : SeoOverrides) (project : Except ProjectError (List Candidate)) :
    (p.prepare target document overrides project).2.filter isAccount = [] := by
  refine List.filter_eq_nil_iff.mpr fun e he account => ?_
  have walk := p.prepare_walks target document overrides project
  have told := toldIn_of_isAccount account
  split at walk
  · next phase cause failed =>
    have early := walk.rank_ge he told
    rcases prepare_error_cases failed with ⟨rfl, -⟩ | ⟨rfl, -⟩ <;> exact absurd early (by decide)
  · exact absurd (walk.rank_ge he told) (by decide)

namespace Deployer

variable {σ : Type} {d : Deployer σ} {document : Document} {options : DeployOptions}
  {branch : String} {prepared : Prepared} {s : σ}

def shippedCommit : Except Fault (Committed × Deployment) → Option String
  | .error f => f.commit
  | .ok (committed, _) => committed.commitId

section Recording

variable {log : σ → List Attempt} (hr : d.services.Records log)
include hr

theorem CommitEnds.account {message : String} {snapshot : Option Snapshot} {plan : CommitPlan}
    {out : Except RemoteError Committed × List DeployEvent × σ}
    (h : CommitEnds d branch message plan s out) (planned_eq : plan = d.planFor prepared snapshot) :
    ∃ attempts, log out.2.2 = log s ++ attempts ∧
      Account prepared.retained.length (planned plan :: out.2.1) attempts
        (match out.1 with
        | .error _ => none
        | .ok committed => committed.commitId) := by
  have counts : Counts prepared.retained.length plan.writes plan.writeCount plan.skipCount
      plan.deleteCount := planned_eq ▸ CommitPlan.counts_ofSnapshot _ _ _
  have hw := hr.write branch plan.base plan.writes message s
  cases h with
  | skipped noop =>
    rw [CommitPlan.writes_of_isNoop noop] at counts
    exact ⟨[], (List.append_nil _).symm, .idle counts⟩
  | refused noop write =>
    rw [write] at hw
    exact ⟨_, hw, .refused counts rfl⟩
  | @made receipt t noop write =>
    rw [write] at hw
    exact ⟨_, hw, .made (a := ⟨branch, plan.base, plan.writes, message, .ok receipt⟩) counts rfl⟩

theorem PublishEnds.unaccounted {target : Target} {head : Option String}
    {out : Except DeployFailure Deployment × List DeployEvent × σ}
    (h : PublishEnds d target branch head s out) :
    log out.2.2 = log s ∧ out.2.1.filter isAccount = [] := by
  refine ⟨h.keeps log hr.publish, List.filter_eq_nil_iff.mpr fun e he account => ?_⟩
  have late := h.walks.rank_le he (toldIn_of_isAccount account)
  exact absurd late (by decide)

theorem ShipEnds.account {out : Except Fault (Committed × Deployment) × List DeployEvent × σ}
    (h : ShipEnds d document options branch prepared s out) :
    ∃ attempts, log out.2.2 = log s ++ attempts ∧
      Account prepared.retained.length (out.2.1.filter isAccount) attempts
        (shippedCommit out.1) := by
  have read_only := hr.snapshot branch s
  cases h with
  | unread read =>
    rw [read] at read_only
    exact ⟨[], by rw [List.append_nil, read_only], .nothing⟩
  | uncommitted read planned_eq commit =>
    rw [read] at read_only
    obtain ⟨attempts, tried, account⟩ := commit.account hr planned_eq
    exact ⟨attempts, read_only ▸ tried, account.filter_eq.symm ▸ account⟩
  | unpublished read planned_eq commit publish =>
    rw [read] at read_only
    obtain ⟨attempts, tried, account⟩ := commit.account hr planned_eq
    obtain ⟨same, silent⟩ := publish.unaccounted hr
    refine ⟨attempts, by rw [same, tried, read_only], ?_⟩
    rw [List.filter_append, List.filter_append, account.filter_eq, silent, List.append_nil]
    exact (List.append_nil _).symm ▸ account
  | done read planned_eq commit publish =>
    rw [read] at read_only
    obtain ⟨attempts, tried, account⟩ := commit.account hr planned_eq
    obtain ⟨same, silent⟩ := publish.unaccounted hr
    refine ⟨attempts, by rw [same, tried, read_only], ?_⟩
    rw [List.filter_append, List.filter_append, account.filter_eq, silent, List.append_nil]
    exact (List.append_nil _).symm ▸ account

theorem LockedEnds.account {out : Except Fault (Committed × Deployment) × List DeployEvent × σ}
    (h : LockedEnds d document options branch prepared s out) :
    ∃ attempts, log out.2.2 = log s ++ attempts ∧
      Account prepared.retained.length (out.2.1.filter isAccount) attempts
        (shippedCommit out.1) := by
  have taken := hr.lock branch s
  cases h with
  | barred lock =>
    rw [lock] at taken
    exact ⟨[], by rw [List.append_nil, taken], .nothing⟩
  | shipped lock ship =>
    rw [lock] at taken
    obtain ⟨attempts, tried, account⟩ := ship.account hr
    exact ⟨attempts, by rw [hr.unlock, tried, taken], account⟩

end Recording

theorem LockedEnds.unlisted {out : Except Fault (Committed × Deployment) × List DeployEvent × σ}
    (h : LockedEnds d document options branch prepared s out) :
    ∀ e ∈ out.2.1, e.isVerdict = false := by
  intro e he
  rw [← Bool.not_eq_true]
  intro verdict
  exact absurd (h.walks.rank_le he (toldIn_of_isVerdict verdict)) (by decide)

variable {project : Except ProjectError (List Candidate)}

theorem listed_of_prepared {events back : List DeployEvent}
    (prepare : d.pipeline.prepare options.target document options.overrides project =
      (.ok prepared, events)) (late : ∀ e ∈ back, e.isVerdict = false) (detailed : Bool) :
    Listed detailed (.ok prepared)
      (told detailed (opening document options branch ++ events ++ back)) := by
  obtain ⟨files, rfl⟩ := Pipeline.prepare_events prepare
  rw [← List.append_assoc]
  refine .told_of_ok fun e he => ?_
  rcases List.mem_append.mp he with early | he
  · simp only [opening, List.cons_append, List.nil_append, List.mem_cons, List.not_mem_nil,
      or_false] at early
    rcases early with rfl | rfl | rfl | rfl <;> rfl
  · exact late e he

theorem ExecuteEnds.listed {out : Outcome σ DeployResult}
    (h : ExecuteEnds d document options project (d.branchFor options) s out) (detailed : Bool) :
    Listed detailed (d.rehearsal document options project) (told detailed out.events) := by
  cases h with
  | disowned own =>
    rw [rehearsal_eq_error.mpr (Or.inl ⟨own, rfl⟩)]
    exact .told_of_error (by simp [Run.fail, opening, isVerdict])
  | @unprepared phase cause events own prepare =>
    rw [rehearsal_eq_error.mpr (Or.inr ⟨own, events, prepare⟩)]
    have silent := Pipeline.prepare_silent prepare
    refine .told_of_error fun e he => ?_
    simp only [Run.fail, opening, List.mem_append, List.mem_cons, List.not_mem_nil,
      or_false] at he
    rcases he with ((rfl | rfl) | he) | rfl
    · rfl
    · rfl
    · exact silent e he
    · rfl
  | @rehearsed prepared events own prepare dry =>
    rw [rehearsal_eq_ok.mpr ⟨own, events, prepare⟩]
    exact listed_of_prepared prepare (by simp [isVerdict]) detailed
  | @failed prepared fault events more t own prepare real ship =>
    rw [rehearsal_eq_ok.mpr ⟨own, events, prepare⟩]
    have late := ship.unlisted
    dsimp only [Run.fail] at late ⊢
    rw [List.append_assoc, List.append_assoc]
    refine listed_of_prepared prepare (fun e he => ?_) detailed
    simp only [List.mem_append, List.mem_singleton] at he
    rcases he with rfl | he | rfl
    · rfl
    · exact late e he
    · rfl
  | @done prepared committed deployment events more t own prepare real ship =>
    rw [rehearsal_eq_ok.mpr ⟨own, events, prepare⟩]
    have late := ship.unlisted
    dsimp only at late ⊢
    rw [List.append_assoc, List.append_assoc]
    refine listed_of_prepared prepare (fun e he => ?_) detailed
    simp only [List.mem_append, List.mem_cons, List.not_mem_nil, or_false] at he
    rcases he with rfl | he | rfl | rfl
    · rfl
    · exact late e he
    · rfl
    · rfl

def commitOf : Except DeployError DeployResult → Option String
  | .error e => e.commit
  | .ok r => r.commit.map CommitReceipt.id

def retainedCount (d : Deployer σ) (document : Document) (options : DeployOptions)
    (project : Except ProjectError (List Candidate)) : Option Nat :=
  (d.rehearsal document options project).toOption.map fun prepared => prepared.retained.length

theorem filter_opening {events : List DeployEvent} (silent : events.filter isAccount = [])
    (back : List DeployEvent) :
    (opening document options branch ++ events ++ back).filter isAccount =
      back.filter isAccount := by
  rw [List.filter_append, List.filter_append, silent]
  rfl

theorem ExecuteEnds.accounted {log : σ → List Attempt} (hr : d.services.Records log)
    {out : Outcome σ DeployResult}
    (h : ExecuteEnds d document options project (d.branchFor options) s out) :
    ∃ attempts, log out.state = log s ++ attempts ∧
      Accounted (d.retainedCount document options project) attempts (commitOf out.result)
        out.events := by
  have conducted := h.conducted
  have early := d.pipeline.prepare_unaccounted options.target document options.overrides project
  have nothing : log s = log s ++ [] := (List.append_nil _).symm
  cases h with
  | disowned own => exact ⟨[], nothing, .of_silent conducted rfl⟩
  | unprepared own prepare =>
    rw [prepare] at early
    exact ⟨[], nothing, .of_silent conducted (filter_opening early _)⟩
  | rehearsed own prepare dry =>
    rw [prepare] at early
    exact ⟨[], nothing, .of_silent conducted (filter_opening early _)⟩
  | @failed prepared fault events more t own prepare real ship =>
    rw [prepare] at early
    obtain ⟨attempts, tried, account⟩ := ship.account hr
    refine ⟨attempts, tried, .of_account conducted ?_ (by
      rw [retainedCount, rehearsal_eq_ok.mpr ⟨own, events, prepare⟩]; rfl)⟩
    dsimp only [Run.fail]
    rw [List.append_assoc, List.append_assoc, filter_opening early, List.filter_append,
      List.filter_append]
    exact (List.append_nil _).symm ▸ account
  | @done prepared committed deployment events more t own prepare real ship =>
    rw [prepare] at early
    obtain ⟨attempts, tried, account⟩ := ship.account hr
    refine ⟨attempts, tried, .of_account conducted ?_ (by
      rw [retainedCount, rehearsal_eq_ok.mpr ⟨own, events, prepare⟩]; rfl)⟩
    dsimp only
    rw [List.append_assoc, List.append_assoc, filter_opening early, List.filter_append,
      List.filter_append]
    exact (List.append_nil _).symm ▸ account

theorem RepublishEnds.accounted {log : σ → List Attempt} (hr : d.services.Records log)
    {target : Target} {out : Outcome σ RepublishResult} (h : RepublishEnds d target branch s out) :
    log out.state = log s ∧ Accounted none [] none out.events := by
  have conducted := h.conducted
  have taken := hr.lock branch s
  cases h with
  | disowned own => exact ⟨rfl, .of_silent conducted rfl⟩
  | barred own lock =>
    rw [lock] at taken
    exact ⟨taken, .of_silent conducted rfl⟩
  | unpublished own lock publish =>
    rw [lock] at taken
    obtain ⟨same, silent⟩ := publish.unaccounted hr
    refine ⟨(hr.unlock _ _).trans (same.trans taken), .of_silent conducted ?_⟩
    dsimp only [Run.fail] at silent ⊢
    rw [List.filter_append, List.filter_append, silent]
    rfl
  | done own lock publish =>
    rw [lock] at taken
    obtain ⟨same, silent⟩ := publish.unaccounted hr
    refine ⟨(hr.unlock _ _).trans (same.trans taken), .of_silent conducted ?_⟩
    dsimp only at silent ⊢
    rw [List.filter_append, List.filter_append, silent]
    rfl

theorem CommitEnds.writes_eq {message : String} {plan : CommitPlan} {c : Committed}
    {events : List DeployEvent} {t : σ}
    (h : CommitEnds d branch message plan s (.ok c, events, t)) :
    c.plan = plan ∧ c.writes = plan.writes := by
  cases h with
  | skipped noop => exact ⟨rfl, (CommitPlan.writes_of_isNoop noop).symm⟩
  | made noop write => exact ⟨rfl, rfl⟩

/-- What a deployment that succeeds shows is what its stream told of the selection and the plan. -/
structure Shown (selection : Except (Phase × DeployFailure) Prepared) (events : List DeployEvent)
    (r : DeployResult) : Prop where
  selected : ∃ prepared, selection = .ok prepared ∧ r.excluded = prepared.excluded ∧
    r.files = prepared.retained.map fun c => c.path.text
  planned : r.dryRun = false →
    .planned r.written.length r.unchanged r.deleted.length ∈ events

theorem Shown.told {selection : Except (Phase × DeployFailure) Prepared}
    {events : List DeployEvent} {r : DeployResult} (h : Shown selection events r)
    (detailed : Bool) : Shown selection (DeployEvent.told detailed events) r where
  selected := h.selected
  planned real := (DeployEvent.mem_told rfl).mpr (h.planned real)

theorem LockedEnds.planned_of_ok {committed : Committed} {deployment : Deployment}
    {events : List DeployEvent} {t : σ}
    (h : LockedEnds d document options branch prepared s (.ok (committed, deployment), events, t)) :
    .planned (committed.writes.countP fun w => !w.isDelete) committed.plan.skipCount
      (committed.writes.countP FileWrite.isDelete) ∈ events := by
  cases h with
  | shipped lock ship =>
    cases ship with
    | @done snapshot plan _ _ _ _ _ _ _ read planned_eq commit publish =>
      obtain ⟨plan_eq, writes_eq⟩ := commit.writes_eq
      have counts : Counts prepared.retained.length plan.writes plan.writeCount plan.skipCount
          plan.deleteCount := planned_eq ▸ CommitPlan.counts_ofSnapshot _ _ _
      rw [writes_eq, plan_eq, ← counts.puts, ← counts.deletes]
      exact List.mem_cons_self

theorem ExecuteEnds.shown {out : Outcome σ DeployResult} {r : DeployResult}
    (h : ExecuteEnds d document options project (d.branchFor options) s out)
    (ok : out.result = .ok r) :
    Shown (d.rehearsal document options project) out.events r := by
  cases h with
  | disowned own => cases ok
  | unprepared own prepare => cases ok
  | rehearsed own prepare dry =>
    cases ok
    exact ⟨⟨_, rehearsal_eq_ok.mpr ⟨own, _, prepare⟩, rfl, rfl⟩, nofun⟩
  | failed own prepare real ship => cases ok
  | done own prepare real ship =>
    cases ok
    refine ⟨⟨_, rehearsal_eq_ok.mpr ⟨own, _, prepare⟩, rfl, rfl⟩, fun _ => ?_⟩
    have told := ship.planned_of_ok
    rw [List.countP_eq_length_filter, List.countP_eq_length_filter] at told
    dsimp only [resultOf]
    rw [List.length_map, List.length_map]
    exact List.mem_append_left _ (List.mem_append_right _ told)

/-- The stream of every deployment and publication, whatever services it runs on and whatever sink
receives it. -/
theorem stream_conducted (d : Deployer σ) (detailed : Bool) (s : σ) :
    (∀ document options project,
      let out := d.execute document options project s
      let recorded := (d.onto d.services.recorded).execute document options project ([], s)
      let events := told detailed out.events
      recorded.mapState Prod.snd = out ∧
      Conducted .generating out.result events ∧
      Accounted (d.retainedCount document options project) recorded.state.1 (commitOf out.result)
        events ∧
      Listed detailed (d.rehearsal document options project) events ∧
      ∀ r, out.result = .ok r → Shown (d.rehearsal document options project) events r) ∧
    ∀ target asked,
      let out := d.republish target asked s
      let recorded := (d.onto d.services.recorded).republish target asked ([], s)
      let events := told detailed out.events
      recorded.mapState Prod.snd = out ∧
      Conducted .publishing out.result events ∧
      Accounted none recorded.state.1 none events := by
  have records := d.services.recorded_records
  refine ⟨fun document options project => ?_, fun target asked => ?_⟩
  · intro out recorded events
    have same : recorded.mapState Prod.snd = out :=
      (execute_refines (d := d.onto d.services.recorded) d.services.recorded_refines document
        options project ([], s)).symm
    have ends : ExecuteEnds (d.onto d.services.recorded) document options project
        ((d.onto d.services.recorded).branchFor options) ([], s) recorded :=
      (d.onto d.services.recorded).execute_ends document options project ([], s)
    obtain ⟨attempts, tried, accounted⟩ := ends.accounted records
    have tried : recorded.state.1 = attempts := tried
    dsimp only [events]
    rw [← same, tried]
    exact ⟨rfl, ends.conducted.told detailed, accounted.told detailed, ends.listed detailed,
      fun r ok => (ends.shown ok).told detailed⟩
  · intro out recorded events
    have same : recorded.mapState Prod.snd = out :=
      (republish_refines (d := d.onto d.services.recorded) d.services.recorded_refines target asked
        ([], s)).symm
    have ends : RepublishEnds (d.onto d.services.recorded) target _ ([], s) recorded :=
      (d.onto d.services.recorded).republish_ends target asked ([], s)
    obtain ⟨tried, accounted⟩ := ends.accounted records
    have tried : recorded.state.1 = [] := tried
    dsimp only [events]
    rw [← same, tried]
    exact ⟨rfl, ends.conducted.told detailed, accounted.told detailed⟩

end Deployer

end SitePublish
