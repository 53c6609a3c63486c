import SitePublish.Deploy.Run

/-!
# How deployments end

The ways in which each stage of a deployment ends, over services of any kind: which calls were made
on them, in which order, what they answered and which state they left. A relation for each stage
lists them; the stage always ends in one of them. What a deployment does is read off these.
-/

set_option autoImplicit false

namespace SitePublish

namespace Deployer

variable {σ : Type}

def planFor (d : Deployer σ) (prepared : Prepared) (snapshot : Option Snapshot) : CommitPlan :=
  .ofSnapshot prepared.retained snapshot d.pipeline.generator.layout.owns

inductive CommitEnds (d : Deployer σ) (branch message : String) (plan : CommitPlan) (s : σ) :
    Except RemoteError Committed × List DeployEvent × σ → Prop
  | skipped (noop : plan.isNoop = true) :
      CommitEnds d branch message plan s (.ok ⟨plan, none⟩, [.commitSkipped plan.base], s)
  | refused {e : RemoteError} {t : σ} (noop : plan.isNoop = false)
      (write : d.services.write branch plan.base plan.writes message s = (.error e, t)) :
      CommitEnds d branch message plan s (.error e, [], t)
  | made {receipt : CommitReceipt} {t : σ} (noop : plan.isNoop = false)
      (write : d.services.write branch plan.base plan.writes message s = (.ok receipt, t)) :
      CommitEnds d branch message plan s
        (.ok ⟨plan, some receipt⟩, [.committed receipt.id plan.writes.length], t)

inductive PublishEnds (d : Deployer σ) (target : Target) (branch : String) (head : Option String)
    (s : σ) : Except DeployFailure Deployment × List DeployEvent × σ → Prop
  | homeless (unset : d.settings.hostingProject = none) :
      PublishEnds d target branch head s (.error .notBootstrapped, [], s)
  | refused {project : String} {e : HostingError} {t : σ}
      (home : d.settings.hostingProject = some project)
      (ask : d.services.publish ⟨project, d.settings.repo, branch, head, target⟩ s = (.error e, t)) :
      PublishEnds d target branch head s (.error (.hosting e), [], t)
  | made {project : String} {deployment : Deployment} {t : σ}
      (home : d.settings.hostingProject = some project)
      (ask : d.services.publish ⟨project, d.settings.repo, branch, head, target⟩ s =
        (.ok deployment, t)) :
      PublishEnds d target branch head s
        (.ok deployment, [.published deployment.id deployment.url], t)

inductive ShipEnds (d : Deployer σ) (document : Document) (options : DeployOptions)
    (branch : String) (prepared : Prepared) (s : σ) :
    Except Fault (Committed × Deployment) × List DeployEvent × σ → Prop
  | unread {e : RemoteError} {t : σ} (read : d.services.snapshot branch s = (.error e, t)) :
      ShipEnds d document options branch prepared s
        (.error ⟨.committing, none, .sourceControl e⟩, [], t)
  | uncommitted {snapshot : Option Snapshot} {plan : CommitPlan} {e : RemoteError}
      {events : List DeployEvent} {t u : σ}
      (read : d.services.snapshot branch s = (.ok snapshot, t))
      (planned : plan = d.planFor prepared snapshot)
      (commit : CommitEnds d branch (commitMessage document options plan) plan t
        (.error e, events, u)) :
      ShipEnds d document options branch prepared s
        (.error ⟨.committing, none, .sourceControl e⟩, Deployer.planned plan :: events, u)
  | unpublished {snapshot : Option Snapshot} {plan : CommitPlan} {committed : Committed}
      {e : DeployFailure} {events more : List DeployEvent} {t u v : σ}
      (read : d.services.snapshot branch s = (.ok snapshot, t))
      (planned : plan = d.planFor prepared snapshot)
      (commit : CommitEnds d branch (commitMessage document options plan) plan t
        (.ok committed, events, u))
      (publish : PublishEnds d options.target branch committed.head u (.error e, more, v)) :
      ShipEnds d document options branch prepared s
        (.error ⟨.publishing, committed.commitId, e⟩,
          Deployer.planned plan :: events ++ [.entered .publishing] ++ more, v)
  | done {snapshot : Option Snapshot} {plan : CommitPlan} {committed : Committed}
      {deployment : Deployment} {events more : List DeployEvent} {t u v : σ}
      (read : d.services.snapshot branch s = (.ok snapshot, t))
      (planned : plan = d.planFor prepared snapshot)
      (commit : CommitEnds d branch (commitMessage document options plan) plan t
        (.ok committed, events, u))
      (publish : PublishEnds d options.target branch committed.head u (.ok deployment, more, v)) :
      ShipEnds d document options branch prepared s
        (.ok (committed, deployment),
          Deployer.planned plan :: events ++ [.entered .publishing] ++ more, v)

inductive LockedEnds (d : Deployer σ) (document : Document) (options : DeployOptions)
    (branch : String) (prepared : Prepared) (s : σ) :
    Except Fault (Committed × Deployment) × List DeployEvent × σ → Prop
  | barred {e : LockError} {t : σ} (lock : d.services.lock branch s = (.error e, t)) :
      LockedEnds d document options branch prepared s (.error ⟨.committing, none, .lock e⟩, [], t)
  | shipped {result : Except Fault (Committed × Deployment)} {events : List DeployEvent} {t u : σ}
      (lock : d.services.lock branch s = (.ok (), t))
      (ship : ShipEnds d document options branch prepared t (result, events, u)) :
      LockedEnds d document options branch prepared s (result, events, d.services.unlock branch u)

def opening (document : Document) (options : DeployOptions) (branch : String) : List DeployEvent :=
  [.started options.target branch options.dryRun document.pages.length, .entered .generating]

inductive ExecuteEnds (d : Deployer σ) (document : Document) (options : DeployOptions)
    (project : Except ProjectError (List Candidate)) (branch : String) (s : σ) :
    Outcome σ DeployResult → Prop
  | disowned {e : DeployFailure}
      (own : d.settings.checkOwnership options.target branch = .error e) :
      ExecuteEnds d document options project branch s
        ((⟨branch, options.dryRun⟩ : Run).fail ⟨.generating, none, e⟩
          (opening document options branch) s)
  | unprepared {phase : Phase} {e : DeployFailure} {events : List DeployEvent}
      (own : d.settings.checkOwnership options.target branch = .ok ())
      (prepare : d.pipeline.prepare options.target document options.overrides project =
        (.error (phase, e), events)) :
      ExecuteEnds d document options project branch s
        ((⟨branch, options.dryRun⟩ : Run).fail ⟨phase, none, e⟩
          (opening document options branch ++ events) s)
  | rehearsed {prepared : Prepared} {events : List DeployEvent}
      (own : d.settings.checkOwnership options.target branch = .ok ())
      (prepare : d.pipeline.prepare options.target document options.overrides project =
        (.ok prepared, events))
      (dry : options.dryRun = true) :
      ExecuteEnds d document options project branch s
        ⟨.ok (.ofPrepared options.target branch document prepared),
          opening document options branch ++ events ++
            [.entered .succeeded, .completed none none true], s⟩
  | failed {prepared : Prepared} {fault : Fault} {events more : List DeployEvent} {t : σ}
      (own : d.settings.checkOwnership options.target branch = .ok ())
      (prepare : d.pipeline.prepare options.target document options.overrides project =
        (.ok prepared, events))
      (real : options.dryRun = false)
      (ship : LockedEnds d document options branch prepared s (.error fault, more, t)) :
      ExecuteEnds d document options project branch s
        ((⟨branch, options.dryRun⟩ : Run).fail fault
          (opening document options branch ++ events ++ [.entered .committing] ++ more) t)
  | done {prepared : Prepared} {committed : Committed} {deployment : Deployment}
      {events more : List DeployEvent} {t : σ}
      (own : d.settings.checkOwnership options.target branch = .ok ())
      (prepare : d.pipeline.prepare options.target document options.overrides project =
        (.ok prepared, events))
      (real : options.dryRun = false)
      (ship : LockedEnds d document options branch prepared s
        (.ok (committed, deployment), more, t)) :
      ExecuteEnds d document options project branch s
        ⟨.ok (resultOf document options.target branch prepared committed deployment),
          opening document options branch ++ events ++ [.entered .committing] ++ more ++
            [.entered .succeeded, .completed committed.commitId (some deployment.id) false], t⟩

inductive RepublishEnds (d : Deployer σ) (target : Target) (branch : String) (s : σ) :
    Outcome σ RepublishResult → Prop
  | disowned {e : DeployFailure} (own : d.settings.checkOwnership target branch = .error e) :
      RepublishEnds d target branch s
        ((⟨branch, false⟩ : Run).fail ⟨.publishing, none, e⟩ [.entered .publishing] s)
  | barred {e : LockError} {t : σ} (own : d.settings.checkOwnership target branch = .ok ())
      (lock : d.services.lock branch s = (.error e, t)) :
      RepublishEnds d target branch s
        ((⟨branch, false⟩ : Run).fail ⟨.publishing, none, .lock e⟩ [.entered .publishing] t)
  | unpublished {e : DeployFailure} {events : List DeployEvent} {t u : σ}
      (own : d.settings.checkOwnership target branch = .ok ())
      (lock : d.services.lock branch s = (.ok (), t))
      (publish : PublishEnds d target branch none t (.error e, events, u)) :
      RepublishEnds d target branch s
        ((⟨branch, false⟩ : Run).fail ⟨.publishing, none, e⟩ ([.entered .publishing] ++ events)
          (d.services.unlock branch u))
  | done {deployment : Deployment} {events : List DeployEvent} {t u : σ}
      (own : d.settings.checkOwnership target branch = .ok ())
      (lock : d.services.lock branch s = (.ok (), t))
      (publish : PublishEnds d target branch none t (.ok deployment, events, u)) :
      RepublishEnds d target branch s
        ⟨.ok ⟨target, branch, deployment⟩,
          [.entered .publishing] ++ events ++
            [.entered .succeeded, .completed none (some deployment.id) false],
          d.services.unlock branch u⟩

inductive BootstrapEnds (d : Deployer σ) (document : Document) (domain : Option String)
    (overrides : SeoOverrides) (project : Except ProjectError (List Candidate)) (s : σ) :
    Outcome σ BootstrapResult → Prop
  | unready {e : DeployError} {events : List DeployEvent} {t : σ}
      (rehearse : d.execute document (bootstrapOptions overrides) project s =
        ⟨.error e, events, t⟩) :
      BootstrapEnds d document domain overrides project s ⟨.error e, events, t⟩
  | refused {preview : DeployResult} {events : List DeployEvent} {e : HostingError} {t u : σ}
      (rehearse : d.execute document (bootstrapOptions overrides) project s =
        ⟨.ok preview, events, t⟩)
      (provision : d.services.provision d.settings.repo domain t = (.error e, u)) :
      BootstrapEnds d document domain overrides project s
        ((⟨preview.branch, true⟩ : Run).fail ⟨.publishing, none, .hosting e⟩
          (events ++ [.entered .publishing]) u)
  | done {preview : DeployResult} {events : List DeployEvent} {made : HostingProject} {t u : σ}
      (rehearse : d.execute document (bootstrapOptions overrides) project s =
        ⟨.ok preview, events, t⟩)
      (provision : d.services.provision d.settings.repo domain t = (.ok made, u)) :
      BootstrapEnds d document domain overrides project s
        ⟨.ok ⟨preview, made⟩, events ++ [.entered .publishing] ++ [.entered .succeeded], u⟩

section Ends

variable (d : Deployer σ)

theorem commit_ends (branch message : String) (plan : CommitPlan) (s : σ) :
    CommitEnds d branch message plan s (d.commit branch message plan s) := by
  unfold commit
  split
  · next noop => exact .skipped noop
  · next noop =>
    rw [Bool.not_eq_true] at noop
    split
    · next write => exact .refused noop write
    · next write => exact .made noop write

theorem publish_ends (target : Target) (branch : String) (head : Option String) (s : σ) :
    PublishEnds d target branch head s (d.publish target branch head s) := by
  unfold publish
  split
  · next unset => exact .homeless unset
  · next home =>
    split
    · next ask => exact .refused home ask
    · next ask => exact .made home ask

theorem ship_ends (document : Document) (options : DeployOptions) (branch : String)
    (prepared : Prepared) (s : σ) :
    ShipEnds d document options branch prepared s (d.ship document options branch prepared s) := by
  unfold ship
  split
  · next read => exact .unread read
  · next snapshot t read =>
    have commit := d.commit_ends branch
      (commitMessage document options (d.planFor prepared snapshot)) (d.planFor prepared snapshot) t
    dsimp only [planFor] at commit ⊢
    split
    · next hc => exact .uncommitted read rfl (hc ▸ commit)
    · next committed events u hc =>
      have publish := d.publish_ends options.target branch committed.head u
      split
      · next hp => exact .unpublished read rfl (hc ▸ commit) (hp ▸ publish)
      · next hp => exact .done read rfl (hc ▸ commit) (hp ▸ publish)

theorem shipLocked_ends (document : Document) (options : DeployOptions) (branch : String)
    (prepared : Prepared) (s : σ) :
    LockedEnds d document options branch prepared s
      (d.shipLocked document options branch prepared s) := by
  unfold shipLocked
  split
  · next lock => exact .barred lock
  · next t lock => exact .shipped lock (d.ship_ends document options branch prepared t)

theorem execute_ends (document : Document) (options : DeployOptions)
    (project : Except ProjectError (List Candidate)) (s : σ) :
    ExecuteEnds d document options project
      (d.settings.resolveBranch options.target options.branch) s
      (d.execute document options project s) := by
  unfold execute
  dsimp only
  split
  · next own => exact .disowned own
  · next own =>
    split
    · next prepare => exact .unprepared own prepare
    · next prepared events prepare =>
      split
      · next dry => exact .rehearsed own prepare dry
      · next real =>
        have ship := d.shipLocked_ends document options
          (d.settings.resolveBranch options.target options.branch) prepared s
        rw [Bool.not_eq_true] at real
        split
        · next hs => exact .failed own prepare real (hs ▸ ship)
        · next hs => exact .done own prepare real (hs ▸ ship)

theorem republish_ends (target : Target) (asked : Option String) (s : σ) :
    RepublishEnds d target (d.settings.resolveBranch target asked) s
      (d.republish target asked s) := by
  unfold republish
  dsimp only
  split
  · next own => exact .disowned own
  · next own =>
    split
    · next lock => exact .barred own lock
    · next t lock =>
      have publish := d.publish_ends target (d.settings.resolveBranch target asked) none t
      split
      · next hp => exact .unpublished own lock (hp ▸ publish)
      · next hp => exact .done own lock (hp ▸ publish)

theorem bootstrap_ends (document : Document) (domain : Option String) (overrides : SeoOverrides)
    (project : Except ProjectError (List Candidate)) (s : σ) :
    BootstrapEnds d document domain overrides project s
      (d.bootstrap document domain overrides project s) := by
  unfold bootstrap
  split
  · next rehearse => exact .unready rehearse
  · next rehearse =>
    dsimp only
    split
    · next provision => exact .refused rehearse provision
    · next provision => exact .done rehearse provision

end Ends

variable {d : Deployer σ} {document : Document} {project : Except ProjectError (List Candidate)}
  {s : σ}

theorem ExecuteEnds.state_of_dry {options : DeployOptions} {branch : String}
    {out : Outcome σ DeployResult} (h : ExecuteEnds d document options project branch s out)
    (dry : options.dryRun = true) : out.state = s := by
  cases h with
  | failed own prepare real ship =>
    rw [dry] at real
    cases real
  | done own prepare real ship =>
    rw [dry] at real
    cases real
  | _ => rfl

theorem ExecuteEnds.branch_of_error {options : DeployOptions} {branch : String}
    {out : Outcome σ DeployResult} {e : DeployError}
    (h : ExecuteEnds d document options project branch s out) (failed : out.result = .error e) :
    e.branch = branch := by
  cases h <;> cases failed <;> rfl

theorem LockedEnds.phase_of_error {options : DeployOptions} {branch : String} {prepared : Prepared}
    {fault : Fault} {events : List DeployEvent} {t : σ}
    (h : LockedEnds d document options branch prepared s (.error fault, events, t)) :
    fault.phase = .committing ∨ fault.phase = .publishing := by
  cases h with
  | barred lock => exact Or.inl rfl
  | shipped lock ship =>
    cases ship with
    | unread read => exact Or.inl rfl
    | uncommitted read planned commit => exact Or.inl rfl
    | unpublished read planned commit publish => exact Or.inr rfl

theorem LockedEnds.not_generatedFileExcluded {options : DeployOptions} {branch : String}
    {prepared : Prepared} {fault : Fault} {events : List DeployEvent} {t : σ}
    (h : LockedEnds d document options branch prepared s (.error fault, events, t)) (path : String)
    (rule : FilterRule) (reason : String) :
    fault.cause ≠ .generatedFileExcluded path rule reason := by
  cases h with
  | barred lock => exact DeployFailure.noConfusion
  | shipped lock ship =>
    cases ship with
    | unread read => exact DeployFailure.noConfusion
    | uncommitted read planned commit => exact DeployFailure.noConfusion
    | unpublished read planned commit publish => cases publish <;> exact DeployFailure.noConfusion

theorem CommitEnds.state_eq {branch message : String} {plan : CommitPlan}
    {out : Except RemoteError Committed × List DeployEvent × σ}
    (h : CommitEnds d branch message plan s out) :
    out.2.2 = if plan.isNoop then s
      else (d.services.write branch plan.base plan.writes message s).2 := by
  cases h with
  | skipped noop => simp [noop]
  | refused noop write => simp [noop, write]
  | made noop write => simp [noop, write]

theorem CommitEnds.of_write {branch message : String} {plan : CommitPlan} {receipt : CommitReceipt}
    {t : σ} {out : Except RemoteError Committed × List DeployEvent × σ}
    (h : CommitEnds d branch message plan s out) (changes : plan.isNoop = false)
    (write : d.services.write branch plan.base plan.writes message s = (.ok receipt, t)) :
    out.1 = .ok ⟨plan, some receipt⟩ ∧ out.2.2 = t := by
  cases h with
  | skipped noop => simp [changes] at noop
  | refused _ asked => simp [write] at asked
  | made _ asked =>
    cases write.symm.trans asked
    exact ⟨rfl, rfl⟩

theorem CommitEnds.keeps {branch message : String} {plan : CommitPlan}
    {out : Except RemoteError Committed × List DeployEvent × σ}
    (h : CommitEnds d branch message plan s out) {β : Type} (f : σ → β)
    (hf : ∀ branch expected files message s,
      f (d.services.write branch expected files message s).2 = f s) :
    f out.2.2 = f s := by
  rw [h.state_eq]
  split
  · rfl
  · exact hf branch plan.base plan.writes message s

theorem PublishEnds.state_eq {target : Target} {branch : String} {head : Option String}
    {out : Except DeployFailure Deployment × List DeployEvent × σ}
    (h : PublishEnds d target branch head s out) :
    out.2.2 = s ∨ ∃ home, d.settings.hostingProject = some home ∧
      out.2.2 = (d.services.publish ⟨home, d.settings.repo, branch, head, target⟩ s).2 := by
  cases h with
  | homeless unset => exact Or.inl rfl
  | refused home ask => exact Or.inr ⟨_, home, by rw [ask]⟩
  | made home ask => exact Or.inr ⟨_, home, by rw [ask]⟩

theorem PublishEnds.of_publish {target : Target} {branch home : String} {head : Option String}
    {e : HostingError} {t : σ} {out : Except DeployFailure Deployment × List DeployEvent × σ}
    (h : PublishEnds d target branch head s out) (known : d.settings.hostingProject = some home)
    (refused : d.services.publish ⟨home, d.settings.repo, branch, head, target⟩ s = (.error e, t)) :
    out.1 = .error (.hosting e) ∧ out.2.2 = t := by
  cases h with
  | homeless unset => simp [known] at unset
  | refused at_home ask =>
    cases known.symm.trans at_home
    cases refused.symm.trans ask
    exact ⟨rfl, rfl⟩
  | made at_home ask =>
    cases known.symm.trans at_home
    simp [refused] at ask

theorem PublishEnds.keeps {target : Target} {branch : String} {head : Option String}
    {out : Except DeployFailure Deployment × List DeployEvent × σ}
    (h : PublishEnds d target branch head s out) {β : Type} (f : σ → β)
    (hf : ∀ request s, f (d.services.publish request s).2 = f s) : f out.2.2 = f s := by
  rcases h.state_eq with he | ⟨home, -, he⟩
  · rw [he]
  · rw [he, hf]

theorem LockedEnds.unpublished {options : DeployOptions} {branch home : String}
    {prepared : Prepared} {out : Except Fault (Committed × Deployment) × List DeployEvent × σ}
    {snapshot : Option Snapshot} {receipt : CommitReceipt} {e : HostingError} {t u v x : σ}
    (h : LockedEnds d document options branch prepared s out)
    (lock : d.services.lock branch s = (.ok (), t))
    (read : d.services.snapshot branch t = (.ok snapshot, u))
    (changes : (d.planFor prepared snapshot).isNoop = false)
    (write : d.services.write branch (d.planFor prepared snapshot).base
      (d.planFor prepared snapshot).writes
      (commitMessage document options (d.planFor prepared snapshot)) u = (.ok receipt, v))
    (known : d.settings.hostingProject = some home)
    (refused : d.services.publish
      ⟨home, d.settings.repo, branch, some receipt.id, options.target⟩ v = (.error e, x)) :
    out.1 = .error ⟨.publishing, some receipt.id, .hosting e⟩ ∧
      out.2.2 = d.services.unlock branch x := by
  cases h with
  | barred held => simp [lock] at held
  | shipped held ship =>
    cases lock.symm.trans held
    cases ship with
    | unread seen => simp [read] at seen
    | uncommitted seen planned commit =>
      cases read.symm.trans seen
      subst planned
      cases (commit.of_write changes write).1
    | unpublished seen planned commit publish =>
      cases read.symm.trans seen
      subst planned
      obtain ⟨same, rfl⟩ := commit.of_write changes write
      cases same
      obtain ⟨same, rfl⟩ := publish.of_publish known refused
      cases same
      exact ⟨rfl, rfl⟩
    | done seen planned commit publish =>
      cases read.symm.trans seen
      subst planned
      obtain ⟨same, rfl⟩ := commit.of_write changes write
      cases same
      cases (publish.of_publish known refused).1

theorem ShipEnds.keeps {options : DeployOptions} {branch : String} {prepared : Prepared}
    {out : Except Fault (Committed × Deployment) × List DeployEvent × σ}
    (h : ShipEnds d document options branch prepared s out) {β : Type} (f : σ → β)
    (hs : ∀ branch s, f (d.services.snapshot branch s).2 = f s)
    (hw : ∀ branch expected files message s,
      f (d.services.write branch expected files message s).2 = f s)
    (hp : ∀ request s, f (d.services.publish request s).2 = f s) : f out.2.2 = f s := by
  have hr := hs branch s
  cases h with
  | unread read => rwa [read] at hr
  | uncommitted read planned commit =>
    rw [read] at hr
    exact (commit.keeps f hw).trans hr
  | unpublished read planned commit publish =>
    rw [read] at hr
    exact (publish.keeps f hp).trans ((commit.keeps f hw).trans hr)
  | done read planned commit publish =>
    rw [read] at hr
    exact (publish.keeps f hp).trans ((commit.keeps f hw).trans hr)

theorem BootstrapEnds.keeps {domain : Option String} {overrides : SeoOverrides}
    {out : Outcome σ BootstrapResult} (h : BootstrapEnds d document domain overrides project s out)
    {β : Type} (f : σ → β)
    (hf : ∀ repo domain s, f (d.services.provision repo domain s).2 = f s) :
    f out.state = f s := by
  have hs := (d.execute_ends document (bootstrapOptions overrides) project s).state_of_dry rfl
  have hp := hf d.settings.repo domain s
  cases h with
  | unready rehearse =>
    rw [rehearse] at hs
    exact congrArg f hs
  | refused rehearse provision =>
    rw [rehearse] at hs
    cases hs
    rwa [provision] at hp
  | done rehearse provision =>
    rw [rehearse] at hs
    cases hs
    rwa [provision] at hp

end Deployer

end SitePublish
