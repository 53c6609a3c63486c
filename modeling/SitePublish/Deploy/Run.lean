import SitePublish.Deploy.Result

/-!
# Running deployments

A deployment prepares its files, commits what differs from the branch and publishes the branch. The
services are given by the calls that can be made on them; a call may change the state of the
services whether it succeeds or fails. A branch is held from before its snapshot is taken until its
publication has ended, and is set free whatever happens in between.
-/

set_option autoImplicit false

namespace SitePublish

/-- The calls on services whose state is `σ`. -/
structure Services (σ : Type) where
  snapshot : String → σ → Except RemoteError (Option Snapshot) × σ
  write : String → Option String → List FileWrite → String → σ →
    Except RemoteError CommitReceipt × σ
  publish : DeploymentRequest → σ → Except HostingError Deployment × σ
  provision : RepoRef → Option String → σ → Except HostingError HostingProject × σ
  lock : String → σ → Except LockError Unit × σ
  unlock : String → σ → σ

structure Outcome (σ α : Type) where
  result : Except DeployError α
  events : List DeployEvent
  state : σ

structure Deployer (σ : Type) where
  pipeline : Pipeline
  settings : DeploySettings
  services : Services σ

structure Run where
  branch : String
  dryRun : Bool
deriving DecidableEq

structure Fault where
  phase : Phase
  commit : Option String
  cause : DeployFailure
deriving DecidableEq

structure Committed where
  plan : CommitPlan
  receipt : Option CommitReceipt
deriving DecidableEq

namespace Run

def fail {σ α : Type} (r : Run) (f : Fault) (events : List DeployEvent) (s : σ) : Outcome σ α :=
  ⟨.error ⟨f.phase, r.branch, r.dryRun, f.commit, f.cause⟩,
    events ++ [.failed f.phase f.cause.message], s⟩

end Run

namespace Committed

/-- The commit to publish: the one made, else the head that needed none. -/
def head (c : Committed) : Option String :=
  match c.receipt with
  | some receipt => some receipt.id
  | none => c.plan.base

def commitId (c : Committed) : Option String := c.receipt.map CommitReceipt.id

def writes (c : Committed) : List FileWrite := if c.receipt.isSome then c.plan.writes else []

end Committed

namespace Deployer

variable {σ : Type}

def defaultMessage (version : Nat) (target : Target) (changes : Nat) : String :=
  "Deploy v" ++ toString version ++ " to " ++ target.name ++ " (" ++ toString changes ++ " files)"

def commitMessage (document : Document) (options : DeployOptions) (plan : CommitPlan) : String :=
  options.message.getD
    (defaultMessage (document.currentVersion + 1) options.target plan.changeCount)

def planned (plan : CommitPlan) : DeployEvent :=
  .planned plan.writeCount plan.skipCount plan.deleteCount

def commit (d : Deployer σ) (branch message : String) (plan : CommitPlan) (s : σ) :
    Except RemoteError Committed × List DeployEvent × σ :=
  if plan.isNoop then (.ok ⟨plan, none⟩, [.commitSkipped plan.base], s)
  else
    match d.services.write branch plan.base plan.writes message s with
    | (.error e, s) => (.error e, [], s)
    | (.ok receipt, s) =>
      (.ok ⟨plan, some receipt⟩, [.committed receipt.id plan.writes.length], s)

def publish (d : Deployer σ) (target : Target) (branch : String) (head : Option String) (s : σ) :
    Except DeployFailure Deployment × List DeployEvent × σ :=
  match d.settings.hostingProject with
  | none => (.error .notBootstrapped, [], s)
  | some project =>
    match d.services.publish ⟨project, d.settings.repo, branch, head, target⟩ s with
    | (.error e, s) => (.error (.hosting e), [], s)
    | (.ok deployment, s) => (.ok deployment, [.published deployment.id deployment.url], s)

def ship (d : Deployer σ) (document : Document) (options : DeployOptions) (branch : String)
    (prepared : Prepared) (s : σ) :
    Except Fault (Committed × Deployment) × List DeployEvent × σ :=
  match d.services.snapshot branch s with
  | (.error e, s) => (.error ⟨.committing, none, .sourceControl e⟩, [], s)
  | (.ok snapshot, s) =>
    let plan := CommitPlan.ofSnapshot prepared.retained snapshot d.pipeline.generator.layout.owns
    match d.commit branch (commitMessage document options plan) plan s with
    | (.error e, events, s) =>
      (.error ⟨.committing, none, .sourceControl e⟩, planned plan :: events, s)
    | (.ok committed, events, s) =>
      let events := planned plan :: events ++ [.entered .publishing]
      match d.publish options.target branch committed.head s with
      | (.error e, more, s) =>
        (.error ⟨.publishing, committed.commitId, e⟩, events ++ more, s)
      | (.ok deployment, more, s) => (.ok (committed, deployment), events ++ more, s)

def resultOf (document : Document) (target : Target) (branch : String) (prepared : Prepared)
    (c : Committed) (deployment : Deployment) : DeployResult :=
  { DeployResult.ofPrepared target branch document prepared with
    dryRun := false
    written := (c.writes.filter fun w => !w.isDelete).map fun w => w.path.text
    deleted := (c.writes.filter FileWrite.isDelete).map fun w => w.path.text
    unchanged := c.plan.skipCount
    noChanges := c.receipt.isNone
    commit := c.receipt
    deployment := some deployment
    version := document.currentVersion + (if c.receipt.isSome then 1 else 0) }

def shipLocked (d : Deployer σ) (document : Document) (options : DeployOptions) (branch : String)
    (prepared : Prepared) (s : σ) :
    Except Fault (Committed × Deployment) × List DeployEvent × σ :=
  match d.services.lock branch s with
  | (.error e, s) => (.error ⟨.committing, none, .lock e⟩, [], s)
  | (.ok (), s) =>
    match d.ship document options branch prepared s with
    | (result, events, s) => (result, events, d.services.unlock branch s)

def execute (d : Deployer σ) (document : Document) (options : DeployOptions)
    (project : Except ProjectError (List Candidate)) (s : σ) : Outcome σ DeployResult :=
  let branch := d.settings.resolveBranch options.target options.branch
  let run : Run := ⟨branch, options.dryRun⟩
  let start : List DeployEvent :=
    [.started options.target branch options.dryRun document.pages.length, .entered .generating]
  match d.settings.checkOwnership options.target branch with
  | .error e => run.fail ⟨.generating, none, e⟩ start s
  | .ok () =>
    match d.pipeline.prepare options.target document options.overrides project with
    | (.error (phase, e), events) => run.fail ⟨phase, none, e⟩ (start ++ events) s
    | (.ok prepared, events) =>
      let events := start ++ events
      if options.dryRun then
        ⟨.ok (.ofPrepared options.target branch document prepared),
          events ++ [.entered .succeeded, .completed none none true], s⟩
      else
        let events := events ++ [.entered .committing]
        match d.shipLocked document options branch prepared s with
        | (.error fault, more, s) => run.fail fault (events ++ more) s
        | (.ok (committed, deployment), more, s) =>
          ⟨.ok (resultOf document options.target branch prepared committed deployment),
            events ++ more ++
              [.entered .succeeded, .completed committed.commitId (some deployment.id) false], s⟩

def republish (d : Deployer σ) (target : Target) (asked : Option String) (s : σ) :
    Outcome σ RepublishResult :=
  let branch := d.settings.resolveBranch target asked
  let run : Run := ⟨branch, false⟩
  let start : List DeployEvent := [.entered .publishing]
  match d.settings.checkOwnership target branch with
  | .error e => run.fail ⟨.publishing, none, e⟩ start s
  | .ok () =>
    match d.services.lock branch s with
    | (.error e, s) => run.fail ⟨.publishing, none, .lock e⟩ start s
    | (.ok (), s) =>
      match d.publish target branch none s with
      | (.error e, events, s) =>
        run.fail ⟨.publishing, none, e⟩ (start ++ events) (d.services.unlock branch s)
      | (.ok deployment, events, s) =>
        ⟨.ok ⟨target, branch, deployment⟩,
          start ++ events ++ [.entered .succeeded, .completed none (some deployment.id) false],
          d.services.unlock branch s⟩

def bootstrapOptions (overrides : SeoOverrides) : DeployOptions :=
  ⟨.production, none, true, overrides, none⟩

def bootstrap (d : Deployer σ) (document : Document) (domain : Option String)
    (overrides : SeoOverrides) (project : Except ProjectError (List Candidate)) (s : σ) :
    Outcome σ BootstrapResult :=
  match d.execute document (bootstrapOptions overrides) project s with
  | ⟨.error e, events, s⟩ => ⟨.error e, events, s⟩
  | ⟨.ok preview, events, s⟩ =>
    let run : Run := ⟨preview.branch, true⟩
    let events := events ++ [.entered .publishing]
    match d.services.provision d.settings.repo domain s with
    | (.error e, s) => run.fail ⟨.publishing, none, .hosting e⟩ events s
    | (.ok project, s) => ⟨.ok ⟨preview, project⟩, events ++ [.entered .succeeded], s⟩

end Deployer

end SitePublish
