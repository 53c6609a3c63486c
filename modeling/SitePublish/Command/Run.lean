import SitePublish.Command.Arguments
import SitePublish.Command.Assembly
import SitePublish.Report.Output

/-!
# Running commands

A command reads the settings and its input files, does its work and yields an output. A deployment
that commits advances the version of the document and writes it back, unless it is told not to; a
deployment that fails leaves the document alone.
-/

set_option autoImplicit false

namespace SitePublish

structure Finished (τ : Type) where
  result : Except CommandError Output
  warnings : List ConfigWarning
  events : List DeployEvent
  world : World τ

structure Worked (τ : Type) where
  result : Except CommandError Output
  events : List DeployEvent
  world : World τ

namespace Worked

variable {τ : Type}

def fail (e : CommandError) (w : World τ) : Worked τ := ⟨.error e, [], w⟩

def ofOutcome {α : Type} (wrap : α → Output) (o : Outcome (World τ) α) : Worked τ :=
  ⟨(o.result.map wrap).mapError .deploy, o.events, o.state⟩

end Worked

namespace Command

variable {τ : Type}

def readInput {α : Type} (files : FileTree) (shape : Json.Shape α) (what path : String) :
    Except InputError α :=
  match files.readText path with
  | .error e => .error (.unreadable what path e)
  | .ok content =>
    match shape.parse? content with
    | some a => .ok a
    | none => .error (.malformed what path)

def readDocument (files : FileTree) (input : DocumentInput) :
    Except CommandError (Document × SeoOverrides) := do
  let document ← (DocumentFile.load files input.document).mapError .document
  match input.seo with
  | none => return (document, [])
  | some path =>
    let overrides ← (readInput files SeoOverrides.shape "SEO overrides" path).mapError .input
    return (document, overrides)

def saveVersion (files : FileTree) (path : String) (document : Document) (r : DeployResult) :
    Except DocumentFileError FileTree :=
  DocumentFile.save files path (document.advanceVersion r.version)

def deployAndSave (deployer : Deployer (World τ)) (document : Document) (options : DeployOptions)
    (project : Except ProjectError (List Candidate)) (path : String) (save : Bool) (w : World τ) :
    Worked τ :=
  let outcome := deployer.execute document options project w
  match outcome.result with
  | .error _ => .ofOutcome .deploy outcome
  | .ok r =>
    if r.hasChanges && save then
      let left := outcome.state
      match saveVersion left.files path document r with
      | .error e => ⟨.error (.document e), outcome.events, left⟩
      | .ok files => ⟨.ok (.deploy r), outcome.events, { left with files := files }⟩
    else .ofOutcome .deploy outcome

structure Workplace (τ : Type) where
  deployer : FileTree → Reach → Except CommandError (Deployer (World τ))
  project : FileTree → Except ProjectError (List Candidate)

def deployDocument (place : Workplace τ) (input : DocumentInput)
    (options : SeoOverrides → DeployOptions) (save : Bool) (w : World τ) : Worked τ :=
  match readDocument w.files input with
  | .error e => .fail e w
  | .ok (document, overrides) =>
    let options := options overrides
    match place.deployer w.files (if options.dryRun then .none else .all) with
    | .error e => .fail e w
    | .ok deployer =>
      deployAndSave deployer document options (place.project w.files) input.document save w

def workplace (s : Surroundings τ) (c : Config) (base : Option String) : Workplace τ :=
  ⟨fun files reach => c.deployer s files reach base, fun files => c.project files base⟩

def republishBranch (s : Surroundings τ) (c : Config) (base : Option String) (target : Target)
    (branch : Option String) (w : World τ) : Worked τ :=
  match c.deployer s w.files .all base with
  | .error e => .fail e w
  | .ok deployer => .ofOutcome .republish (deployer.republish target branch w)

def provisionSite (s : Surroundings τ) (c : Config) (base : Option String) (input : DocumentInput)
    (domain : Option String) (w : World τ) : Worked τ :=
  match readDocument w.files input with
  | .error e => .fail e w
  | .ok (document, overrides) =>
    match c.deployer s w.files .host base with
    | .error e => .fail e w
    | .ok deployer =>
      .ofOutcome .bootstrap
        (deployer.bootstrap document (domain.or c.hosting.customDomain) overrides
          (c.project w.files base) w)

def remote (s : Surroundings τ) (c : Config) : Except ConfigError GitHub := do
  let repo ← c.repo
  let token ← s.environment.token c.sourceControl.tokenEnv
  return .connect c.sourceControl.apiUrl token repo

def listVersions (s : Surroundings τ) (c : Config) (branch : Option String) (perPage : Option Nat)
    (w : World τ) : Worked τ :=
  match remote s c with
  | .error e => .fail (.config e) w
  | .ok g =>
    let branch := branch.getD c.sourceControl.productionBranch
    let listCommits (branch : String) (count : Nat) : World τ → _ :=
      World.through (g.listCommits s.exchange branch count)
    match VersionHistory.list listCommits branch (perPage.getD c.versionsPerPage) w with
    | (.error e, w) => .fail (.versions e) w
    | (.ok records, w) => ⟨.ok (.versions ⟨branch, records⟩), [], w⟩

/-- The files to classify: a list in a file, else the paths given. -/
def classifyInputs (files : FileTree) (paths : List String) :
    Option String → Except InputError (List FileInput)
  | some source => readInput files (Json.Shape.list FileInput.shape) "file list" source
  | none => .ok (paths.map fun p => ⟨p, none⟩)

/-- Classifies files; when strict, a conflict of patterns is an error. -/
def classifyFiles (c : Config) (files : FileTree) (paths : List String) (source : Option String)
    (strict : Bool) : Except CommandError (FilterBatch FileInput) := do
  let inputs ← (classifyInputs files paths source).mapError .input
  if inputs.isEmpty then throw (.input .noPaths)
  let filter ← c.productionFilter.mapError .config
  let batch := filter.classifyInputs inputs
  match if strict then batch.conflict? else none with
  | some conflict => throw (.filter conflict)
  | none => return batch

def run (command : Command) (s : Surroundings τ) (c : Config) (base : Option String)
    (w : World τ) : Worked τ :=
  match command with
  | .preview input target branch =>
    deployDocument (workplace s c base) input (⟨target, branch, true, ·, none⟩) false w
  | .deploy input target branch dryRun message noSave =>
    deployDocument (workplace s c base) input (⟨target, branch, dryRun, ·, message⟩) (!noSave) w
  | .republish target branch => republishBranch s c base target branch w
  | .bootstrap input domain => provisionSite s c base input domain w
  | .versions branch perPage => listVersions s c branch perPage w
  | .classify paths source strict =>
    ⟨(classifyFiles c w.files paths source strict).map .classify, [], w⟩

end Command

namespace Invocation

variable {τ : Type}

/-- The settings: the file that is named, else the one that is found. -/
def loadConfig (i : Invocation) (env : Environment) (files : FileTree) :
    Except ConfigError (Config × List ConfigWarning) :=
  match i.config with
  | some path => Config.loadUnder env files path
  | none => Config.discover files env (some (i.projectDir.getD files.root))

def baseDir (i : Invocation) : Option String :=
  i.projectDir.or ((i.config.bind FileTree.parent?).filter (· ≠ ""))

def run (i : Invocation) (s : Surroundings τ) (w : World τ) : Finished τ :=
  match i.loadConfig s.environment w.files with
  | .error e => ⟨.error (.config e), [], [], w⟩
  | .ok (c, warnings) =>
    let worked := i.command.run s c i.baseDir w
    ⟨worked.result, warnings, worked.events, worked.world⟩

end Invocation

end SitePublish
