import SitePublish.Component.RegistryFile
import SitePublish.Deploy.World
import SitePublish.Report.Failure
import SitePublish.Settings.Load

/-!
# Deployers from settings

Puts together what a command works with. Relative paths in the settings are read from a base
directory. How far a command reaches decides which services are outside, and so which tokens it
needs: a dry run reaches none, and needs no repository either.
-/

set_option autoImplicit false

namespace SitePublish

inductive Reach where
  | none
  /-- The host only: nothing is committed. -/
  | host
  | all
deriving DecidableEq

/-- The tokens for the services outside; a service without one is in memory. -/
structure Credentials where
  remote : Option String
  host : Option String
deriving DecidableEq

structure Surroundings (τ : Type) where
  environment : Environment
  exchange : Http.Exchange τ

namespace Config

def resolve (base : Option String) (path : String) : String :=
  match base with
  | some dir => FileTree.join dir path
  | none => path

def registry (c : Config) (files : FileTree) (base : Option String) :
    Except RegistryFileError Registry :=
  match c.generator.registry with
  | some path => RegistryFile.load files (resolve base path)
  | none => .ok .builtin

def pipeline (c : Config) (files : FileTree) (base : Option String) :
    Except CommandError Pipeline := do
  let registry ← (c.registry files base).mapError .registry
  let layout ← c.layout.mapError .config
  let filter ← c.productionFilter.mapError .config
  return ⟨⟨registry, layout⟩, filter⟩

def credentials (c : Config) (env : Environment) : Reach → Except ConfigError Credentials
  | .none => .ok ⟨none, none⟩
  | .host => do
    let host ← env.token c.hosting.tokenEnv
    return ⟨none, some host⟩
  | .all => do
    let remote ← env.token c.sourceControl.tokenEnv
    let host ← env.token c.hosting.tokenEnv
    return ⟨some remote, some host⟩

def localRepo : RepoRef := ⟨"local", "site"⟩

def deploySettings (c : Config) (reach : Reach) : Except ConfigError DeploySettings := do
  let repo ← if reach = .none then .ok (c.repo.toOption.getD localRepo) else c.repo
  let branches := c.sourceControl
  return ⟨repo, branches.productionBranch, branches.previewBranch, c.hosting.project⟩

def services {τ : Type} (c : Config) (k : Credentials) (repo : RepoRef) (base : Option String)
    (exchange : Http.Exchange τ) : Services (World τ) :=
  let inMemory := World.offline (c.lockDir.map (resolve base))
  let withHost := match k.host with
    | some token =>
      World.withHost inMemory (Vercel.connect c.hosting.apiUrl token c.hosting.teamId) exchange
    | none => inMemory
  match k.remote with
  | some token =>
    World.withRemote withHost (GitHub.connect c.sourceControl.apiUrl token repo) exchange
  | none => withHost

def deployer {τ : Type} (c : Config) (s : Surroundings τ) (files : FileTree) (reach : Reach)
    (base : Option String) : Except CommandError (Deployer (World τ)) := do
  let pipeline ← c.pipeline files base
  let credentials ← (c.credentials s.environment reach).mapError .config
  let settings ← (c.deploySettings reach).mapError .config
  return ⟨pipeline, settings, c.services credentials settings.repo base s.exchange⟩

def project (c : Config) (files : FileTree) (base : Option String) :
    Except ProjectError (List Candidate) :=
  match c.projectRoot with
  | some root => Project.listFiles files (resolve base root)
  | none => .ok []

end Config

end SitePublish
