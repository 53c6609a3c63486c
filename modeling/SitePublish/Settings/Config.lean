import SitePublish.FileTree.Basic
import SitePublish.Filter.Classify
import SitePublish.Json.Basic
import SitePublish.Page.Layout
import SitePublish.Remote.Basic
import SitePublish.Version.History

/-!
# Settings

The settings of the program by sections, with their defaults, and what follows from them: the
repository, the output layout and the production filter.
-/

set_option autoImplicit false

namespace SitePublish

inductive ConfigError where
  | unreadable (path : String) (cause : FileError)
  | malformed (path : String)
  | missingRepo
  | invalidRepo (text : String)
  | invalidPath (key : String) (cause : PathError)
  | invalidPattern (cause : PatternError)
  | missingToken (variableName : String)

structure SourceControlConfig where
  owner : Option String
  repo : Option String
  productionBranch : String
  previewBranch : String
  apiUrl : String
  /-- The environment variable that holds the token. -/
  tokenEnv : String
  timeoutSecs : Nat
deriving DecidableEq

structure HostingConfig where
  project : Option String
  teamId : Option String
  apiUrl : String
  tokenEnv : String
  customDomain : Option String
  timeoutSecs : Nat
deriving DecidableEq

structure GeneratorConfig where
  dataDir : String
  appDir : String
  rendererImport : String
  componentModules : Bool
  registry : Option String
deriving DecidableEq

structure FilterConfig where
  excludes : List String
  includes : List String
deriving DecidableEq

structure Config where
  sourceControl : SourceControlConfig
  hosting : HostingConfig
  generator : GeneratorConfig
  filter : FilterConfig
  projectRoot : Option String
  versionsPerPage : Nat
  lockDir : Option String
deriving DecidableEq

namespace Config

def standard : Config where
  sourceControl :=
    ⟨none, none, "main", "preview", "https://api.github.com", "GITHUB_TOKEN", 30⟩
  hosting := ⟨none, none, "https://api.vercel.com", "VERCEL_TOKEN", none, 30⟩
  generator := ⟨"src/data/pages", "src/app", "@/components/PageRenderer", false, none⟩
  filter := ⟨[], []⟩
  projectRoot := none
  versionsPerPage := VersionHistory.defaultPage
  lockDir := none

def repo (c : Config) : Except ConfigError RepoRef :=
  match c.sourceControl.owner, c.sourceControl.repo with
  | some owner, some repo =>
    let text := owner ++ "/" ++ repo
    match RepoRef.parse? text with
    | some r => .ok r
    | none => .error (.invalidRepo text)
  | _, _ => .error .missingRepo

def sitePath (key text : String) : Except ConfigError SitePath :=
  match SitePath.ofText text with
  | .ok p => .ok p
  | .error e => .error (.invalidPath key e)

def layout (c : Config) : Except ConfigError Layout := do
  let dataDir ← sitePath "generator.data_dir" c.generator.dataDir
  let appDir ← sitePath "generator.app_dir" c.generator.appDir
  return ⟨dataDir, appDir, c.generator.rendererImport, c.generator.componentModules⟩

def productionFilter (c : Config) : Except ConfigError ProductionFilter :=
  match ProductionFilter.ofPatterns c.filter.includes c.filter.excludes with
  | .ok f => .ok f
  | .error e => .error (.invalidPattern e)

def toJson (c : Config) : Json :=
  let text (s : Option String) := Json.ofOption Json.str s
  Json.ofMembers
    [("source_control", Json.ofMembers
      [("owner", text c.sourceControl.owner), ("repo", text c.sourceControl.repo),
       ("production_branch", .str c.sourceControl.productionBranch),
       ("preview_branch", .str c.sourceControl.previewBranch),
       ("api_url", .str c.sourceControl.apiUrl), ("token_env", .str c.sourceControl.tokenEnv),
       ("timeout_secs", Json.ofNat c.sourceControl.timeoutSecs)]),
     ("hosting", Json.ofMembers
      [("project", text c.hosting.project), ("team_id", text c.hosting.teamId),
       ("api_url", .str c.hosting.apiUrl), ("token_env", .str c.hosting.tokenEnv),
       ("custom_domain", text c.hosting.customDomain),
       ("timeout_secs", Json.ofNat c.hosting.timeoutSecs)]),
     ("generator", Json.ofMembers
      [("data_dir", .str c.generator.dataDir), ("app_dir", .str c.generator.appDir),
       ("renderer_import", .str c.generator.rendererImport),
       ("component_modules", .bool c.generator.componentModules),
       ("registry", text c.generator.registry)]),
     ("filter", Json.ofMembers
      [("exclude", Json.ofStrings c.filter.excludes),
       ("include", Json.ofStrings c.filter.includes)]),
     ("project", Json.ofMembers [("root", text c.projectRoot)]),
     ("versions", Json.ofMembers [("per_page", Json.ofNat c.versionsPerPage)]),
     ("locks", Json.ofMembers [("dir", text c.lockDir)])]

end Config

namespace ConfigError

def message (detail : String) : ConfigError → String
  | .unreadable path cause => "failed to read config " ++ path ++ ": " ++ cause.message
  | .malformed path => "invalid config " ++ path ++ ": " ++ detail
  | .missingRepo =>
    "no repository configured; set [source_control] owner and repo or SITEFORGE_REPO"
  | .invalidRepo text => "invalid repository '" ++ text ++ "'; expected owner/repo"
  | .invalidPath key cause => "invalid " ++ key ++ ": " ++ cause.message
  | .invalidPattern cause => "invalid filter pattern: " ++ cause.message
  | .missingToken name => "environment variable " ++ name ++ " is not set"

end ConfigError

end SitePublish
