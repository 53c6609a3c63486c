import SitePublish.Settings.Reader
import SitePublish.Settings.Warning
import SitePublish.Word

/-!
# Loading settings

Settings come from a file, and environment variables override single ones. Without a file that is
named, the file of the project directory is looked for, then the one of the user; a file that is
there but cannot be read is an error.
-/

set_option autoImplicit false

namespace SitePublish

abbrev Environment := Dict String String

namespace Environment

def names : List String :=
  ["SITEFORGE_REPO", "SITEFORGE_PRODUCTION_BRANCH", "SITEFORGE_PREVIEW_BRANCH",
   "SITEFORGE_GITHUB_API_URL", "SITEFORGE_HOSTING_PROJECT", "SITEFORGE_HOSTING_TEAM_ID",
   "SITEFORGE_VERCEL_API_URL", "SITEFORGE_PROJECT_ROOT", "SITEFORGE_LOCK_DIR",
   "SITEFORGE_VERSIONS_PER_PAGE", "XDG_CONFIG_HOME", "HOME"]

/-- The value of a variable without blanks around it, unless nothing is left. -/
def value? (env : Environment) (name : String) : Option String :=
  ((env.get? name).map Text.trim).filter (· ≠ "")

/-- A token; blanks around it belong to it, but it is not blank. -/
def token (env : Environment) (name : String) : Except ConfigError String :=
  match env.get? name with
  | some t => if Text.trim t = "" then .error (.missingToken name) else .ok t
  | none => .error (.missingToken name)

def userConfig? (env : Environment) : Option String :=
  let dir :=
    match env.get? "XDG_CONFIG_HOME" with
    | some dir => some dir
    | none => ((env.get? "HOME").filter (· ≠ "")).map fun home => FileTree.join home ".config"
  dir.map fun d => FileTree.join (FileTree.join d "siteforge") "config.toml"

end Environment

namespace Config

def projectFile : String := "siteforge.toml"

def perPage? (s : String) : Option Nat :=
  let digits := match s.toList with
    | '+' :: rest => rest
    | cs => cs
  if digits.isEmpty || !digits.all Char.isDigit then none
  else
    let n := digits.foldl (fun n c => 10 * n + (c.toNat - 48)) 0
    if n < Word.limit32 then some n else none

def overrideSourceControl (c : SourceControlConfig) (env : Environment) : SourceControlConfig :=
  let c := match (env.value? "SITEFORGE_REPO").bind fun s => Text.cutFirst '/' s.toList with
    | some (owner, repo) =>
      { c with owner := some (String.ofList owner), repo := some (String.ofList repo) }
    | none => c
  { c with
    productionBranch := (env.value? "SITEFORGE_PRODUCTION_BRANCH").getD c.productionBranch
    previewBranch := (env.value? "SITEFORGE_PREVIEW_BRANCH").getD c.previewBranch
    apiUrl := (env.value? "SITEFORGE_GITHUB_API_URL").getD c.apiUrl }

def overrideHosting (c : HostingConfig) (env : Environment) : HostingConfig :=
  { c with
    project := (env.value? "SITEFORGE_HOSTING_PROJECT").or c.project
    teamId := (env.value? "SITEFORGE_HOSTING_TEAM_ID").or c.teamId
    apiUrl := (env.value? "SITEFORGE_VERCEL_API_URL").getD c.apiUrl }

/-- Settings under the variables of an environment; a variable that cannot be understood does not
count. -/
def override (c : Config) (env : Environment) : Config :=
  { c with
    sourceControl := overrideSourceControl c.sourceControl env
    hosting := overrideHosting c.hosting env
    projectRoot := (env.value? "SITEFORGE_PROJECT_ROOT").or c.projectRoot
    lockDir := (env.value? "SITEFORGE_LOCK_DIR").or c.lockDir
    versionsPerPage :=
      ((env.value? "SITEFORGE_VERSIONS_PER_PAGE").bind perPage?).getD c.versionsPerPage }

def load (files : FileTree) (path : String) : Except ConfigError (Config × List ConfigWarning) :=
  match files.readText path with
  | .error e => .error (.unreadable path e)
  | .ok content =>
    match parse? content with
    | none => .error (.malformed path)
    | some (c, unknown) => .ok (c, unknown.map (ConfigWarning.ofKey path content))

def loadUnder (env : Environment) (files : FileTree) (path : String) :
    Except ConfigError (Config × List ConfigWarning) :=
  match load files path with
  | .error e => .error e
  | .ok (c, warnings) => .ok (c.override env, warnings)

def candidates (env : Environment) (dir : Option String) : List String :=
  (dir.map fun d => FileTree.join d projectFile).toList ++ env.userConfig?.toList

/-- The settings of the first file that is there, else the standard ones, under the environment. -/
def discover (files : FileTree) (env : Environment) (dir : Option String) :
    Except ConfigError (Config × List ConfigWarning) :=
  match (candidates env dir).find? files.isFile with
  | none => .ok (standard.override env, [])
  | some path => loadUnder env files path

end Config

end SitePublish
