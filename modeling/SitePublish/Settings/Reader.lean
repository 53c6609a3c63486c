import SitePublish.Settings.Config
import SitePublish.Toml.Document
import SitePublish.Toml.Record
import SitePublish.Word

/-!
# Reading settings

Settings are read from a TOML text, section by section. A key that is not known does no harm: it is
reported by its dotted path, in the order in which the text completes its tables.
-/

set_option autoImplicit false

namespace SitePublish

namespace Config

abbrev Found (α : Type) := α × List String

def readFields {α : Type} (names : List String) (build : List (Option Toml.Value) → Option α)
    (v : Toml.Value) : Option (Found α) := do
  let (fields, unknown) ← Toml.fields? names v
  return (← build fields, unknown)

def readSourceControl : Toml.Value → Option (Found SourceControlConfig) :=
  readFields ["owner", "repo", "production_branch", "preview_branch", "api_url", "token_env",
    "timeout_secs"] fun
    | [owner, repo, production, preview, api, token, timeout] => do
      let d := standard.sourceControl
      return ⟨← Toml.optionalText? owner, ← Toml.optionalText? repo,
        ← Toml.field? Toml.text? d.productionBranch production,
        ← Toml.field? Toml.text? d.previewBranch preview, ← Toml.field? Toml.text? d.apiUrl api,
        ← Toml.field? Toml.text? d.tokenEnv token,
        ← Toml.field? (Toml.natBelow? Word.limit64) d.timeoutSecs timeout⟩
    | _ => none

def readHosting : Toml.Value → Option (Found HostingConfig) :=
  readFields ["project", "team_id", "api_url", "token_env", "custom_domain", "timeout_secs"] fun
    | [project, team, api, token, domain, timeout] => do
      let d := standard.hosting
      return ⟨← Toml.optionalText? project, ← Toml.optionalText? team,
        ← Toml.field? Toml.text? d.apiUrl api, ← Toml.field? Toml.text? d.tokenEnv token,
        ← Toml.optionalText? domain,
        ← Toml.field? (Toml.natBelow? Word.limit64) d.timeoutSecs timeout⟩
    | _ => none

def readGenerator : Toml.Value → Option (Found GeneratorConfig) :=
  readFields ["data_dir", "app_dir", "renderer_import", "component_modules", "registry"] fun
    | [dataDir, appDir, renderer, modules, registry] => do
      let d := standard.generator
      return ⟨← Toml.field? Toml.text? d.dataDir dataDir, ← Toml.field? Toml.text? d.appDir appDir,
        ← Toml.field? Toml.text? d.rendererImport renderer,
        ← Toml.field? Toml.bool? d.componentModules modules, ← Toml.optionalText? registry⟩
    | _ => none

def readFilter : Toml.Value → Option (Found FilterConfig) :=
  readFields ["exclude", "include"] fun
    | [excludes, includes] => do
      return ⟨← Toml.field? (Toml.list? Toml.text?) [] excludes,
        ← Toml.field? (Toml.list? Toml.text?) [] includes⟩
    | _ => none

def readSingle {α : Type} (name : String) (read : Option Toml.Value → Option α) :
    Toml.Value → Option (Found α) :=
  readFields [name] fun
    | [a] => read a
    | _ => none

def readPerPage : Option Toml.Value → Option Nat :=
  Toml.field? (Toml.natBelow? Word.limit32) standard.versionsPerPage

/-- Reads one section into the settings; also the unknown keys it brings. -/
def readSection (c : Config) (key : String) (v : Toml.Value) : Option (Found Config) :=
  let sub {α : Type} (read : Option (Found α)) (set : α → Config) : Option (Found Config) :=
    read.map fun (a, unknown) => (set a, unknown.map fun k => key ++ "." ++ k)
  if key = "source_control" then sub (readSourceControl v) fun a => { c with sourceControl := a }
  else if key = "hosting" then sub (readHosting v) fun a => { c with hosting := a }
  else if key = "generator" then sub (readGenerator v) fun a => { c with generator := a }
  else if key = "filter" then sub (readFilter v) fun a => { c with filter := a }
  else if key = "project" then
    sub (readSingle "root" Toml.optionalText? v) fun a => { c with projectRoot := a }
  else if key = "versions" then
    sub (readSingle "per_page" readPerPage v) fun a => { c with versionsPerPage := a }
  else if key = "locks" then
    sub (readSingle "dir" Toml.optionalText? v) fun a => { c with lockDir := a }
  else some (c, [key])

def readSections (c : Config) : List (String × Toml.Value) → Option (Found Config)
  | [] => some (c, [])
  | (key, v) :: rest => do
    let (c, unknown) ← readSection c key v
    let (c, more) ← readSections c rest
    return (c, unknown ++ more)

def parse? (text : String) : Option (Found Config) :=
  (Toml.parse? text).bind (readSections standard)

end Config

end SitePublish
