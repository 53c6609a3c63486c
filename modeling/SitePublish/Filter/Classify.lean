import SitePublish.Filter.Rule
import SitePublish.Pattern.Set
import SitePublish.Site.Path

/-!
# The production filter

Decides for one file whether it belongs to the customer-facing site. The rules are tried in a fixed
order and the first that applies decides; a path that leads out of the project is dropped before
them, and what no rule speaks about is site content.
-/

set_option autoImplicit false

namespace SitePublish

structure ProductionFilter where
  includes : PatternSet
  excludes : PatternSet

namespace ProductionFilter

def plain : ProductionFilter := ⟨.empty, .empty⟩

def ofPatterns (includes excludes : List String) : Except PatternError ProductionFilter :=
  match PatternSet.ofPatterns includes with
  | .error e => .error e
  | .ok i =>
    match PatternSet.ofPatterns excludes with
    | .error e => .error e
    | .ok x => .ok ⟨i, x⟩

def editorNamespaces : List String :=
  ["assistant", "chat", "knowledge", "search", "vector-search", "production", "deploy", "versions",
   "github", "vercel", "images"]

def editorDirs : List String :=
  ["app/editor", "app/(editor)", "components/editor", "components/builder", "store", "stores",
   "contexts/editor"]

def deployDirs : List String :=
  ["lib/deploy", "lib/git", "lib/github", "lib/vercel", "lib/hosting"]

def deployStems : List String := ["git-operations", "vercel-client"]

def sourceRoots : List String := ["src", "public", "app", "components", "lib", "styles"]

def rootFiles : List String :=
  ["package.json", "package-lock.json", "yarn.lock", "pnpm-lock.yaml", "bun.lockb",
   "tsconfig.json", "next-env.d.ts", "middleware.ts", "vercel.json", ".gitignore", ".npmrc",
   ".nvmrc", "components.json"]

def rootFileStarts : List String :=
  ["next.config.", "postcss.config.", "tailwind.config.", ".eslintrc", "eslint.config."]

/-- Pins a file to the editor. -/
def marker : String := "@editor-only"

def markerLines : Nat := 5

/-- The path without one leading source directory, so that both layouts are treated alike. -/
def withoutSource (p : SitePath) : List Char :=
  (Text.stripPrefix "src/".toList p.text.toList).getD p.text.toList

def isBelow (path : List Char) (dir : String) : Bool :=
  match Text.stripPrefix dir.toList path with
  | some (c :: _) => c = '/'
  | _ => false

def editorApi (p : SitePath) : Option FilterDecision := do
  let rest ← Text.stripPrefix "app/api/".toList (withoutSource p)
  let ns ← editorNamespaces.find? fun ns => isBelow rest ns
  return .drop .editorApi ("editor-only API route (app/api/" ++ ns ++ "/)")

def editorUi (p : SitePath) : Option FilterDecision := do
  let dir ← editorDirs.find? fun dir => isBelow (withoutSource p) dir
  return .drop .editorUi ("editor UI source (" ++ dir ++ "/)")

def deployInfra (p : SitePath) : Option FilterDecision :=
  match deployDirs.find? fun dir => isBelow (withoutSource p) dir with
  | some dir => some (.drop .deployInfra ("deployment infrastructure (" ++ dir ++ "/)"))
  | none =>
    if deployStems.contains p.fileStem then
      some (.drop .deployInfra ("deployment infrastructure module (" ++ p.fileStem ++ ")"))
    else none

def configPattern (f : ProductionFilter) (p : SitePath) : Option FilterDecision :=
  match f.includes.matching p.text, f.excludes.matching p.text with
  | some i, some x =>
    some ⟨false, .configPattern,
      "conflicting filter patterns ('" ++ i ++ "' vs '" ++ x ++ "'), excluded",
      some ⟨p.text, i, x⟩⟩
  | none, some x => some (.drop .configPattern ("excluded by filter pattern '" ++ x ++ "'"))
  | some i, none => some (.take .configPattern ("included by filter pattern '" ++ i ++ "'"))
  | none, none => none

def isRootConfig (name : String) : Bool :=
  rootFiles.contains name || rootFileStarts.any fun s => Text.startsWith s name

def isDocumentation (p : SitePath) : Bool :=
  p.isUnder "docs" ||
    ((p.extension = some "md" || p.extension = some "mdx") &&
      !p.isUnder "src/app" && !p.isUnder "app")

def isScript (p : SitePath) : Bool := p.extension = some "sh" || p.isUnder "scripts"

def topSegment (p : SitePath) : String := p.segments.head?.getD ""

def nonProject (p : SitePath) : Option FilterDecision :=
  if isDocumentation p then some (.drop .nonProject "documentation")
  else if isScript p then some (.drop .nonProject "shell script")
  else if p.isRootFile then
    if isRootConfig p.fileName then none
    else some (.drop .nonProject "not a recognized project file")
  else if sourceRoots.contains (topSegment p) then none
  else some (.drop .nonProject ("outside project source roots (" ++ topSegment p ++ "/)"))

def isMarked (content : String) : Bool :=
  ((Text.lines content).take markerLines).any (Text.contains marker)

def editorMarker (content : Option String) : Option FilterDecision :=
  match content with
  | some s => if isMarked s then some (.drop .editorMarker "marked @editor-only") else none
  | none => none

def decide (f : ProductionFilter) (p : SitePath) (content : Option String) : FilterDecision :=
  ((((((editorApi p).or (editorUi p)).or (deployInfra p)).or (configPattern f p)).or
    (nonProject p)).or (editorMarker content)).getD (.take .siteContent "site content")

def classify (f : ProductionFilter) (path : String) (content : Option String) : FilterDecision :=
  match SitePath.ofText path with
  | .ok p => f.decide p content
  | .error .containsTraversal => .drop .pathEscape "path escapes the project root"
  | .error .empty => .drop .pathEscape "empty path"

end ProductionFilter

end SitePublish
