import SitePublish.Page.Layout
import SitePublish.Site.Document

/-!
# Generated pages

A document becomes the sources of a site: for each page in document order its data, its route module
and, if the layout asks for them, a module per component; last the index of all pages. Equal input
gives equal files, and an error gives no files at all.
-/

set_option autoImplicit false

namespace SitePublish

inductive GenerationError where
  | invalidRoute (page : String) (cause : RouteError)
  | routeCollision (route first second : String)
  | unknownComponent (page : String) (index : Nat) (type : String)
  | invalidProp (page : String) (index : Nat) (type key : String) (kind : FieldKind)
  | propPathConflict (page : String) (index : Nat) (type key blockedAt : String)
  | duplicatePath (path : String)
  | invalidPath (path : String)
deriving DecidableEq

namespace GenerationError

def place (page : String) (index : Nat) (type : String) : String :=
  "page '" ++ page ++ "', component " ++ toString index ++ " (" ++ type ++ "): "

def message : GenerationError → String
  | .invalidRoute page cause => (DocumentRouteError.invalid page cause).message
  | .routeCollision route first second => (DocumentRouteError.collision route first second).message
  | .unknownComponent page index type =>
    "page '" ++ page ++ "', component " ++ toString index ++ ": unknown component type '" ++ type
      ++ "'"
  | .invalidProp page index type key kind =>
    place page index type ++ "prop '" ++ key ++ "' must be " ++ kind.expectation
  | .propPathConflict page index type key blockedAt =>
    place page index type ++ "prop '" ++ key ++ "' conflicts with a value at '" ++ blockedAt ++ "'"
  | .duplicatePath path => "generated path '" ++ path ++ "' is produced twice"
  | .invalidPath path => "invalid output path '" ++ path ++ "'"

def page? : GenerationError → Option String
  | .invalidRoute page _ | .unknownComponent page _ _ | .invalidProp page _ _ _ _
  | .propPathConflict page _ _ _ _ => some page
  | .routeCollision _ _ second => some second
  | .duplicatePath _ | .invalidPath _ => none

def component? : GenerationError → Option Nat
  | .unknownComponent _ index _ | .invalidProp _ index _ _ _
  | .propPathConflict _ index _ _ _ => some index
  | _ => none

def ofRouteError : DocumentRouteError → GenerationError
  | .invalid page cause => .invalidRoute page cause
  | .collision route first second => .routeCollision route first second

def ofPropError (page : String) (index : Nat) (type : String) : PropError → GenerationError
  | .invalidValue key kind => .invalidProp page index type key kind
  | .pathConflict key blockedAt => .propPathConflict page index type key blockedAt

end GenerationError

structure GeneratedFile where
  path : SitePath
  content : String
deriving DecidableEq

namespace GeneratedFile

def blob (f : GeneratedFile) : BlobId := BlobId.ofBytes (Text.utf8 f.content)

def size (f : GeneratedFile) : Nat := f.content.utf8ByteSize

def toCandidate (f : GeneratedFile) : Candidate := ⟨f.path, .text f.content, .generated⟩

end GeneratedFile

structure Generator where
  registry : Registry
  layout : Layout
deriving DecidableEq

namespace Generator

def header : String := "// Generated by siteforge from the website document. Do not edit."

/-- Words in lower case, joined by dashes: a dash goes in front of a capital that follows a small
letter or a digit, and stands for a run of other characters between words. `last` is the character
written last, and `afterSmall` whether the one read last was a small letter or a digit. -/
def kebabFrom (last : Option Char) (afterSmall : Bool) : List Char → List Char
  | [] => []
  | c :: rest =>
    if c.isUpper then
      (if afterSmall then ['-'] else []) ++ c.toLower :: kebabFrom (some c.toLower) false rest
    else if c.isAlphanum then c :: kebabFrom (some c) true rest
    else if last.isSome && last ≠ some '-' then '-' :: kebabFrom (some '-') false rest
    else kebabFrom last false rest

def kebabCase (name : String) : String :=
  String.ofList (Text.dropWhileEnd (· = '-') (kebabFrom none false name.toList))

def commonLength : List String → List String → Nat
  | a :: as, b :: bs => if a = b then commonLength as bs + 1 else 0
  | _, _ => 0

def withoutExtension (name : String) : String :=
  match Text.cutLast '.' name.toList with
  | some (stem, _) => String.ofList stem
  | none => name

def relativeImport (source target : SitePath) : String :=
  let dir := source.segments.dropLast
  let shared := commonLength dir target.segments
  let down := target.segments.drop shared
  let parts := List.replicate (dir.length - shared) ".." ++ down.dropLast ++
    (down.getLast?.map withoutExtension).toList
  let joined := Text.joinWith '/' parts
  if Text.startsWith ".." joined then joined else "./" ++ joined

def join (dir : SitePath) (rest : String) : Except GenerationError SitePath :=
  let raw := dir.text ++ "/" ++ rest
  match SitePath.ofText raw with
  | .ok p => .ok p
  | .error _ => .error (.invalidPath raw)

def dataPath (l : Layout) (r : Route) : Except GenerationError SitePath :=
  join l.dataDir (r.fileStem ++ ".ts")

def routeModulePath (l : Layout) (r : Route) : Except GenerationError SitePath :=
  if r.isRoot then join l.appDir Layout.routeModuleFile
  else join l.appDir (r.relative ++ "/" ++ Layout.routeModuleFile)

def twoDigits (n : Nat) : String := if n < 10 then "0" ++ toString n else toString n

def componentModulePath (l : Layout) (r : Route) (index : Nat) (type : String) :
    Except GenerationError SitePath :=
  join l.dataDir
    (r.fileStem ++ "/components/" ++ twoDigits index ++ "-" ++ kebabCase type ++ ".ts")

structure SeoBlock where
  title : String
  description : String
  keywords : List String
  ogImage : Option String
deriving DecidableEq

namespace SeoBlock

def ofPage (p : Page) (upper : Option Seo) (r : Route) : SeoBlock :=
  let base := p.seo.getD Seo.empty
  let seo := match upper with
    | some o => base.overlay o
    | none => base
  ⟨seo.title.getD r.humanized, seo.description.getD "", seo.keywords.getD [], seo.ogImage⟩

def toJson (s : SeoBlock) : Json :=
  Json.ofMembers
    ([("title", .str s.title), ("description", .str s.description),
      ("keywords", Json.ofStrings s.keywords)] ++
      (s.ogImage.map fun i => ("ogImage", Json.str i)).toList)

def metadata (s : SeoBlock) : Json :=
  Json.ofMembers
    ([("title", .str s.title), ("description", .str s.description)] ++
      (if s.keywords.isEmpty then [] else [("keywords", Json.ofStrings s.keywords)]) ++
      (s.ogImage.map fun i => ("openGraph", Json.obj [("images", Json.ofStrings [i])])).toList)

end SeoBlock

structure PlacedComponent where
  id : String
  type : String
  props : Dict String Json
deriving DecidableEq

def PlacedComponent.toJson (c : PlacedComponent) : Json :=
  Json.ofMembers [("id", .str c.id), ("type", .str c.type), ("props", .obj c.props)]

def idStem (r : Route) : String :=
  String.ofList (r.fileStem.toList.map fun c => if c = '/' then '-' else c)

def placeFrom (reg : Registry) (key : String) (r : Route) (index : Nat) :
    List Component → Except GenerationError (List PlacedComponent)
  | [] => .ok []
  | c :: rest =>
    match reg.get? c.type with
    | none => .error (.unknownComponent key index c.type)
    | some design =>
      match Props.resolve design c with
      | .error e => .error (.ofPropError key index c.type e)
      | .ok props =>
        match placeFrom reg key r (index + 1) rest with
        | .error e => .error e
        | .ok placed => .ok (⟨idStem r ++ "-" ++ toString index, c.type, props⟩ :: placed)

def dataFile (key : String) (r : Route) (seo : SeoBlock) (components : List PlacedComponent) :
    String :=
  let data := Json.ofMembers
    [("key", .str key), ("route", .str r.text), ("seo", seo.toJson),
     ("components", .arr (components.map PlacedComponent.toJson))]
  header ++ "\n\nexport const pageData = " ++ data.pretty ++
    " as const;\n\nexport default pageData;\n"

def routeModule (seo : SeoBlock) (rendererImport dataImport : String) : String :=
  header ++ "\n\n" ++
  "import type \x7b Metadata \x7d from \"next\";\n" ++
  "import PageRenderer from \"" ++ rendererImport ++ "\";\n" ++
  "import pageData from \"" ++ dataImport ++ "\";\n\n" ++
  "export const metadata: Metadata = " ++ seo.metadata.pretty ++ ";\n\n" ++
  "export default function Page() \x7b\n" ++
  "  return <PageRenderer components=\x7bpageData.components\x7d />;\n" ++
  "\x7d\n"

def componentModule (c : PlacedComponent) : String :=
  header ++ "\n\nexport const component = " ++ c.toJson.pretty ++
    " as const;\n\nexport default component;\n"

def componentFiles (l : Layout) (r : Route) (index : Nat) :
    List PlacedComponent → Except GenerationError (List GeneratedFile)
  | [] => .ok []
  | c :: rest =>
    match componentModulePath l r index c.type with
    | .error e => .error e
    | .ok path =>
      match componentFiles l r (index + 1) rest with
      | .error e => .error e
      | .ok files => .ok (⟨path, componentModule c⟩ :: files)

structure PageFiles where
  dataPath : SitePath
  files : List GeneratedFile

def pageFiles (g : Generator) (key : String) (r : Route) (page : Page) (upper : Option Seo) :
    Except GenerationError PageFiles := do
  let seo := SeoBlock.ofPage page upper r
  let placed ← placeFrom g.registry key r 0 page.components
  let dataPath ← dataPath g.layout r
  let modulePath ← routeModulePath g.layout r
  let modules ←
    if g.layout.componentModules then componentFiles g.layout r 0 placed else .ok []
  return ⟨dataPath,
    ⟨dataPath, dataFile key r seo placed⟩ ::
    ⟨modulePath, routeModule seo g.layout.rendererImport (relativeImport modulePath dataPath)⟩ ::
    modules⟩

def indexImports (index : SitePath) (n : Nat) : List (Route × SitePath) → String
  | [] => ""
  | (_, path) :: rest =>
    "import page" ++ toString n ++ " from \"" ++ relativeImport index path ++ "\";\n" ++
      indexImports index (n + 1) rest

theorem indexImports_cons (index : SitePath) (n : Nat) (e : Route × SitePath)
    (rest : List (Route × SitePath)) : indexImports index n (e :: rest) =
      "import page" ++ toString n ++ " from \"" ++ relativeImport index e.2 ++ "\";\n" ++
        indexImports index (n + 1) rest := rfl

def indexRows (n : Nat) : List (Route × SitePath) → String
  | [] => ""
  | (r, _) :: rest =>
    "  \"" ++ r.text ++ "\": page" ++ toString n ++ ",\n" ++ indexRows (n + 1) rest

def indexModule (index : SitePath) (entries : List (Route × SitePath)) : String :=
  header ++ "\n\n" ++ indexImports index 0 entries ++ (if entries.isEmpty then "" else "\n") ++
    "export const pages = \x7b\n" ++ indexRows 0 entries ++
    "\x7d as const;\n\nexport default pages;\n"

def pagesFrom (g : Generator) (d : Document) (overrides : SeoOverrides) :
    List (String × Route) → Except GenerationError (List GeneratedFile × List (Route × SitePath))
  | [] => .ok ([], [])
  | (key, r) :: rest =>
    match Dict.get? d.pages key with
    | none => pagesFrom g d overrides rest
    | some page =>
      match pageFiles g key r page (overrides.get? key) with
      | .error e => .error e
      | .ok out =>
        match pagesFrom g d overrides rest with
        | .error e => .error e
        | .ok (files, entries) => .ok (out.files ++ files, (r, out.dataPath) :: entries)

def repeatedPath (seen : List SitePath) : List GeneratedFile → Option SitePath
  | [] => none
  | f :: rest => if seen.contains f.path then some f.path else repeatedPath (f.path :: seen) rest

def generate (g : Generator) (d : Document) (overrides : SeoOverrides) :
    Except GenerationError (List GeneratedFile) :=
  match d.routes with
  | .error e => .error (.ofRouteError e)
  | .ok routes =>
    match pagesFrom g d overrides routes with
    | .error e => .error e
    | .ok (files, entries) =>
      match join g.layout.dataDir Layout.indexFile with
      | .error e => .error e
      | .ok indexPath =>
        let all := files ++ [⟨indexPath, indexModule indexPath entries⟩]
        match repeatedPath [] all with
        | some p => .error (.duplicatePath p.text)
        | none => .ok all

end Generator

end SitePublish
