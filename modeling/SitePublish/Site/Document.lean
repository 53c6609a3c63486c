import SitePublish.Component.Props
import SitePublish.Json.Printer
import SitePublish.Json.Reader
import SitePublish.Site.Route
import SitePublish.Word

/-!
# Website documents

The model of a whole site as an editor keeps it: pages in the order of the editor and a version
number. A document is read from and written as JSON; a page key that occurs twice keeps its first
place and its last page.
-/

set_option autoImplicit false

namespace SitePublish

structure Seo where
  title : Option String
  description : Option String
  keywords : Option (List String)
  ogImage : Option String
deriving DecidableEq

namespace Seo

def empty : Seo := ⟨none, none, none, none⟩

def overlay (base upper : Seo) : Seo :=
  ⟨upper.title.or base.title, upper.description.or base.description,
   upper.keywords.or base.keywords, upper.ogImage.or base.ogImage⟩

def shape : Json.Shape Seo :=
  Json.Shape.record [["title"], ["description"], ["keywords"], ["ogImage", "og_image"]]
    fun budget fields =>
      match fields with
      | [title, description, keywords, ogImage] => do
        let text := Json.Shape.field (Json.Shape.optional Json.Shape.string) none budget
        let texts := Json.Shape.optional (Json.Shape.list Json.Shape.string)
        return ⟨← text title, ← text description,
          ← Json.Shape.field texts none budget keywords, ← text ogImage⟩
      | _ => none

def members (s : Seo) : List (String × Json) :=
  (s.title.map fun t => ("title", Json.str t)).toList ++
  (s.description.map fun t => ("description", Json.str t)).toList ++
  (s.keywords.map fun ts => ("keywords", Json.ofStrings ts)).toList ++
  (s.ogImage.map fun t => ("ogImage", Json.str t)).toList

end Seo

structure Page where
  components : List Component
  seo : Option Seo
deriving DecidableEq

structure Document where
  pages : List (String × Page)
  currentVersion : Nat
deriving DecidableEq

namespace Component

def shape : Json.Shape Component :=
  Json.Shape.record [["type"], ["props"]] fun budget fields =>
    match fields with
    | [type, props] => do
      let type ← Json.Shape.required Json.Shape.string budget type
      let props ← Json.Shape.field (Json.Shape.members Json.Shape.value) [] budget props
      return ⟨type, Dict.ofList props⟩
    | _ => none

def toJson (c : Component) : Json := .obj [("type", .str c.type), ("props", .obj c.props)]

end Component

namespace Page

def shape : Json.Shape Page :=
  Json.Shape.record [["components"], ["seoMetadata", "seo_metadata", "seo"]] fun budget fields =>
    match fields with
    | [components, seo] => do
      let components ← Json.Shape.field (Json.Shape.list Component.shape) [] budget components
      let seo ← Json.Shape.field (Json.Shape.optional Seo.shape) none budget seo
      return ⟨components, seo⟩
    | _ => none

def toJson (p : Page) : Json :=
  .obj (("components", .arr (p.components.map Component.toJson)) ::
    (p.seo.map fun s => ("seoMetadata", Json.obj s.members)).toList)

end Page

inductive DocumentRouteError where
  | invalid (page : String) (cause : RouteError)
  | collision (route first second : String)
deriving DecidableEq

def DocumentRouteError.message : DocumentRouteError → String
  | .invalid page cause => "page '" ++ page ++ "' has an invalid route: " ++ cause.message
  | .collision route first second =>
    "pages '" ++ first ++ "' and '" ++ second ++ "' both map to route '" ++ route ++ "'"

namespace Document

/-- Gives each key in turn its page; a key that is present keeps its place. -/
def orderedPages (entries : List (String × Page)) : List (String × Page) :=
  entries.foldl (fun pages e => Dict.put pages e.1 e.2) []

def shape : Json.Shape Document :=
  Json.Shape.record [["pages"], ["currentVersionNumber", "current_version_number"]]
    fun budget fields =>
      match fields with
      | [pages, version] => do
        let pages ← Json.Shape.field (Json.Shape.members Page.shape) [] budget pages
        let version ← Json.Shape.field (Json.Shape.natBelow Word.limit64) 0 budget version
        return ⟨orderedPages pages, version⟩
      | _ => none

def parse? (s : String) : Option Document := shape.parse? s

def toJson (d : Document) : Json :=
  .obj [("pages", .obj (d.pages.map fun e => (e.1, e.2.toJson))),
        ("currentVersionNumber", Json.ofNat d.currentVersion)]

def render (d : Document) : String := d.toJson.pretty ++ "\n"

def routesFrom (seen : List (Route × String)) :
    List String → Except DocumentRouteError (List (String × Route))
  | [] => .ok []
  | key :: rest =>
    match Route.ofKey key with
    | .error e => .error (.invalid key e)
    | .ok r =>
      match Dict.get? seen r with
      | some first => .error (.collision r.text first key)
      | none =>
        match routesFrom ((r, key) :: seen) rest with
        | .ok routes => .ok ((key, r) :: routes)
        | .error e => .error e

/-- Every page key with its route, in page order; no two pages share a route. -/
def routes (d : Document) : Except DocumentRouteError (List (String × Route)) :=
  routesFrom [] (Dict.keys d.pages)

def advanceVersion (d : Document) (version : Nat) : Document :=
  { d with currentVersion := max d.currentVersion version }

def componentCount (d : Document) : Nat :=
  (d.pages.flatMap fun e => e.2.components).length

end Document

abbrev SeoOverrides := Dict String Seo

def SeoOverrides.shape : Json.Shape SeoOverrides := fun budget t =>
  (Json.Shape.members Seo.shape budget t).map Dict.ofList

end SitePublish
