import SitePublish.Proofs.Component.Resolution
import SitePublish.Proofs.Page.Index

/-!
# What generated files say

Each generated file is the text of a value in a frame that does not depend on it. From the data of a
page its components are read with the properties they resolve to, from a module of its own each of
them is read again, and from the route module what the same block of the page tells search engines.
Defaults and properties are taken to be values that can be read back from their own texts, as all are
that were read.
-/

set_option autoImplicit false

namespace SitePublish

def Registry.Legible (reg : Registry) : Prop :=
  ∀ name d, reg.get? name = some d → ∀ f ∈ d.fields, f.default.Legible

theorem Registry.legible_of_designs {reg : Registry}
    (h : ∀ e ∈ reg.designs, ∀ f ∈ e.2.fields, f.default.Legible) : reg.Legible :=
  fun name d found => h (name, d) (Dict.mem_of_get? found)

theorem Registry.legible_builtin : builtin.Legible := by
  have link : (Json.obj [("href", .str "/"), ("title", .str "Home")]).Legible :=
    .obj (by decide) (by simp [List.forall_mem_cons, -List.mem_cons])
  have colors : (Json.obj [("from", .str "#0ea5e9"), ("to", .str "#6366f1")]).Legible :=
    .obj (by decide) (by simp [List.forall_mem_cons, -List.mem_cons])
  have all : ∀ d ∈ builtinDesigns, ∀ f ∈ d.fields, f.default.Legible := by
    simp [builtinDesigns, List.forall_mem_cons, -List.mem_cons, link, colors]
  refine legible_of_designs fun e he => ?_
  obtain ⟨d, hd, rfl⟩ := List.mem_map.mp (Dict.mem_of_mem_ofList he)
  exact all d hd

def Document.Legible (d : Document) : Prop :=
  ∀ e ∈ d.pages, ∀ c ∈ e.2.components, ∀ m ∈ c.props, m.2.Legible

section Reading

open Json (Shape)

variable {budget : Nat} {t : Json.Tree}

theorem Component.legible_of_shape {c : Component} (h : Component.shape budget t = some c)
    (exact : c.toJson.Exact) : ∀ m ∈ c.props, m.2.Legible := by
  obtain ⟨budget, trees, rfl, -, built⟩ := Shape.exists_of_record h
  split at built
  · next type props =>
    obtain ⟨name, -, built⟩ := Option.bind_eq_some_iff.mp built
    obtain ⟨es, entries, built⟩ := Option.bind_eq_some_iff.mp built
    cases built
    intro m hm
    have inside : m.2.Exact := by
      simp only [Component.toJson, Json.exact_obj_iff, List.forall_mem_cons] at exact
      exact exact.2.1 m hm
    cases props with
    | none =>
      cases entries
      cases hm
    | some u =>
      obtain ⟨v, read⟩ := Shape.exists_of_mem_members entries m (Dict.mem_of_mem_ofList hm)
      exact Json.legible_of_ofTree? v read inside
  · cases built

theorem Page.legible_of_shape {p : Page} (h : Page.shape budget t = some p)
    (exact : p.toJson.Exact) : ∀ c ∈ p.components, ∀ m ∈ c.props, m.2.Legible := by
  obtain ⟨budget, trees, rfl, -, built⟩ := Shape.exists_of_record h
  split at built
  · next componentsTree seoTree =>
    obtain ⟨components, listed, built⟩ := Option.bind_eq_some_iff.mp built
    obtain ⟨seo, -, built⟩ := Option.bind_eq_some_iff.mp built
    cases built
    intro c hc
    rw [Page.toJson, Json.exact_obj_iff, List.forall_mem_cons, Json.exact_arr_iff] at exact
    cases componentsTree with
    | none =>
      cases listed
      cases hc
    | some u =>
      obtain ⟨v, read⟩ := Shape.exists_of_mem_list listed c hc
      exact Component.legible_of_shape read (exact.1 _ (List.mem_map_of_mem hc))
  · cases built

theorem Document.legible_of_parse? {s : String} {d : Document} (h : Document.parse? s = some d)
    (exact : d.toJson.Exact) : d.Legible := by
  obtain ⟨t, -, read⟩ := Option.bind_eq_some_iff.mp h
  obtain ⟨budget, trees, deep, -, built⟩ := Shape.exists_of_record read
  split at built
  · next pagesTree versionTree =>
    obtain ⟨entries, listed, built⟩ := Option.bind_eq_some_iff.mp built
    obtain ⟨number, -, built⟩ := Option.bind_eq_some_iff.mp built
    cases built
    intro e he
    rw [Document.toJson, Json.exact_obj_iff, List.forall_mem_cons, Json.exact_obj_iff] at exact
    have here : e ∈ entries :=
      (Dict.mem_or_mem_of_mem_foldl_put he).resolve_left List.not_mem_nil
    cases pagesTree with
    | none =>
      cases listed
      cases here
    | some u =>
      obtain ⟨v, read⟩ := Shape.exists_of_mem_members listed e here
      exact Page.legible_of_shape read (exact.1 _ (List.mem_map_of_mem he))
  · cases built

end Reading

namespace Generator

/-- A text that is a frame around some text of the value. -/
def Embeds (frame : String → String) (v : Json) (content : String) : Prop :=
  ∃ literal, content = frame literal ∧ Json.Reads literal v

theorem embeds_pretty (frame : String → String) {v : Json} (h : v.Legible) :
    Embeds frame v (frame v.pretty) :=
  ⟨v.pretty, rfl, h.reads_pretty⟩

def exporting (name literal : String) : String :=
  header ++ "\n\nexport const " ++ name ++ " = " ++ literal ++ " as const;\n\nexport default " ++
    name ++ ";\n"

def routing (rendererImport dataImport literal : String) : String :=
  header ++ "\n\n" ++
  "import type \x7b Metadata \x7d from \"next\";\n" ++
  "import PageRenderer from \"" ++ rendererImport ++ "\";\n" ++
  "import pageData from \"" ++ dataImport ++ "\";\n\n" ++
  "export const metadata: Metadata = " ++ literal ++ ";\n\n" ++
  "export default function Page() \x7b\n" ++
  "  return <PageRenderer components=\x7bpageData.components\x7d />;\n" ++
  "\x7d\n"

theorem componentModule_eq (c : PlacedComponent) :
    componentModule c = exporting "component" c.toJson.pretty := by
  simp [componentModule, exporting, String.append_assoc]

theorem placed_toJson (c : PlacedComponent) : c.toJson =
    .obj [("id", .str c.id), ("props", .obj c.props), ("type", .str c.type)] := by
  simp +decide only [PlacedComponent.toJson, Json.ofMembers, Dict.ofList, Dict.insertAll,
    List.foldl_cons, List.foldl_nil, Dict.insert, ↓reduceIte]

def pageData (key : String) (r : Route) (seo : Json) (components : List Json) : Json :=
  .obj [("components", .arr components), ("key", .str key), ("route", .str r.text), ("seo", seo)]

theorem dataFile_eq (key : String) (r : Route) (seo : SeoBlock) (placed : List PlacedComponent) :
    dataFile key r seo placed = exporting "pageData"
      (pageData key r seo.toJson (placed.map PlacedComponent.toJson)).pretty := by
  have sorted : Json.ofMembers [("key", .str key), ("route", .str r.text), ("seo", seo.toJson),
      ("components", .arr (placed.map PlacedComponent.toJson))] =
      pageData key r seo.toJson (placed.map PlacedComponent.toJson) := by
    simp +decide only [pageData, Json.ofMembers, Dict.ofList, Dict.insertAll, List.foldl_cons,
      List.foldl_nil, Dict.insert, ↓reduceIte]
  simp [dataFile, exporting, sorted, String.append_assoc]

/-- What is read of a component that stands at an index of a page with this route. -/
inductive Entry (reg : Registry) (r : Route) : Component × Nat → Json → Prop
  | intro {c : Component} {index : Nat} {design : Design} {props : Dict String Json} {stem : String}
      (known : reg.get? c.type = some design) (resolved : Props.resolve design c = .ok props)
      (dashed : stem.toList = r.fileStem.toList.map fun c => if c = '/' then '-' else c) :
      Entry reg r (c, index) (.obj
        [("id", .str (stem ++ "-" ++ toString index)), ("props", .obj props),
          ("type", .str c.type)])

section Components

variable {reg : Registry} {r : Route} {located : List (Component × Nat)}
  {placed : List PlacedComponent}

theorem entries_of_places (h : List.Forall₂ (Places reg r) located placed) :
    List.Forall₂ (Entry reg r) located (placed.map PlacedComponent.toJson) := by
  rw [List.forall₂_map_right_iff]
  refine h.imp fun _ _ place => ?_
  cases place with
  | intro known resolved =>
    rw [placed_toJson]
    exact .intro known resolved String.toList_ofList

theorem legible_of_places (h : List.Forall₂ (Places reg r) located placed) (defaults : reg.Legible)
    (own : ∀ e ∈ located, ∀ m ∈ e.1.props, m.2.Legible) : ∀ c ∈ placed, c.toJson.Legible := by
  induction h with
  | nil => exact nofun
  | cons first _ ih =>
    obtain ⟨here, own⟩ := List.forall_mem_cons.mp own
    refine List.forall_mem_cons.mpr ⟨?_, ih own⟩
    cases first with
    | intro known resolved =>
      have props := Props.hereditary_of_resolve Json.legible_obj_iff resolved
        (defaults _ _ known) here
      refine Json.legible_ofMembers ?_
      simp [props]

theorem embeds_of_moduled {l : Layout} {ps : List (PlacedComponent × Nat)}
    {modules : List GeneratedFile} (h : List.Forall₂ (Moduled l r) ps modules)
    (legible : ∀ p ∈ ps, p.1.toJson.Legible) :
    List.Forall₂ (fun f entry => Embeds (exporting "component") entry f.content) modules
      ((ps.map Prod.fst).map PlacedComponent.toJson) := by
  induction h with
  | nil => exact .nil
  | cons first _ ih =>
    obtain ⟨here, legible⟩ := List.forall_mem_cons.mp legible
    refine .cons ?_ (ih legible)
    cases first with
    | intro path => exact componentModule_eq _ ▸ embeds_pretty (exporting "component") here

end Components

namespace SeoBlock

/-- What is read of this block in the data of a page. -/
structure Records (s : SeoBlock) (members : Dict String Json) : Prop where
  title : Dict.get? members "title" = some (.str s.title)
  description : Dict.get? members "description" = some (.str s.description)
  keywords : Dict.get? members "keywords" = some (.arr (s.keywords.map .str))
  image : Dict.get? members "ogImage" = s.ogImage.map .str
  only : ∀ key ∈ Dict.keys members, key ∈ ["title", "description", "keywords", "ogImage"]

/-- What is read of the metadata of a page with this block. -/
structure Describes (s : SeoBlock) (members : Dict String Json) : Prop where
  title : Dict.get? members "title" = some (.str s.title)
  description : Dict.get? members "description" = some (.str s.description)
  keywords : Dict.get? members "keywords" =
    if s.keywords = [] then none else some (.arr (s.keywords.map .str))
  image : Dict.get? members "openGraph" =
    s.ogImage.map fun i => .obj [("images", .arr [.str i])]
  only : ∀ key ∈ Dict.keys members, key ∈ ["title", "description", "keywords", "openGraph"]

theorem exists_records (s : SeoBlock) :
    ∃ members, s.toJson = .obj members ∧ s.Records members := by
  refine ⟨_, rfl, ?_⟩
  generalize hentries : [("title", Json.str s.title), ("description", Json.str s.description),
      ("keywords", Json.ofStrings s.keywords)] ++
      (s.ogImage.map fun i => ("ogImage", Json.str i)).toList = entries
  have distinct : (Dict.keys entries).Nodup := by
    rw [← hentries]
    cases s.ogImage <;> simp [Dict.keys]
  constructor
  case only =>
    intro key hkey
    rw [Dict.mem_keys_ofList, ← hentries] at hkey
    revert key
    cases s.ogImage <;> simp [Dict.keys]
  all_goals
    rw [Dict.get?_ofList_of_nodup distinct, ← hentries]
    cases s.ogImage <;> simp [Dict.get?, Json.ofStrings]

theorem exists_describes (s : SeoBlock) :
    ∃ members, s.metadata = .obj members ∧ s.Describes members := by
  refine ⟨_, rfl, ?_⟩
  generalize hentries : [("title", Json.str s.title), ("description", Json.str s.description)] ++
      (if s.keywords.isEmpty then [] else [("keywords", Json.ofStrings s.keywords)]) ++
      (s.ogImage.map fun i => ("openGraph", Json.obj [("images", Json.ofStrings [i])])).toList =
    entries
  have distinct : (Dict.keys entries).Nodup := by
    rw [← hentries]
    cases s.keywords <;> cases s.ogImage <;> simp [Dict.keys]
  constructor
  case only =>
    intro key hkey
    rw [Dict.mem_keys_ofList, ← hentries] at hkey
    revert key
    cases s.keywords <;> cases s.ogImage <;> simp [Dict.keys]
  all_goals
    rw [Dict.get?_ofList_of_nodup distinct, ← hentries]
    cases s.keywords <;> cases s.ogImage <;> simp [Dict.get?, Json.ofStrings]

theorem legible_toJson (s : SeoBlock) : s.toJson.Legible := by
  refine Json.legible_ofMembers ?_
  cases s.ogImage <;> simp

theorem legible_metadata (s : SeoBlock) : s.metadata.Legible := by
  refine Json.legible_ofMembers ?_
  have image (i : String) : (Json.obj [("images", Json.ofStrings [i])]).Legible :=
    .obj (List.pairwise_singleton _ _) (by simp)
  cases s.ogImage <;> cases s.keywords <;> simp [image]

end SeoBlock

/-- The files of a page say what its parts are. -/
structure PageWork.Carries (g : Generator) (overrides : SeoOverrides) (w : PageWork)
    (entries : List Json) : Prop where
  components : List.Forall₂ (Entry g.registry w.route) w.page.components.zipIdx entries
  data : ∃ seo, (w.seo overrides).Records seo ∧
    Embeds (exporting "pageData") (.obj [("components", .arr entries), ("key", .str w.key),
      ("route", .str w.route.text), ("seo", .obj seo)]) (w.dataFile overrides).content
  metadata : ∃ members, (w.seo overrides).Describes members ∧
    Embeds (routing g.layout.rendererImport (relativeImport w.modulePath w.dataPath))
      (.obj members) (w.routeFile g overrides).content
  modules : if g.layout.componentModules then
    List.Forall₂ (fun f entry => Embeds (exporting "component") entry f.content) w.modules entries
    else w.modules = []

variable {g : Generator} {overrides : SeoOverrides}

theorem carries_of_made {w : PageWork} (made : w.Made g) (defaults : g.registry.Legible)
    (own : ∀ c ∈ w.page.components, ∀ m ∈ c.props, m.2.Legible) :
    ∃ entries, w.Carries g overrides entries := by
  have legible := legible_of_places made.placed defaults fun e he =>
    own e.1 (List.fst_mem_of_mem_zipIdx he)
  refine ⟨w.placed.map PlacedComponent.toJson, entries_of_places made.placed, ?_, ?_, ?_⟩
  · have content : (w.dataFile overrides).content = exporting "pageData" (Json.pretty _) :=
      dataFile_eq w.key w.route (w.seo overrides) w.placed
    obtain ⟨seo, same, records⟩ := (w.seo overrides).exists_records
    have block : (Json.obj seo).Legible := same ▸ (w.seo overrides).legible_toJson
    have components : (Json.arr (w.placed.map PlacedComponent.toJson)).Legible :=
      .arr (List.forall_mem_map.mpr legible)
    refine ⟨seo, records, ?_⟩
    rw [content, same]
    refine embeds_pretty (exporting "pageData") (.obj ?_ ?_)
    · exact (by decide : ["components", "key", "route", "seo"].Pairwise (· < ·))
    · simp [List.forall_mem_cons, -List.mem_cons, block, components]
  · obtain ⟨members, same, describes⟩ := (w.seo overrides).exists_describes
    exact ⟨members, describes, same ▸ embeds_pretty (routing _ _) (w.seo overrides).legible_metadata⟩
  · have modules := made.modules
    split
    · next on =>
      rw [if_pos on] at modules
      have parts := embeds_of_moduled modules fun p hp => legible p.1 (List.fst_mem_of_mem_zipIdx hp)
      rwa [List.zipIdx_map_fst] at parts
    · next off =>
      rwa [if_neg off] at modules

/-- Each page of a document, in order, has files that carry its content, and the index binds its
route to its data. -/
theorem generated_files_carry {d : Document} {files : List GeneratedFile}
    (defaults : g.registry.Legible) (own : d.Legible) (h : g.generate d overrides = .ok files) :
    ∃ works index, Composed g d overrides works index files ∧
      (∀ w ∈ works, ∃ entries, w.Carries g overrides entries) ∧
      Indexes index works (indexModule index (works.map PageWork.entry)) := by
  obtain ⟨works, index, composed⟩ := composed_of_generate h
  refine ⟨works, index, composed, fun w hw => ?_,
    indexes_indexModule composed.made composed.index_eq⟩
  have source : w.source ∈ d.pages := composed.pages ▸ List.mem_map_of_mem hw
  exact carries_of_made (composed.made w hw) defaults (own w.source source)

end Generator

def shopText : String :=
  "\x7b\"pages\":\x7b\"index\":\x7b\"components\":[[\"Hero\",\x7b" ++
  "\"title\":\"\\\"Hi\\\"\",\"size\":[[-3]]\x7d]]\x7d,\"Blog\":\x7b\"seo\":[null]\x7d\x7d\x7d"

def shopDocument : Document :=
  ⟨[("index", ⟨[⟨"Hero", [("size", .arr [.arr [.int (-3)]]), ("title", .str "\"Hi\"")]⟩], none⟩),
    ("Blog", ⟨[], some ⟨none, none, none, none⟩⟩)], 0⟩

def shopGenerator : Generator :=
  ⟨.builtin, { Layout.standard with componentModules := true }⟩

def shopOverrides : SeoOverrides :=
  [("Blog", ⟨some "News", none, some ["news"], some "/cover.png"⟩)]

theorem shop_files_carry : shopGenerator.registry.Legible ∧ shopDocument.Legible ∧
    Document.parse? shopText = some shopDocument ∧
    ∃ files, shopGenerator.generate shopDocument shopOverrides = .ok files ∧ files.length = 6 ∧
      ∃ works index, Generator.Composed shopGenerator shopDocument shopOverrides works index files ∧
        (∀ w ∈ works, ∃ entries, w.Carries shopGenerator shopOverrides entries) ∧
        Generator.Indexes index works
          (Generator.indexModule index (works.map Generator.PageWork.entry)) := by
  have parsed : Document.parse? shopText = some shopDocument := by decide +kernel
  have exact : shopDocument.toJson.Exact := by
    simp [shopDocument, Document.toJson, Page.toJson, Component.toJson, Json.ofNat, Seo.members]
  have own : shopDocument.Legible := Document.legible_of_parse? parsed exact
  have defaults : shopGenerator.registry.Legible := Registry.legible_builtin
  have count : (shopGenerator.generate shopDocument shopOverrides).map List.length = .ok 6 := by
    decide +kernel
  obtain ⟨files, ok, count⟩ := exists_of_map_eq_ok count
  exact ⟨defaults, own, parsed, files, ok, count, Generator.generated_files_carry defaults own ok⟩

def cardGenerator : Generator :=
  ⟨⟨[("Card", ⟨"Card", [⟨"title", .text, .str "Untitled"⟩, ⟨"tags.list", .items, .arr []⟩]⟩)]⟩,
    { Layout.standard with componentModules := true }⟩

def cardDocument : Document :=
  ⟨[("index", ⟨[⟨"Card", [("note", .str "\"quoted\"\n\\"), ("size.steps", .arr [.arr [.int (-3)]])]⟩,
      ⟨"Card", []⟩], none⟩),
    ("Blog/First post", ⟨[], some ⟨some "Post", none, some ["news"], some "/cover.png"⟩⟩)], 0⟩

theorem card_generates :
    ∃ files, cardGenerator.generate cardDocument [] = .ok files ∧ files.length = 7 :=
  exists_of_map_eq_ok (by decide +kernel)

end SitePublish
