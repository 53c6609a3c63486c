import Mathlib.Data.List.Forall2
import SitePublish.Page.Generation
import SitePublish.Proofs.Dict
import SitePublish.Proofs.Except

/-!
# What a generation consists of

A generation that succeeds has the files of each page of the document, in the order of the pages, and
behind them the index. A page is generated from its components in the order in which they stand; no
two pages have one key, as they would have one route.
-/

set_option autoImplicit false

namespace SitePublish

theorem map_eq_of_map_eq {α β γ δ : Type} {f : α → γ} {f' : β → γ} {g : α → δ} {g' : β → δ}
    {l : List α} {l' : List β} (hangs : ∀ a ∈ l, ∀ b ∈ l', f a = f' b → g a = g' b)
    (same : l.map f = l'.map f') : l.map g = l'.map g' := by
  induction l generalizing l' with
  | nil =>
    rw [List.map_eq_nil_iff.mp same.symm]
    rfl
  | cons a l ih =>
    cases l' with
    | nil => cases same
    | cons b l' =>
      obtain ⟨here, same⟩ := List.cons.inj same
      rw [List.map_cons, List.map_cons, hangs a List.mem_cons_self b List.mem_cons_self here,
        ih (fun c hc d hd => hangs c (List.mem_cons_of_mem a hc) d (List.mem_cons_of_mem b hd)) same]

namespace Document

variable {seen : List (Route × String)} {keys : List String} {routes : List (String × Route)}

theorem rows_of_routesFrom (h : routesFrom seen keys = .ok routes) :
    routes.map Prod.fst = keys ∧ ∀ row ∈ routes, Route.ofKey row.1 = .ok row.2 := by
  induction keys generalizing seen routes with
  | nil =>
    cases h
    exact ⟨rfl, nofun⟩
  | cons key rest ih =>
    rw [routesFrom] at h
    split at h
    · cases h
    · next r hr =>
      split at h
      · cases h
      · split at h
        · next more =>
          cases h
          obtain ⟨same, routed⟩ := ih more
          exact ⟨by rw [List.map_cons, same], List.forall_mem_cons.mpr ⟨hr, routed⟩⟩
        · cases h

theorem fresh_of_routesFrom (h : routesFrom seen keys = .ok routes) {key : String}
    (mem : key ∈ keys) {r : Route} (hr : Route.ofKey key = .ok r) : Dict.get? seen r = none := by
  induction keys generalizing seen routes with
  | nil => cases mem
  | cons first rest ih =>
    rw [routesFrom] at h
    split at h
    · cases h
    · next r' hr' =>
      split at h
      · cases h
      · next fresh =>
        split at h
        · next more =>
          rcases List.mem_cons.mp mem with rfl | mem
          · cases hr'.symm.trans hr
            exact fresh
          · have free := ih more mem
            rw [Dict.get?] at free
            split at free
            · cases free
            · exact free
        · cases h

theorem nodup_of_routesFrom (h : routesFrom seen keys = .ok routes) : keys.Nodup := by
  induction keys generalizing seen routes with
  | nil => exact List.nodup_nil
  | cons key rest ih =>
    rw [routesFrom] at h
    split at h
    · cases h
    · next r hr =>
      split at h
      · cases h
      · split at h
        · next more =>
          refine List.nodup_cons.mpr ⟨fun again => ?_, ih more⟩
          have free := fresh_of_routesFrom more again hr
          rw [Dict.get?, if_pos rfl] at free
          cases free
        · cases h

theorem nodup_routes_of_routesFrom (h : routesFrom seen keys = .ok routes) :
    (routes.map Prod.snd).Nodup := by
  induction keys generalizing seen routes with
  | nil =>
    cases h
    exact List.nodup_nil
  | cons key rest ih =>
    rw [routesFrom] at h
    split at h
    · cases h
    · next r hr =>
      split at h
      · cases h
      · split at h
        · next others more =>
          cases h
          refine List.nodup_cons.mpr ⟨fun again => ?_, ih more⟩
          obtain ⟨row, mem, rfl⟩ := List.mem_map.mp again
          obtain ⟨same, routed⟩ := rows_of_routesFrom more
          have free := fresh_of_routesFrom more (same ▸ List.mem_map_of_mem mem) (routed row mem)
          rw [Dict.get?, if_pos rfl] at free
          cases free
        · cases h

end Document

namespace Generator

/-- A component as it is placed at an index of a page with this route. -/
inductive Places (reg : Registry) (r : Route) : Component × Nat → PlacedComponent → Prop
  | intro {c : Component} {index : Nat} {design : Design} {props : Dict String Json}
      (known : reg.get? c.type = some design) (resolved : Props.resolve design c = .ok props) :
      Places reg r (c, index) ⟨idStem r ++ "-" ++ toString index, c.type, props⟩

theorem places_of_placeFrom {reg : Registry} {key : String} {r : Route} {index : Nat}
    {components : List Component} {placed : List PlacedComponent}
    (h : placeFrom reg key r index components = .ok placed) :
    List.Forall₂ (Places reg r) (components.zipIdx index) placed := by
  induction components generalizing index placed with
  | nil =>
    cases h
    exact .nil
  | cons c rest ih =>
    rw [placeFrom] at h
    split at h
    · cases h
    · next design known =>
      split at h
      · cases h
      · next props resolved =>
        split at h
        · cases h
        · next more =>
          cases h
          exact .cons (.intro known resolved) (ih more)

inductive Moduled (l : Layout) (r : Route) : PlacedComponent × Nat → GeneratedFile → Prop
  | intro {c : PlacedComponent} {index : Nat} {path : SitePath}
      (path_eq : componentModulePath l r index c.type = .ok path) :
      Moduled l r (c, index) ⟨path, componentModule c⟩

theorem moduled_of_componentFiles {l : Layout} {r : Route} {index : Nat}
    {placed : List PlacedComponent} {files : List GeneratedFile}
    (h : componentFiles l r index placed = .ok files) :
    List.Forall₂ (Moduled l r) (placed.zipIdx index) files := by
  induction placed generalizing index files with
  | nil =>
    cases h
    exact .nil
  | cons c rest ih =>
    rw [componentFiles] at h
    split at h
    · cases h
    · next path_eq =>
      split at h
      · cases h
      · next more =>
        cases h
        exact .cons (.intro path_eq) (ih more)

/-- What a page is generated from and into. -/
structure PageWork where
  key : String
  page : Page
  route : Route
  placed : List PlacedComponent
  dataPath : SitePath
  modulePath : SitePath
  modules : List GeneratedFile

namespace PageWork

variable (g : Generator) (overrides : SeoOverrides) (w : PageWork)

def source : String × Page := (w.key, w.page)

def seo : SeoBlock := .ofPage w.page (overrides.get? w.key) w.route

def dataFile : GeneratedFile :=
  ⟨w.dataPath, Generator.dataFile w.key w.route (w.seo overrides) w.placed⟩

def routeFile : GeneratedFile :=
  ⟨w.modulePath, routeModule (w.seo overrides) g.layout.rendererImport
    (relativeImport w.modulePath w.dataPath)⟩

def files : List GeneratedFile := w.dataFile overrides :: w.routeFile g overrides :: w.modules

def entry : Route × SitePath := (w.route, w.dataPath)

structure Made : Prop where
  route : Route.ofKey w.key = .ok w.route
  placed : List.Forall₂ (Places g.registry w.route) w.page.components.zipIdx w.placed
  data : Generator.dataPath g.layout w.route = .ok w.dataPath
  module : routeModulePath g.layout w.route = .ok w.modulePath
  modules : if g.layout.componentModules then
    List.Forall₂ (Moduled g.layout w.route) w.placed.zipIdx w.modules else w.modules = []

end PageWork

variable {g : Generator} {d : Document} {overrides : SeoOverrides}

theorem made_of_pageFiles {key : String} {r : Route} {page : Page} {out : PageFiles}
    (h : pageFiles g key r page (overrides.get? key) = .ok out) (route : Route.ofKey key = .ok r) :
    ∃ w : PageWork, w.Made g ∧ w.source = (key, page) ∧ w.entry = (r, out.dataPath) ∧
      w.files g overrides = out.files := by
  obtain ⟨placed, place, h⟩ := exists_of_bind_eq_ok h
  obtain ⟨dataPath, data, h⟩ := exists_of_bind_eq_ok h
  obtain ⟨modulePath, module, h⟩ := exists_of_bind_eq_ok h
  have made (modules : List GeneratedFile) (parts : if g.layout.componentModules then
      List.Forall₂ (Moduled g.layout r) placed.zipIdx modules else modules = []) :
      (PageWork.mk key page r placed dataPath modulePath modules).Made g :=
    ⟨route, places_of_placeFrom place, data, module, parts⟩
  dsimp only at h
  split at h
  · next on =>
    obtain ⟨modules, parts, h⟩ := exists_of_bind_eq_ok h
    cases h
    exact ⟨_, made modules ((if_pos on).mpr (moduled_of_componentFiles parts)), rfl, rfl, rfl⟩
  · next off =>
    cases h
    exact ⟨_, made [] ((if_neg off).mpr rfl), rfl, rfl, rfl⟩

theorem made_of_pagesFrom {routes : List (String × Route)} {files : List GeneratedFile}
    {entries : List (Route × SitePath)} (h : pagesFrom g d overrides routes = .ok (files, entries))
    (present : ∀ row ∈ routes, ∃ page, Dict.get? d.pages row.1 = some page)
    (routed : ∀ row ∈ routes, Route.ofKey row.1 = .ok row.2) :
    ∃ works : List PageWork, (∀ w ∈ works, w.Made g ∧ Dict.get? d.pages w.key = some w.page) ∧
      works.map PageWork.key = routes.map Prod.fst ∧
      files = works.flatMap (PageWork.files g overrides) ∧ entries = works.map PageWork.entry := by
  induction routes generalizing files entries with
  | nil =>
    cases h
    exact ⟨[], nofun, rfl, rfl, rfl⟩
  | cons row rest ih =>
    obtain ⟨key, r⟩ := row
    obtain ⟨⟨page, here⟩, present⟩ := List.forall_mem_cons.mp present
    obtain ⟨route, routed⟩ := List.forall_mem_cons.mp routed
    rw [pagesFrom, here] at h
    dsimp only at h
    split at h
    · cases h
    · next out single =>
      split at h
      · cases h
      · next more =>
        cases h
        obtain ⟨w, made, source, entry, same⟩ := made_of_pageFiles single route
        obtain ⟨works, all, keys, rfl, rfl⟩ := ih more present routed
        obtain ⟨key_eq, page_eq⟩ := Prod.mk.inj source
        refine ⟨w :: works, List.forall_mem_cons.mpr ⟨⟨made, by rw [key_eq, page_eq, here]⟩, all⟩,
          by rw [List.map_cons, List.map_cons, keys, key_eq], ?_, ?_⟩
        · rw [List.flatMap_cons, same]
        · rw [List.map_cons, entry]

/-- A generation that succeeds, taken apart. -/
structure Composed (g : Generator) (d : Document) (overrides : SeoOverrides)
    (works : List PageWork) (index : SitePath) (files : List GeneratedFile) : Prop where
  pages : works.map PageWork.source = d.pages
  made : ∀ w ∈ works, w.Made g
  distinct : (works.map PageWork.route).Nodup
  index_eq : join g.layout.dataDir Layout.indexFile = .ok index
  files_eq : files = works.flatMap (PageWork.files g overrides) ++
    [⟨index, indexModule index (works.map PageWork.entry)⟩]

theorem source_eq_pages {pages : List (String × Page)} {works : List PageWork}
    (keys : works.map PageWork.key = Dict.keys pages)
    (found : ∀ w ∈ works, ∀ e ∈ pages, e.1 = w.key → e.2 = w.page) :
    works.map PageWork.source = pages := by
  have same : works.map PageWork.source = pages.map id :=
    map_eq_of_map_eq (fun w hw e he key => Prod.ext key (found w hw e he key.symm).symm) keys
  rwa [List.map_id] at same

theorem routes_eq_of_keys {works : List PageWork} {routes : List (String × Route)}
    (keys : works.map PageWork.key = routes.map Prod.fst)
    (made : ∀ w ∈ works, Route.ofKey w.key = .ok w.route)
    (routed : ∀ row ∈ routes, Route.ofKey row.1 = .ok row.2) :
    works.map PageWork.route = routes.map Prod.snd := by
  refine map_eq_of_map_eq (fun w hw row hrow key => ?_) keys
  have here := made w hw
  rw [key] at here
  exact Except.ok.inj (here.symm.trans (routed row hrow))

theorem composed_of_pagesFrom {routes : List (String × Route)} {files : List GeneratedFile}
    {entries : List (Route × SitePath)} {index : SitePath} (hr : d.routes = .ok routes)
    (built : pagesFrom g d overrides routes = .ok (files, entries))
    (index_eq : join g.layout.dataDir Layout.indexFile = .ok index) :
    ∃ works, Composed g d overrides works index
      (files ++ [⟨index, indexModule index entries⟩]) := by
  obtain ⟨keys, routed⟩ := Document.rows_of_routesFrom hr
  have distinct := Document.nodup_of_routesFrom hr
  have present : ∀ row ∈ routes, ∃ page, Dict.get? d.pages row.1 = some page :=
    fun row mem => Dict.mem_keys_iff.mp (keys ▸ List.mem_map_of_mem mem)
  obtain ⟨works, made, same, rfl, rfl⟩ := made_of_pagesFrom built present routed
  have apart : (works.map PageWork.route).Nodup := by
    rw [routes_eq_of_keys same (fun w mem => (made w mem).1.route) routed]
    exact Document.nodup_routes_of_routesFrom hr
  refine ⟨works, ?_, fun w mem => (made w mem).1, apart, index_eq, rfl⟩
  refine source_eq_pages (same.trans keys) fun w hw e he key => ?_
  have found := (made w hw).2
  rw [← key, Dict.get?_of_mem distinct he, Option.some.injEq] at found
  exact found

theorem composed_of_generate {files : List GeneratedFile}
    (h : g.generate d overrides = .ok files) :
    ∃ works index, Composed g d overrides works index files := by
  unfold generate at h
  split at h
  · cases h
  · next routes hr =>
    split at h
    · cases h
    · next files entries built =>
      split at h
      · cases h
      · next index index_eq =>
        obtain ⟨works, composed⟩ := composed_of_pagesFrom hr built index_eq
        dsimp only at h
        split at h
        · cases h
        · cases h
          exact ⟨works, index, composed⟩

end Generator

end SitePublish
