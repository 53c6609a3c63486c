import SitePublish.Proofs.Page.Generation
import SitePublish.Proofs.Page.Naming
import SitePublish.Proofs.Remote.Plan

/-!
# Who owns a generated file

A layout owns what lies below its data directory and the route modules below its application
directory, and a plan deletes what is owned and no longer generated. Generated files lie where their
names lead to from these directories, which is not below them if a directory begins with a blank. So
the two agree for straight layouts only; any other layout leaves files behind or cannot name them.
-/

set_option autoImplicit false

namespace SitePublish

namespace SitePath

variable {p p' q : SitePath} {dir : SitePath}

theorem isUnder_trans (h : p.isUnder q.text = true) (hq : q.isUnder dir.text = true) :
    p.isUnder dir.text = true :=
  (isUnder_iff p dir.text dir.bare).mpr
    (((isUnder_iff q dir.text dir.bare).mp hq).trans ((isUnder_iff p q.text q.bare).mp h))

end SitePath

theorem prefix_of_parted {α : Type} {d front a b : List α} (ha : d <+: front ++ a)
    (hb : d <+: front ++ b) (parted : a.head? ≠ b.head?) : d <+: front := by
  rcases List.prefix_or_prefix_of_prefix ha (List.prefix_append front a) with h | ⟨rest, rfl⟩
  · exact h
  · rw [List.prefix_append_right_inj] at ha hb
    cases rest with
    | nil => simp
    | cons x rest =>
      obtain ⟨s, rfl⟩ := ha
      obtain ⟨t, rfl⟩ := hb
      exact absurd rfl parted

namespace GenerationError

/-- Every file of a generation that ends like this could be named. -/
def Nameable {α : Type} (x : Except GenerationError α) : Prop := ∀ raw, x ≠ .error (.invalidPath raw)

variable {α β : Type}

theorem Nameable.ok (a : α) : Nameable (.ok a) := nofun

theorem Nameable.of_ne {e : GenerationError} (h : ∀ raw, e ≠ .invalidPath raw) :
    Nameable (.error e : Except GenerationError α) :=
  fun raw he => h raw (Except.error.inj he)

theorem Nameable.bind {x : Except GenerationError α} {f : α → Except GenerationError β}
    (hx : Nameable x) (hf : ∀ a, Nameable (f a)) : Nameable (x >>= f) := by
  cases x with
  | error e => exact fun raw h => hx raw (by cases h; rfl)
  | ok a => exact hf a

theorem Nameable.error {e : GenerationError} (h : Nameable (.error e : Except GenerationError α)) :
    Nameable (.error e : Except GenerationError β) :=
  fun raw he => h raw (by cases he; rfl)

theorem nameable_ofRouteError (e : DocumentRouteError) :
    Nameable (.error (ofRouteError e) : Except GenerationError α) := by
  cases e <;> exact .of_ne (by simp [ofRouteError])

theorem nameable_ofPropError (page : String) (index : Nat) (type : String) (e : PropError) :
    Nameable (.error (ofPropError page index type e) : Except GenerationError α) := by
  cases e <;> exact .of_ne (by simp [ofPropError])

end GenerationError

namespace Layout

open GenerationError (Nameable)

variable {l : Layout} {key : String} {r : Route} {rest : String}

/-- The data directory leads below itself, and the application directory below one of the two. -/
def Straight (l : Layout) : Prop :=
  l.dataDir.IsFlush ∧
    (l.appDir.IsFlush ∨ ∃ q, l.appDir.opened = .ok q ∧ q.isUnder l.dataDir.text = true)

/-- A place of a file: it can be named, and the layout owns it. -/
def Claims (l : Layout) (x : Except GenerationError SitePath) : Prop :=
  ∃ p, x = .ok p ∧ l.owns p = true

namespace Claims

variable {x : Except GenerationError SitePath}

theorem nameable (h : l.Claims x) : Nameable x := by
  obtain ⟨p, rfl, -⟩ := h
  exact .ok p

theorem owns {p : SitePath} (h : l.Claims x) (ok : x = .ok p) : l.owns p = true := by
  obtain ⟨p', ok', owned⟩ := h
  cases ok'.symm.trans ok
  exact owned

end Claims

theorem owns_of_data {p : SitePath} (h : p.isUnder l.dataDir.text = true) : l.owns p = true := by
  rw [Layout.owns, h, Bool.true_or]

namespace Straight

open Generator
open SitePath (Tidy)

variable (h : l.Straight)
include h

theorem claims_data (tidy : Tidy rest.toList) : l.Claims (join l.dataDir rest) := by
  obtain ⟨p, ok, -⟩ := join_of_opened tidy (SitePath.opened_of_flush h.1)
  exact ⟨p, ok, owns_of_data (isUnder_of_join tidy h.1 ok)⟩

theorem claims_module (route : Route.ofKey key = .ok r) : l.Claims (routeModulePath l r) := by
  have tidy := tidy_moduleName route
  rw [routeModulePath_eq]
  rcases h.2 with flush | ⟨q, opened, below⟩
  · obtain ⟨p, ok, -⟩ := join_of_opened tidy (SitePath.opened_of_flush flush)
    refine ⟨p, ok, ?_⟩
    have name : p.fileName = routeModuleFile := by
      rw [fileName_of_join tidy ok, lastSegment_moduleName, String.ofList_toList]
    rw [Layout.owns, isUnder_of_join tidy flush ok, name, decide_eq_true rfl, Bool.and_self,
      Bool.or_true]
  · obtain ⟨p, ok, text⟩ := join_of_opened tidy opened
    exact ⟨p, ok, owns_of_data (SitePath.isUnder_trans (SitePath.within_append text) below)⟩

theorem claims_component (route : Route.ofKey key = .ok r) (index : Nat) (type : String) :
    l.Claims (componentModulePath l r index type) :=
  h.claims_data (tidy_componentName route index type)

end Straight

end Layout

namespace Generator

open GenerationError (Nameable)

variable {g : Generator} {key : String} {r : Route}

theorem nameable_placeFrom (reg : Registry) (key : String) (r : Route) (index : Nat)
    (components : List Component) : Nameable (placeFrom reg key r index components) := by
  induction components generalizing index with
  | nil => exact .ok _
  | cons c rest ih =>
    rw [placeFrom]
    split
    · exact .of_ne (by simp)
    · split
      · exact GenerationError.nameable_ofPropError _ _ _ _
      · have more := ih (index + 1)
        split
        · next failed => exact (failed ▸ more).error
        · exact .ok _

theorem componentModulePath_of_moduled {l : Layout} {placed : List (PlacedComponent × Nat)}
    {files : List GeneratedFile} (h : List.Forall₂ (Moduled l r) placed files) :
    ∀ f ∈ files, ∃ index type, componentModulePath l r index type = .ok f.path := by
  induction h with
  | nil => exact nofun
  | cons first _ ih =>
    cases first with
    | intro path => exact List.forall_mem_cons.mpr ⟨⟨_, _, path⟩, ih⟩

section Straight

variable (straight : g.layout.Straight)
include straight

theorem nameable_componentFiles (route : Route.ofKey key = .ok r) (index : Nat)
    (placed : List PlacedComponent) : Nameable (componentFiles g.layout r index placed) := by
  induction placed generalizing index with
  | nil => exact .ok _
  | cons c rest ih =>
    rw [componentFiles]
    split
    · next failed =>
      exact (failed ▸ (straight.claims_component route index c.type).nameable).error
    · have more := ih (index + 1)
      split
      · next failed => exact (failed ▸ more).error
      · exact .ok _

theorem nameable_pageFiles (route : Route.ofKey key = .ok r) (page : Page) (upper : Option Seo) :
    Nameable (pageFiles g key r page upper) := by
  refine .bind (nameable_placeFrom _ _ _ _ _) fun placed => ?_
  refine .bind (straight.claims_data (tidy_dataName route)).nameable fun dataPath => ?_
  refine .bind (straight.claims_module route).nameable fun modulePath => ?_
  dsimp only
  split
  · exact .bind (nameable_componentFiles straight route 0 placed) fun _ => .ok _
  · exact .ok _

theorem nameable_pagesFrom (d : Document) (overrides : SeoOverrides)
    {routes : List (String × Route)} (routed : ∀ row ∈ routes, Route.ofKey row.1 = .ok row.2) :
    Nameable (pagesFrom g d overrides routes) := by
  induction routes with
  | nil => exact .ok _
  | cons row rest ih =>
    obtain ⟨key, r⟩ := row
    obtain ⟨route, routed⟩ := List.forall_mem_cons.mp routed
    have more := ih routed
    rw [pagesFrom]
    split
    · exact more
    · next page _ =>
      have single := nameable_pageFiles straight route page (overrides.get? key)
      split
      · next failed => exact (failed ▸ single).error
      · split
        · next failed => exact (failed ▸ more).error
        · exact .ok _

theorem nameable_generate (d : Document) (overrides : SeoOverrides) :
    Nameable (g.generate d overrides) := by
  unfold generate
  split
  · exact GenerationError.nameable_ofRouteError _
  · next routes hr =>
    have pages := nameable_pagesFrom straight d overrides (Document.rows_of_routesFrom hr).2
    have index := (straight.claims_data tidy_indexName).nameable
    split
    · next failed => exact (failed ▸ pages).error
    · split
      · next failed => exact (failed ▸ index).error
      · dsimp only
        split
        · exact .of_ne (by simp)
        · exact .ok _

theorem owns_of_made {w : PageWork} (made : w.Made g) (overrides : SeoOverrides) :
    ∀ f ∈ w.files g overrides, g.layout.owns f.path = true := by
  refine List.forall_mem_cons.mpr ⟨?_, List.forall_mem_cons.mpr ⟨?_, fun f hf => ?_⟩⟩
  · exact (straight.claims_data (tidy_dataName made.route)).owns made.data
  · exact (straight.claims_module made.route).owns made.module
  · have modules := made.modules
    split at modules
    · obtain ⟨index, type, path⟩ := componentModulePath_of_moduled modules f hf
      exact (straight.claims_component made.route index type).owns path
    · rw [modules] at hf
      cases hf

theorem owns_of_generate {d : Document} {overrides : SeoOverrides} {files : List GeneratedFile}
    (h : g.generate d overrides = .ok files) : ∀ f ∈ files, g.layout.owns f.path = true := by
  obtain ⟨works, index, composed⟩ := composed_of_generate h
  rw [composed.files_eq]
  refine List.forall_mem_append.mpr ⟨fun f hf => ?_, List.forall_mem_singleton.mpr ?_⟩
  · obtain ⟨w, hw, hf⟩ := List.mem_flatMap.mp hf
    exact owns_of_made straight (composed.made w hw) overrides f hf
  · exact (straight.claims_data tidy_indexName).owns composed.index_eq

end Straight

theorem eq_invalidPath_of_join {dir : SitePath} {rest : String} {e : GenerationError}
    (h : join dir rest = .error e) : ∃ raw, e = .invalidPath raw := by
  unfold join at h
  dsimp only at h
  split at h
  · cases h
  · cases h
    exact ⟨_, rfl⟩

theorem generate_blank (g : Generator) : g.generate ⟨[], 0⟩ [] =
    (join g.layout.dataDir Layout.indexFile).map fun p => [⟨p, indexModule p []⟩] := by
  cases index_eq : join g.layout.dataDir Layout.indexFile <;>
    simp [generate, Document.routes, Document.routesFrom, Dict.keys, pagesFrom, index_eq, Except.map,
      repeatedPath]

def lone (key : String) : Document := ⟨[(key, ⟨[], none⟩)], 0⟩

theorem routes_lone (route : Route.ofKey key = .ok r) : (lone key).routes = .ok [(key, r)] := by
  simp [lone, Document.routes, Document.routesFrom, Dict.keys, Dict.get?, route]

section Lone

variable {data module index : SitePath} (route : Route.ofKey key = .ok r)
  (data_eq : dataPath g.layout r = .ok data)
include route data_eq

theorem generate_lone_of_error {e : GenerationError}
    (failed : routeModulePath g.layout r = .error e) : g.generate (lone key) [] = .error e := by
  have pages : pagesFrom g (lone key) [] [(key, r)] = .error e := by
    simp [pagesFrom, lone, Dict.get?, pageFiles, placeFrom, data_eq, failed, bind, Except.bind]
  rw [generate, routes_lone route]
  dsimp only
  rw [pages]

theorem generate_lone_of_ok (module_eq : routeModulePath g.layout r = .ok module)
    (index_eq : join g.layout.dataDir Layout.indexFile = .ok index)
    (distinct : [data, module, index].Nodup) :
    ∃ files, g.generate (lone key) [] = .ok files ∧ ∃ f ∈ files, f.path = module := by
  have pages : ∃ a b, pagesFrom g (lone key) [] [(key, r)] =
      .ok ([⟨data, a⟩, ⟨module, b⟩], [(r, data)]) := by
    simp [pagesFrom, lone, Dict.get?, pageFiles, placeFrom, componentFiles, data_eq, module_eq,
      bind, Except.bind, pure, Except.pure]
  obtain ⟨a, b, pages⟩ := pages
  simp only [List.nodup_cons, List.mem_cons, List.not_mem_nil, or_false, not_or] at distinct
  obtain ⟨⟨first, second⟩, third, -⟩ := distinct
  have once (c : String) : repeatedPath [] [⟨data, a⟩, ⟨module, b⟩, ⟨index, c⟩] = none := by
    simp [repeatedPath, Ne.symm first, Ne.symm second, Ne.symm third]
  simp [generate, routes_lone route, pages, index_eq, once]

end Lone

end Generator

namespace Layout

open Generator

variable {l : Layout}

/-- The generator and the planner agree: every file can be named, the layout owns it, and a plan that
does not retain it deletes it from a snapshot. -/
structure Agrees (l : Layout) : Prop where
  named (reg : Registry) (d : Document) (overrides : SeoOverrides) (raw : String) :
    generate ⟨reg, l⟩ d overrides ≠ .error (.invalidPath raw)
  owned {reg : Registry} {d : Document} {overrides : SeoOverrides} {files : List GeneratedFile} :
    generate ⟨reg, l⟩ d overrides = .ok files → ∀ f ∈ files, l.owns f.path = true
  deleted {reg : Registry} {d : Document} {overrides : SeoOverrides} {files : List GeneratedFile} :
    generate ⟨reg, l⟩ d overrides = .ok files → ∀ f ∈ files,
      ∀ (retained : List Candidate) (snapshot : Snapshot), f.path ∈ snapshot.blobs.keys →
        (∀ c ∈ retained, c.path ≠ f.path) →
        f.path ∈ (CommitPlan.ofSnapshot retained (some snapshot) l.owns).deletions

theorem Straight.agrees (h : l.Straight) : l.Agrees where
  named _ d overrides := nameable_generate (g := ⟨_, l⟩) h d overrides
  owned ok := owns_of_generate (g := ⟨_, l⟩) h ok
  deleted ok f hf _ _ present dropped :=
    CommitPlan.mem_deletions.mpr ⟨present, dropped, owns_of_generate (g := ⟨_, l⟩) h ok f hf⟩

namespace Agrees

variable (h : l.Agrees)
include h

theorem index_claimed : ∃ p, join l.dataDir indexFile = .ok p ∧ p.isUnder l.dataDir.text = true := by
  have blank := generate_blank ⟨⟨[]⟩, l⟩
  dsimp only at blank
  cases hj : join l.dataDir indexFile with
  | error e =>
    obtain ⟨raw, rfl⟩ := eq_invalidPath_of_join hj
    rw [hj] at blank
    exact absurd blank (h.named _ _ _ raw)
  | ok p =>
    rw [hj] at blank
    have owned := h.owned blank _ List.mem_cons_self
    have name : p.fileName = indexFile := by
      rw [fileName_of_join tidy_indexName hj]
      decide
    rw [owns, name, decide_eq_false (by decide), Bool.and_false, Bool.or_false] at owned
    exact ⟨p, rfl, owned⟩

theorem dataDir_flush : l.dataDir.IsFlush := by
  obtain ⟨p, ok, below⟩ := h.index_claimed
  by_contra blank
  rw [not_isUnder_of_join tidy_indexName blank ok] at below
  cases below

theorem module_claimed {key : String} {r : Route} (route : Route.ofKey key = .ok r)
    (plain : SitePath.lastSegment (r.fileStem ++ ".ts").toList ∉
      [routeModuleFile.toList, indexFile.toList]) : l.Claims (routeModulePath l r) := by
  obtain ⟨index, index_eq, -⟩ := h.index_claimed
  obtain ⟨data, data_eq, -⟩ :=
    join_of_opened (tidy_dataName route) (SitePath.opened_of_flush h.dataDir_flush)
  cases hm : routeModulePath l r with
  | error e =>
    have failed := generate_lone_of_error (g := ⟨⟨[]⟩, l⟩) route data_eq hm
    obtain ⟨raw, rfl⟩ := eq_invalidPath_of_join (routeModulePath_eq l r ▸ hm)
    exact absurd failed (h.named _ _ _ raw)
  | ok module =>
    have data_name := fileName_of_join (tidy_dataName route) data_eq
    have module_name := fileName_of_join (tidy_moduleName route) (routeModulePath_eq l r ▸ hm)
    have index_name := fileName_of_join tidy_indexName index_eq
    rw [lastSegment_moduleName] at module_name
    have single : SitePath.lastSegment indexFile.toList = indexFile.toList := by decide
    rw [single] at index_name
    simp only [List.mem_cons, List.not_mem_nil, or_false, not_or] at plain
    have distinct : [data, module, index].Nodup := by
      refine .of_map SitePath.fileName ?_
      rw [List.map_cons, List.map_cons, List.map_singleton, data_name, module_name, index_name]
      refine .map (f := String.ofList) SitePath.ofList_injective (l := [_, _, _]) ?_
      have apart : routeModuleFile.toList ≠ indexFile.toList := by decide
      rw [List.nodup_cons, List.nodup_cons, List.mem_cons, List.mem_singleton, List.mem_singleton]
      exact ⟨not_or.mpr plain, apart, List.nodup_singleton _⟩
    obtain ⟨files, ok, f, hf, rfl⟩ :=
      generate_lone_of_ok (g := ⟨⟨[]⟩, l⟩) route data_eq hm index_eq distinct
    exact ⟨f.path, rfl, h.owned ok f hf⟩

end Agrees

/-- The route modules of an application directory that begins with blanks are not below it. -/
theorem isUnder_of_claims {key : String} {r : Route} (route : Route.ofKey key = .ok r)
    (blank : ¬ l.appDir.IsFlush) (claimed : l.Claims (routeModulePath l r)) :
    ∃ p, join l.appDir (moduleName r) = .ok p ∧ Within l.dataDir.text p.segments := by
  obtain ⟨p, ok, owned⟩ := claimed
  rw [routeModulePath_eq] at ok
  rw [owns, not_isUnder_of_join (tidy_moduleName route) blank ok, Bool.false_and, Bool.or_false,
    SitePath.isUnder_iff _ _ l.dataDir.bare] at owned
  exact ⟨p, ok, owned⟩

theorem Agrees.straight (h : l.Agrees) : l.Straight := by
  refine ⟨h.dataDir_flush, or_iff_not_imp_left.mpr fun blank => ?_⟩
  have home : Route.ofKey "index" = .ok .root := by decide
  have about : Route.ofKey "about" = .ok ⟨"/about"⟩ := by decide
  obtain ⟨p, ok, below⟩ := isUnder_of_claims home blank (h.module_claimed home (by decide))
  obtain ⟨p', ok', below'⟩ := isUnder_of_claims about blank (h.module_claimed about (by decide))
  -- the two ways part behind the directory, so what they both begin with is the directory's
  have parted : (SitePath.segmentsOf (moduleName .root).toList).head? ≠
      (SitePath.segmentsOf (moduleName ⟨"/about"⟩).toList).head? := by decide
  cases opened : l.appDir.opened with
  | ok q =>
    obtain ⟨_, same, text⟩ := join_of_opened (tidy_moduleName home) opened
    obtain ⟨_, same', text'⟩ := join_of_opened (tidy_moduleName about) opened
    cases same.symm.trans ok
    cases same'.symm.trans ok'
    rw [SitePath.segments_eq, text, SitePath.segmentsOf_append] at below
    rw [SitePath.segments_eq, text', SitePath.segmentsOf_append] at below'
    exact ⟨q, rfl, (SitePath.isUnder_iff q _ l.dataDir.bare).mpr
      (prefix_of_parted below below' parted)⟩
  | error e =>
    cases e with
    | containsTraversal =>
      rw [join_of_traversal (tidy_moduleName home) opened] at ok
      cases ok
    | empty =>
      obtain ⟨_, same, text⟩ := join_of_empty (tidy_moduleName home) opened
      obtain ⟨_, same', text'⟩ := join_of_empty (tidy_moduleName about) opened
      cases same.symm.trans ok
      cases same'.symm.trans ok'
      rw [SitePath.segments_eq, text] at below
      rw [SitePath.segments_eq, text'] at below'
      have none : Text.splitOn '/' l.dataDir.text <+: [] := prefix_of_parted below below' parted
      rw [List.prefix_nil, Text.splitOn, List.map_eq_nil_iff] at none
      exact absurd none (Text.splitChars_ne_nil _ _)

/-- Generator and planner agree for the straight layouts and no others. -/
theorem agrees_iff_straight (l : Layout) : l.Agrees ↔ l.Straight :=
  ⟨Agrees.straight, Straight.agrees⟩

def withDataDir (name : String) (segment : SitePath.IsSegment name.toList) : Layout :=
  { standard with
    dataDir :=
      { text := name
        normal := ⟨[name.toList], List.cons_ne_nil _ _, List.forall_mem_singleton.mpr segment, rfl⟩ } }

def spaced : Layout := withDataDir " site" (by simp [SitePath.IsSegment])

/-- What `/ ..` denotes begins with a blank, without which it would lead out of the project. -/
def dotted : Layout := withDataDir " .." (by simp [SitePath.IsSegment])

def deployed (files : List GeneratedFile) : Snapshot :=
  ⟨"c1", Dict.ofList (files.map fun f => (f.path, f.blob))⟩

theorem spaced_leaves :
    (generate ⟨⟨[]⟩, spaced⟩ (lone "about") []).map (fun files =>
      (files.map fun f => (f.path.text, spaced.owns f.path),
        (CommitPlan.ofSnapshot [] (some (deployed files)) spaced.owns).deletions.map SitePath.text)) =
    .ok ([("site/about.ts", false), ("src/app/about/page.tsx", true), ("site/_index.ts", false)],
      ["src/app/about/page.tsx"]) := by
  decide +kernel

theorem dotted_fails :
    generate ⟨⟨[]⟩, dotted⟩ (lone "about") [] = .error (.invalidPath " ../about.ts") := by
  rfl

theorem blank_directories_disagree :
    (SitePath.ofText "/ site" = .ok spaced.dataDir ∧ ¬ spaced.Agrees) ∧
      (SitePath.ofText "/ .." = .ok dotted.dataDir ∧ ¬ dotted.Agrees) := by
  refine ⟨⟨by decide, fun agrees => ?_⟩, by rfl, fun agrees => ?_⟩
  · obtain ⟨files, ok, here⟩ := exists_of_map_eq_ok spaced_leaves
    have owned : ∀ row ∈ files.map fun f => (f.path.text, spaced.owns f.path), row.2 = true := by
      simpa using agrees.owned ok
    rw [(Prod.mk.inj here).1] at owned
    exact absurd (owned _ List.mem_cons_self) Bool.false_ne_true
  · exact agrees.named _ _ _ _ dotted_fails

end Layout

end SitePublish
