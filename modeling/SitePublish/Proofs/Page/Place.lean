import SitePublish.Proofs.Page.Fault

/-!
# Places of generated files

Below directories whose texts denote themselves, the place of each file is written down from the
routes and the types of the components alone. A generation succeeds when the document is sound and all
these places are different, and it fails for the first fault otherwise. Without modules for components
two places are the same only if a page has the name of the index.
-/

set_option autoImplicit false

namespace SitePublish

namespace SitePath

def below (dir : SitePath) (rest : String) : String := dir.text ++ "/" ++ rest

variable {dir : SitePath} {a b : String}

theorem below_inj : dir.below a = dir.below b ↔ a = b := by
  simp [below, ← String.toList_inj]

theorem getLast?_below (dir : SitePath) {rest : String} (ne : rest.toList ≠ []) :
    (dir.below rest).toList.getLast? = rest.toList.getLast? := by
  rw [below, String.toList_append, List.getLast?_append_of_ne_nil _ ne]

end SitePath

namespace Generator

variable {g : Generator} {l : Layout} {key : String} {r : Route}

section Flush

variable {dir : SitePath} (flush : dir.IsFlush) {rest : String} (tidy : SitePath.Tidy rest.toList)
include flush tidy

theorem exists_join_of_flush : ∃ p, join dir rest = .ok p ∧ p.text = dir.below rest := by
  obtain ⟨p, ok, text⟩ := join_of_opened tidy (SitePath.opened_of_flush flush)
  refine ⟨p, ok, String.toList_injective ?_⟩
  rw [text, SitePath.below, String.toList_append, String.toList_append, List.append_assoc]
  rfl

theorem text_of_join {p : SitePath} (h : join dir rest = .ok p) : p.text = dir.below rest := by
  obtain ⟨q, ok, text⟩ := exists_join_of_flush flush tidy
  cases ok.symm.trans h
  exact text

end Flush

def dataName (r : Route) : String := r.fileStem ++ ".ts"

def componentName (r : Route) (index : Nat) (type : String) : String :=
  r.fileStem ++ "/components/" ++ twoDigits index ++ "-" ++ kebabCase type ++ ".ts"

def pagePlaces (l : Layout) (r : Route) (page : Page) : List String :=
  l.dataDir.below (dataName r) :: l.appDir.below (moduleName r) ::
    if l.componentModules then
      page.components.zipIdx.map fun c => l.dataDir.below (componentName r c.2 c.1.type)
    else []

def keyedPlaces (l : Layout) (e : String × Page) : List String :=
  match Route.ofKey e.1 with
  | .ok r => pagePlaces l r e.2
  | .error _ => []

def places (l : Layout) (pages : List (String × Page)) : List String :=
  pages.flatMap (keyedPlaces l) ++ [l.dataDir.below Layout.indexFile]

section Places

variable (data : l.dataDir.IsFlush) (app : l.appDir.IsFlush)
include data

theorem places_of_moduled (route : Route.ofKey key = .ok r) {placed : List (PlacedComponent × Nat)}
    {files : List GeneratedFile} (h : List.Forall₂ (Moduled l r) placed files) :
    files.map place = placed.map fun c => l.dataDir.below (componentName r c.2 c.1.type) := by
  induction h with
  | nil => rfl
  | cons first _ ih =>
    rw [List.map_cons, List.map_cons, ih]
    cases first with
    | intro path => rw [place, text_of_join data (tidy_componentName route _ _) path]; rfl

omit data in
theorem types_of_places {reg : Registry} {located : List (Component × Nat)}
    {placed : List PlacedComponent} (h : List.Forall₂ (Places reg r) located placed) :
    placed.map PlacedComponent.type = located.map fun c => c.1.type := by
  induction h with
  | nil => rfl
  | cons first _ ih =>
    rw [List.map_cons, List.map_cons, ih]
    cases first
    rfl

omit data in
theorem map_zipIdx_of_places {reg : Registry} {components : List Component}
    {placed : List PlacedComponent} (h : List.Forall₂ (Places reg r) components.zipIdx placed)
    (name : Nat → String → String) :
    (placed.zipIdx.map fun c => name c.2 c.1.type) =
      components.zipIdx.map fun c => name c.2 c.1.type := by
  have types : placed.map PlacedComponent.type = components.map Component.type := by
    rw [types_of_places h]
    conv => rhs; rw [← List.zipIdx_map_fst 0 components, List.map_map]
    rfl
  have both := congrArg (fun ts => ts.zipIdx.map fun t => name t.2 t.1) types
  simpa [List.zipIdx_map, Function.comp_def] using both

include app

theorem places_of_made {w : PageWork} (made : w.Made g) (layout : g.layout = l)
    (overrides : SeoOverrides) :
    (w.files g overrides).map place = pagePlaces l w.route w.page := by
  subst layout
  have data_eq : place (w.dataFile overrides) = g.layout.dataDir.below (dataName w.route) :=
    text_of_join data (tidy_dataName made.route) made.data
  have module_eq : place (w.routeFile g overrides) = g.layout.appDir.below (moduleName w.route) := by
    have module := made.module
    rw [routeModulePath_eq] at module
    exact text_of_join app (tidy_moduleName made.route) module
  have parts := made.modules
  rw [PageWork.files, List.map_cons, List.map_cons, data_eq, module_eq, pagePlaces]
  split
  · next on =>
    rw [if_pos on] at parts
    rw [places_of_moduled data made.route parts, map_zipIdx_of_places made.placed fun index type =>
      g.layout.dataDir.below (componentName w.route index type)]
  · next off =>
    rw [if_neg off] at parts
    rw [parts, List.map_nil]

theorem places_of_composed {d : Document} {overrides : SeoOverrides} {works : List PageWork}
    {index : SitePath} {files : List GeneratedFile}
    (composed : Composed g d overrides works index files) (layout : g.layout = l) :
    files.map place = places l d.pages := by
  subst layout
  have index_eq : index.text = g.layout.dataDir.below Layout.indexFile :=
    text_of_join data tidy_indexName composed.index_eq
  have parts : ∀ w ∈ works, (w.files g overrides).map place = keyedPlaces g.layout w.source := by
    intro w hw
    have made := composed.made w hw
    rw [places_of_made data app made rfl overrides, keyedPlaces, PageWork.source, made.route]
  rw [composed.files_eq, places, ← composed.pages, List.map_append, List.map_flatMap,
    List.flatMap_map, List.flatMap_congr parts, ← index_eq]
  rfl

theorem not_unnameable (e : GenerationError) : ¬ Unnameable l e := by
  rintro ⟨rest, tidy, failed | failed⟩
  · obtain ⟨p, ok, -⟩ := exists_join_of_flush data tidy
    cases ok.symm.trans failed
  · obtain ⟨p, ok, -⟩ := exists_join_of_flush app tidy
    cases ok.symm.trans failed

end Places

/-- A document for which files are generated. -/
structure Sound (g : Generator) (d : Document) : Prop where
  routable : Document.Routable (Dict.keys d.pages)
  placeable : Placeable g.registry d.pages
  apart : (places g.layout d.pages).Nodup

/-- What a generation is refused for: routes come before components, and these before paths. -/
inductive Refuses (g : Generator) (d : Document) (e : GenerationError) : Prop
  | route (fault : Document.RouteFault (Dict.keys d.pages) e) : Refuses g d e
  | component (routable : Document.Routable (Dict.keys d.pages))
      (fault : ComponentFault g.registry d.pages e) : Refuses g d e
  | path (routable : Document.Routable (Dict.keys d.pages))
      (placeable : Placeable g.registry d.pages) (fault : PathFault (places g.layout d.pages) e) :
      Refuses g d e

variable {d : Document} {overrides : SeoOverrides} {e e' : GenerationError}

theorem Refuses.not_sound (h : Refuses g d e) : ¬ Sound g d := by
  intro sound
  cases h with
  | route fault => exact Document.not_routable_of_fault fault sound.routable
  | component _ fault => exact not_placeable_of_fault fault sound.placeable
  | path _ _ fault => exact not_nodup_of_fault fault sound.apart

theorem Refuses.unique (h : Refuses g d e) (h' : Refuses g d e') : e = e' := by
  cases h with
  | route fault =>
    cases h' with
    | route fault' => exact Document.routeFault_unique fault fault'
    | component routable | path routable => exact absurd routable (Document.not_routable_of_fault fault)
  | component routable fault =>
    cases h' with
    | route fault' => exact absurd routable (Document.not_routable_of_fault fault')
    | component _ fault' => exact componentFault_unique fault fault'
    | path _ placeable => exact absurd placeable (not_placeable_of_fault fault)
  | path routable placeable fault =>
    cases h' with
    | route fault' => exact absurd routable (Document.not_routable_of_fault fault')
    | component _ fault' => exact absurd placeable (not_placeable_of_fault fault')
    | path _ _ fault' => exact pathFault_unique fault fault'

theorem placeable_of_composed {works : List PageWork} {index : SitePath}
    {files : List GeneratedFile} (composed : Composed g d overrides works index files) :
    Placeable g.registry d.pages := by
  rw [← composed.pages]
  exact List.forall_mem_map.mpr fun w hw => resolves_of_made (composed.made w hw)

theorem routable_of_generate {files : List GeneratedFile} (h : g.generate d overrides = .ok files) :
    Document.Routable (Dict.keys d.pages) := by
  cases hr : d.routes with
  | ok routes => exact d.routes_spec.1 routes hr
  | error e =>
    rw [generate, hr] at h
    cases h

section Settled

variable (data : g.layout.dataDir.IsFlush) (app : g.layout.appDir.IsFlush)
include data app

theorem sound_of_generate {files : List GeneratedFile} (h : g.generate d overrides = .ok files) :
    Sound g d ∧ files.map place = places g.layout d.pages := by
  obtain ⟨works, index, composed⟩ := composed_of_generate h
  have same := places_of_composed data app composed rfl
  exact ⟨⟨routable_of_generate h, placeable_of_composed composed, same ▸ nodup_of_generate h⟩, same⟩

theorem refuses_of_generate (h : g.generate d overrides = .error e) : Refuses g d e := by
  rcases fault_of_generate h with fault |
    ⟨routable, fault | unnamed | ⟨works, index, files, composed, fault⟩⟩
  · exact .route fault
  · exact .component routable fault
  · exact absurd unnamed (not_unnameable data app e)
  · rw [places_of_composed data app composed rfl] at fault
    exact .path routable (placeable_of_composed composed) fault

end Settled

section Plain

theorem getLast?_moduleName (r : Route) : (moduleName r).toList.getLast? = some 'x' := by
  unfold moduleName
  split
  · decide
  · rw [String.toList_append, List.getLast?_append_of_ne_nil _ (by decide)]
    decide

theorem data_ne_module (a b : SitePath) (name : String) (r : Route) :
    a.below (name ++ ".ts") ≠ b.below (moduleName r) := by
  intro same
  have last := congrArg (fun s => s.toList.getLast?) same
  have filled : (moduleName r).toList ≠ [] := fun empty => by
    have module := getLast?_moduleName r
    rw [empty] at module
    cases module
  rw [SitePath.getLast?_below _ (by simp), SitePath.getLast?_below _ filled, getLast?_moduleName,
    String.toList_append, List.getLast?_append_of_ne_nil _ (by decide)] at last
  exact absurd last (by decide)

theorem append_ts_injective {a b : String} (h : a ++ ".ts" = b ++ ".ts") : a = b := by
  have chars := congrArg String.toList h
  rw [String.toList_append, String.toList_append] at chars
  exact String.toList_injective (List.append_cancel_right chars)

theorem dataName_eq_index_iff (route : Route.ofKey key = .ok r) :
    dataName r = Layout.indexFile ↔ r = ⟨"/_index"⟩ := by
  constructor
  · intro name
    have stem : r.fileStem = "_index" := append_ts_injective name
    rcases Route.cases_of_isRoot route with rfl | ⟨s, -, text, -, stem_eq, -⟩
    · exact absurd stem (by decide)
    · rw [stem] at stem_eq
      subst stem_eq
      exact Route.eq_of_toList text rfl
  · rintro rfl
    decide

theorem keyedPlaces_of_ok (off : l.componentModules = false) {e : String × Page}
    (route : Route.ofKey e.1 = .ok r) :
    keyedPlaces l e = [l.dataDir.below (dataName r), l.appDir.below (moduleName r)] := by
  simp only [keyedPlaces, route, pagePlaces, off, if_neg Bool.false_ne_true]

theorem keyedPlaces_of_error {e : String × Page} {cause : RouteError}
    (route : Route.ofKey e.1 = .error cause) : keyedPlaces l e = [] := by
  rw [keyedPlaces, route]

theorem keyedPlaces_disjoint (off : l.componentModules = false) {a b : String × Page}
    (apart : Route.ofKey a.1 ≠ Route.ofKey b.1) : (keyedPlaces l a).Disjoint (keyedPlaces l b) := by
  cases here : Route.ofKey a.1 with
  | error =>
    rw [keyedPlaces_of_error here]
    exact List.disjoint_nil_left _
  | ok r =>
    cases there : Route.ofKey b.1 with
    | error =>
      rw [keyedPlaces_of_error there]
      exact List.disjoint_nil_right _
    | ok r' =>
      have other : r ≠ r' := by
        rintro rfl
        exact apart (here.trans there.symm)
      rw [keyedPlaces_of_ok off here, keyedPlaces_of_ok off there]
      intro x hx hx'
      simp only [List.mem_cons, List.not_mem_nil, or_false] at hx hx'
      rcases hx with rfl | rfl
      · rcases hx' with same | same
        · exact other (Route.fileStem_injective here there
            (append_ts_injective (SitePath.below_inj.mp same)))
        · exact data_ne_module _ _ _ _ same
      · rcases hx' with same | same
        · exact data_ne_module _ _ _ _ same.symm
        · exact other (moduleName_injective here there (SitePath.below_inj.mp same))

/-- Without modules for components two places are the same just when a page has the name of the
index. -/
theorem not_nodup_places_iff (off : l.componentModules = false) {pages : List (String × Page)}
    (routable : Document.Routable (Dict.keys pages)) :
    ¬ (places l pages).Nodup ↔ ∃ key ∈ Dict.keys pages, Route.ofKey key = .ok ⟨"/_index"⟩ := by
  rw [places]
  constructor
  · intro twice
    by_contra none
    push Not at none
    refine twice (List.nodup_append.mpr ⟨List.nodup_flatMap.mpr ⟨fun e _ => ?_, ?_⟩,
      List.nodup_singleton _, ?_⟩)
    · cases route : Route.ofKey e.1 with
      | error =>
        rw [keyedPlaces_of_error route]
        exact List.nodup_nil
      | ok r =>
        rw [keyedPlaces_of_ok off route]
        simp [data_ne_module, dataName]
    · have apart := routable.apart
      rw [Dict.keys, List.map_map, List.Nodup, List.pairwise_map] at apart
      exact apart.imp (keyedPlaces_disjoint off)
    · intro a ha b hb same
      rw [List.mem_singleton] at hb
      subst hb same
      obtain ⟨e, he, ha⟩ := List.mem_flatMap.mp ha
      cases route : Route.ofKey e.1 with
      | error =>
        rw [keyedPlaces_of_error route] at ha
        cases ha
      | ok r =>
        rw [keyedPlaces_of_ok off route] at ha
        simp only [List.mem_cons, List.not_mem_nil, or_false] at ha
        rcases ha with same | same
        · have index := (dataName_eq_index_iff route).mp (SitePath.below_inj.mp same).symm
          exact none e.1 (List.mem_map_of_mem he) (index ▸ route)
        · exact data_ne_module l.dataDir _ "_index" _ same
  · rintro ⟨key, mem, route⟩ apart
    obtain ⟨e, he, rfl⟩ := List.mem_map.mp mem
    have twice : l.dataDir.below Layout.indexFile ∈ pages.flatMap (keyedPlaces l) := by
      refine List.mem_flatMap.mpr ⟨e, he, ?_⟩
      rw [keyedPlaces_of_ok off route, ← (dataName_eq_index_iff route).mpr rfl]
      exact List.mem_cons_self
    exact (List.nodup_append.mp apart).2.2 _ twice _ (List.mem_singleton_self _) rfl

end Plain

/-- Whether files are generated, where they lie, and what is to blame if they are not. -/
theorem generates_or_blames (data : SitePath.ofText g.layout.dataDir.text = .ok g.layout.dataDir)
    (app : SitePath.ofText g.layout.appDir.text = .ok g.layout.appDir) (d : Document)
    (overrides : SeoOverrides) :
    ((∃ files, g.generate d overrides = .ok files) ↔ Sound g d) ∧
    (∀ files, g.generate d overrides = .ok files → files.map place = places g.layout d.pages) ∧
    (∀ e, g.generate d overrides = .error e ↔ Refuses g d e) ∧
    (g.layout.componentModules = false → Document.Routable (Dict.keys d.pages) →
      (¬ (places g.layout d.pages).Nodup ↔
        ∃ key ∈ Dict.keys d.pages, Route.ofKey key = .ok ⟨"/_index"⟩)) := by
  have data := ((SitePath.ofText_text_iff _).mp data).isFlush
  have app := ((SitePath.ofText_text_iff _).mp app).isFlush
  refine ⟨⟨?_, fun sound => ?_⟩, fun files ok => (sound_of_generate data app ok).2,
    fun e => ⟨refuses_of_generate data app, fun refuses => ?_⟩, fun off => not_nodup_places_iff off⟩
  · rintro ⟨files, ok⟩
    exact (sound_of_generate data app ok).1
  · cases h : g.generate d overrides with
    | ok files => exact ⟨files, rfl⟩
    | error e => exact absurd sound (refuses_of_generate data app h).not_sound
  · cases h : g.generate d overrides with
    | ok files => exact absurd (sound_of_generate data app h).1 refuses.not_sound
    | error e' => rw [(refuses_of_generate data app h).unique refuses]

def pricing : Document :=
  ⟨[("Index", ⟨[⟨"Hero", []⟩], none⟩), ("Pricing", ⟨[⟨"Hero", []⟩, ⟨"Carousel", []⟩], none⟩),
    ("_index", ⟨[], none⟩)], 0⟩

theorem pricing_blamed :
    SitePath.ofText Layout.standard.dataDir.text = .ok Layout.standard.dataDir ∧
    SitePath.ofText Layout.standard.appDir.text = .ok Layout.standard.appDir ∧
    Refuses ⟨⟨[("Hero", ⟨"Hero", []⟩)]⟩, Layout.standard⟩ pricing
      (.unknownComponent "Pricing" 1 "Carousel") ∧
    ¬ (places Layout.standard pricing.pages).Nodup := by
  have data : SitePath.ofText Layout.standard.dataDir.text = .ok Layout.standard.dataDir := by
    decide
  have app : SitePath.ofText Layout.standard.appDir.text = .ok Layout.standard.appDir := by
    decide
  have unknown : generate ⟨⟨[("Hero", ⟨"Hero", []⟩)]⟩, Layout.standard⟩ pricing [] =
      .error (.unknownComponent "Pricing" 1 "Carousel") := by
    rfl
  obtain ⟨-, -, blamed, shared⟩ := generates_or_blames (g := ⟨⟨[("Hero", ⟨"Hero", []⟩)]⟩, Layout.standard⟩)
    data app pricing []
  have refuses := (blamed _).mp unknown
  have routable : Document.Routable (Dict.keys pricing.pages) := by
    cases refuses with
    | route fault =>
      obtain ⟨-, -, blame⟩ := fault
      cases blame
    | component routable | path routable => exact routable
  exact ⟨data, app, refuses, (shared rfl routable).mpr ⟨"_index", by decide, by decide⟩⟩

end Generator

end SitePublish
