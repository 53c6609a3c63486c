import SitePublish.Proofs.Page.Content
import SitePublish.Proofs.Page.Place

/-!
# What the files of a page depend on

A page is generated into its files alone: they are the same in every document that has the page, at
every position and beside any other pages, and an edit of its components leaves its route module as
it is. Only the index looks at more than one page, and all it sees are the routes in their order. A
document with its pages in another order is generated whenever the document is.
-/

set_option autoImplicit false

namespace SitePublish

theorem Document.Routable.perm {keys keys' : List String} (h : Document.Routable keys)
    (perm : keys.Perm keys') : Document.Routable keys' where
  routed key mem := h.routed key (perm.mem_iff.mpr mem)
  apart := (perm.map _).nodup_iff.mp h.apart

namespace Generator

variable {g : Generator} {reg : Registry} {l : Layout} {r : Route}

theorem places_rightUnique : Relator.RightUnique (Places reg r) := by
  rintro _ _ _ ⟨known, resolved⟩ ⟨known', resolved'⟩
  cases known.symm.trans known'
  cases resolved.symm.trans resolved'
  rfl

theorem moduled_rightUnique : Relator.RightUnique (Moduled l r) := by
  rintro _ _ _ ⟨path⟩ ⟨path'⟩
  cases path.symm.trans path'
  rfl

attribute [ext] PageWork

namespace PageWork

variable {w w' : PageWork} {o o' : SeoOverrides}

theorem files_congr (same : Dict.get? o w.key = Dict.get? o' w.key) : w.files g o = w.files g o' := by
  rw [files, files, dataFile, dataFile, routeFile, routeFile, seo, seo, same]

/-- Works with the same route and the same places. -/
structure Beside (w w' : PageWork) : Prop where
  route : w.route = w'.route
  data : w.dataPath = w'.dataPath
  module : w.modulePath = w'.modulePath

theorem routeFile_eq (beside : w.Beside w') (seo : w.page.seo = w'.page.seo)
    (same : Dict.get? o w.key = Dict.get? o' w'.key) : w.routeFile g o = w'.routeFile g o' := by
  simp only [routeFile, PageWork.seo, SeoBlock.ofPage, beside.module, beside.data, beside.route, seo,
    same]

theorem entry_eq (beside : w.Beside w') : w.entry = w'.entry := by
  rw [entry, entry, beside.route, beside.data]

namespace Made

variable (made : w.Made g) (made' : w'.Made g)
include made made'

theorem beside_of_route (route : w.route = w'.route) : w.Beside w' where
  route := route
  data := Except.ok.inj (made.data.symm.trans (route ▸ made'.data))
  module := Except.ok.inj (made.module.symm.trans (route ▸ made'.module))

theorem beside (key : w.key = w'.key) : w.Beside w' :=
  made.beside_of_route made' (Except.ok.inj (made.route.symm.trans (key ▸ made'.route)))

theorem eq_of_source (source : w.source = w'.source) : w = w' := by
  obtain ⟨key, page⟩ := Prod.mk.inj source
  obtain ⟨route, data, module⟩ := made.beside made' key
  have placed : w.placed = w'.placed := by
    have places := made'.placed
    rw [← page, ← route] at places
    exact places_rightUnique.forall₂ made.placed places
  have modules : w.modules = w'.modules := by
    have parts := made.modules
    have parts' := made'.modules
    rw [← route, ← placed] at parts'
    split at parts
    · next on =>
      rw [if_pos on] at parts'
      exact moduled_rightUnique.forall₂ parts parts'
    · next off =>
      rw [if_neg off] at parts'
      rw [parts, parts']
  exact PageWork.ext key page route placed data module modules

end Made

end PageWork

section Works

variable {works works' : List PageWork} (made : ∀ w ∈ works, w.Made g)
  (made' : ∀ w ∈ works', w.Made g)
include made made'

theorem works_eq_of_sources (same : works.map PageWork.source = works'.map PageWork.source) :
    works = works' := by
  have ids : works.map id = works'.map id :=
    map_eq_of_map_eq (fun w hw w' hw' => (made w hw).eq_of_source (made' w' hw')) same
  rwa [List.map_id, List.map_id] at ids

theorem entries_eq_of_routes (same : works.map PageWork.route = works'.map PageWork.route) :
    works.map PageWork.entry = works'.map PageWork.entry :=
  map_eq_of_map_eq (fun w hw w' hw' route =>
    PageWork.entry_eq ((made w hw).beside_of_route (made' w' hw') route)) same

theorem subset_of_sources
    (same : ∀ e ∈ works.map PageWork.source, e ∈ works'.map PageWork.source) : works ⊆ works' := by
  intro w hw
  obtain ⟨w', hw', source⟩ := List.mem_map.mp (same _ (List.mem_map_of_mem hw))
  rwa [← (made' w' hw').eq_of_source (made w hw) source]

end Works

theorem flatMap_files_congr {works : List PageWork} {o o' : SeoOverrides}
    (same : ∀ w ∈ works, Dict.get? o w.key = Dict.get? o' w.key) :
    works.flatMap (PageWork.files g o) = works.flatMap (PageWork.files g o') :=
  List.flatMap_congr fun w hw => PageWork.files_congr (same w hw)

/-- The overrides say the same about all pages of the document. -/
def Agree (o o' : SeoOverrides) (d : Document) : Prop :=
  ∀ key ∈ Dict.keys d.pages, Dict.get? o key = Dict.get? o' key

/-- Files that differ in the data of one page, which stays where it is, and in the modules of its
components. -/
inductive Edited (g : Generator) (o o' : SeoOverrides) (e e' : String × Page) :
    List GeneratedFile → List GeneratedFile → Prop
  | intro {w w' : PageWork} {front back : List GeneratedFile} (made : w.Made g) (made' : w'.Made g)
      (source : w.source = e) (source' : w'.source = e') (place : w.dataPath = w'.dataPath)
      (module : w.routeFile g o = w'.routeFile g o') :
      Edited g o o' e e' (front ++ w.files g o ++ back) (front ++ w'.files g o' ++ back)

/-- The same files in another order, and behind them an index with its rows in another order. -/
inductive Permuted : List GeneratedFile → List GeneratedFile → Prop
  | intro {body body' : List GeneratedFile} {index : SitePath} {rows rows' : List (Route × SitePath)}
      (files : body.Perm body') (entries : rows.Perm rows') :
      Permuted (body ++ [⟨index, indexModule index rows⟩]) (body' ++ [⟨index, indexModule index rows'⟩])

theorem Permuted.places {files files' : List GeneratedFile} (h : Permuted files files') :
    (files.map place).Perm (files'.map place) := by
  cases h with
  | intro body =>
    simp only [List.map_append, List.map_cons, List.map_nil, place]
    exact (body.map place).append_right _

section Pair

variable {d d' : Document} {o o' : SeoOverrides} {works works' : List PageWork}
  {index index' : SitePath} {files files' : List GeneratedFile}
  (composed : Composed g d o works index files) (composed' : Composed g d' o' works' index' files')
include composed composed'

theorem index_eq_of_composed : index = index' :=
  Except.ok.inj (composed.index_eq.symm.trans composed'.index_eq)

theorem index_file_eq (routes : works.map PageWork.route = works'.map PageWork.route) :
    files.getLast? = files'.getLast? := by
  rw [composed.files_eq, composed'.files_eq, List.getLast?_concat, List.getLast?_concat,
    entries_eq_of_routes composed.made composed'.made routes, index_eq_of_composed composed composed']

omit composed' in
theorem override_eq (agree : Agree o o' d) : ∀ w ∈ works, Dict.get? o w.key = Dict.get? o' w.key := by
  intro w hw
  refine agree w.key ?_
  rw [← composed.pages]
  exact List.mem_map_of_mem (List.mem_map_of_mem hw)

theorem permuted_of_composed (perm : d.pages.Perm d'.pages) (agree : Agree o o' d) :
    Permuted files files' := by
  rw [← composed.pages, ← composed'.pages] at perm
  have nodup := composed.distinct.of_map
  have nodup' := composed'.distinct.of_map
  have same : works.Perm works' := (List.perm_ext_iff_of_nodup nodup nodup').mpr fun w =>
    ⟨fun hw => subset_of_sources composed.made composed'.made (fun e he => perm.mem_iff.mp he) hw,
      fun hw => subset_of_sources composed'.made composed.made (fun e he => perm.mem_iff.mpr he) hw⟩
  obtain rfl := index_eq_of_composed composed composed'
  rw [composed.files_eq, composed'.files_eq, flatMap_files_congr (override_eq composed agree)]
  exact .intro (same.flatMap_right _) (same.map _)

theorem edited_of_composed {before after : List (String × Page)} {key : String} {page page' : Page}
    (pages : d.pages = before ++ (key, page) :: after)
    (pages' : d'.pages = before ++ (key, page') :: after) (seo : page.seo = page'.seo)
    (agree : Agree o o' d) : Edited g o o' (key, page) (key, page') files files' := by
  obtain ⟨ahead, rest, rfl, sources, row⟩ := List.map_eq_append_iff.mp (composed.pages.trans pages)
  obtain ⟨w, behind, rfl, source, sources_behind⟩ := List.map_eq_cons_iff.mp row
  obtain ⟨ahead', rest', rfl, sources', row'⟩ :=
    List.map_eq_append_iff.mp (composed'.pages.trans pages')
  obtain ⟨w', behind', rfl, source', sources_behind'⟩ := List.map_eq_cons_iff.mp row'
  obtain ⟨made_ahead, made_rest⟩ := List.forall_mem_append.mp composed.made
  obtain ⟨made, made_behind⟩ := List.forall_mem_cons.mp made_rest
  obtain ⟨made_ahead', made_rest'⟩ := List.forall_mem_append.mp composed'.made
  obtain ⟨made', made_behind'⟩ := List.forall_mem_cons.mp made_rest'
  -- What stands in front and behind is the same in both, so the files of both meet at the page.
  obtain rfl := works_eq_of_sources made_ahead made_ahead' (sources.trans sources'.symm)
  obtain rfl := works_eq_of_sources made_behind made_behind' (sources_behind.trans sources_behind'.symm)
  have key_eq : w.key = w'.key := (Prod.mk.inj source).1.trans (Prod.mk.inj source').1.symm
  have beside := made.beside made' key_eq
  obtain ⟨same_ahead, same⟩ := List.forall_mem_append.mp (override_eq composed agree)
  obtain ⟨same, same_behind⟩ := List.forall_mem_cons.mp same
  have module : w.routeFile g o = w'.routeFile g o' := by
    refine PageWork.routeFile_eq beside ?_ (key_eq ▸ same)
    rw [(Prod.mk.inj source).2, (Prod.mk.inj source').2, seo]
  have split (v : PageWork) (o : SeoOverrides) (tail : List GeneratedFile) :
      (ahead ++ v :: behind).flatMap (PageWork.files g o) ++ tail =
        ahead.flatMap (PageWork.files g o) ++ v.files g o ++
          (behind.flatMap (PageWork.files g o) ++ tail) := by
    rw [List.flatMap_append, List.flatMap_cons, List.append_assoc, List.append_assoc,
      List.append_assoc]
  have entries : (ahead ++ w :: behind).map PageWork.entry =
      (ahead ++ w' :: behind).map PageWork.entry := by
    simp only [List.map_append, List.map_cons, PageWork.entry_eq beside]
  rw [composed.files_eq, composed'.files_eq, split, split, entries,
    flatMap_files_congr same_ahead, flatMap_files_congr same_behind,
    index_eq_of_composed composed composed']
  exact .intro made made' source source' beside.data module

end Pair

theorem exists_join_of_join {dir p : SitePath} {rest rest' : String}
    (tidy : SitePath.Tidy rest.toList) (tidy' : SitePath.Tidy rest'.toList)
    (h : join dir rest = .ok p) : ∃ q, join dir rest' = .ok q := by
  cases opened : dir.opened with
  | ok base =>
    obtain ⟨q, ok, -⟩ := join_of_opened tidy' opened
    exact ⟨q, ok⟩
  | error cause =>
    cases cause with
    | containsTraversal =>
      rw [join_of_traversal tidy opened] at h
      cases h
    | empty =>
      obtain ⟨q, ok, -⟩ := join_of_empty tidy' opened
      exact ⟨q, ok⟩

section Order

variable {d d' : Document} {o o' : SeoOverrides} {files : List GeneratedFile}

theorem not_unnameable_of_composed {works : List PageWork} {index : SitePath}
    (composed : Composed g d o works index files) (ne : d.pages ≠ []) (e : GenerationError) :
    ¬ Unnameable g.layout e := by
  obtain ⟨w, hw⟩ : ∃ w, w ∈ works := by
    refine List.exists_mem_of_ne_nil works ?_
    rintro rfl
    exact ne composed.pages.symm
  have made := composed.made w hw
  have module := made.module
  rw [routeModulePath_eq] at module
  rintro ⟨rest, tidy, failed | failed⟩
  · obtain ⟨q, ok⟩ := exists_join_of_join tidy_indexName tidy composed.index_eq
    cases ok.symm.trans failed
  · obtain ⟨q, ok⟩ := exists_join_of_join (tidy_moduleName made.route) tidy module
    cases ok.symm.trans failed

theorem generate_of_no_pages (none : d.pages = []) (none' : d'.pages = []) :
    g.generate d o = g.generate d' o' := by
  simp only [generate, Document.routes, none, none', Dict.keys, List.map_nil, Document.routesFrom,
    pagesFrom]

/-- The order of the pages does not decide whether they are generated. -/
theorem exists_generate_of_perm (h : g.generate d o = .ok files) (perm : d.pages.Perm d'.pages)
    (agree : Agree o o' d) : ∃ files', g.generate d' o' = .ok files' := by
  by_cases none : d.pages = []
  · have none' : d'.pages = [] := List.perm_nil.mp (none ▸ perm.symm)
    exact ⟨files, (generate_of_no_pages none none').symm.trans h⟩
  obtain ⟨works, index, composed⟩ := composed_of_generate h
  cases h' : g.generate d' o' with
  | ok files' => exact ⟨files', rfl⟩
  | error e =>
    have routable := (routable_of_generate h).perm (perm.map Prod.fst)
    rcases fault_of_generate h' with fault |
      ⟨-, fault | unnamed | ⟨works', index', files', composed', fault⟩⟩
    · exact absurd routable (Document.not_routable_of_fault fault)
    · have placeable : Placeable g.registry d'.pages := fun entry mem =>
        placeable_of_composed composed entry (perm.mem_iff.mpr mem)
      exact absurd placeable (not_placeable_of_fault fault)
    · exact absurd unnamed (not_unnameable_of_composed composed none e)
    · have places := (permuted_of_composed composed composed' perm agree).places
      exact absurd (places.nodup_iff.mp (nodup_of_generate h)) (not_nodup_of_fault fault)

end Order

/-- What the files of a generation have to do with those of another document. A page that both have
with the same override has the same files in both, and the index depends on the sequence of routes
alone. An edit of the components of one page keeps all but its data and the modules of its
components. The pages can be generated in any other order, and the files are in that order then. -/
theorem generation_local {d : Document} {o : SeoOverrides} {files : List GeneratedFile}
    (h : g.generate d o = .ok files) :
    (∀ d' o' files', g.generate d' o' = .ok files' →
      ∃ works works' index, Composed g d o works index files ∧
        Composed g d' o' works' index files' ∧
        (∀ w ∈ works, ∀ w' ∈ works', w.source = w'.source →
          Dict.get? o w.key = Dict.get? o' w'.key → w.files g o = w'.files g o') ∧
        (works.map PageWork.route = works'.map PageWork.route → files.getLast? = files'.getLast?) ∧
        ∀ before after key page components, d.pages = before ++ (key, page) :: after →
          d'.pages = before ++ (key, { page with components := components }) :: after →
          Agree o o' d →
          Edited g o o' (key, page) (key, { page with components := components }) files files') ∧
    ∀ d' o', d.pages.Perm d'.pages → Agree o o' d →
      ∃ files', g.generate d' o' = .ok files' ∧ Permuted files files' := by
  obtain ⟨works, index, composed⟩ := composed_of_generate h
  refine ⟨fun d' o' files' h' => ?_, fun d' o' perm agree => ?_⟩
  · obtain ⟨works', index', composed'⟩ := composed_of_generate h'
    obtain rfl := index_eq_of_composed composed composed'
    refine ⟨works, works', index, composed, composed', fun w hw w' hw' source same => ?_,
      index_file_eq composed composed',
      fun before after key page components pages pages' agree =>
        edited_of_composed composed composed' pages pages' rfl agree⟩
    obtain rfl := (composed.made w hw).eq_of_source (composed'.made w' hw') source
    exact PageWork.files_congr same
  · obtain ⟨files', h'⟩ := exists_generate_of_perm h perm agree
    obtain ⟨works', index', composed'⟩ := composed_of_generate h'
    exact ⟨files', h', permuted_of_composed composed composed' perm agree⟩

def cardEdited : Document :=
  { cardDocument with
    pages := cardDocument.pages.set 1
      ("Blog/First post", ⟨[⟨"Card", []⟩], some ⟨some "Post", none, some ["news"], some "/cover.png"⟩⟩) }

theorem card_generation_local : ∃ files, cardGenerator.generate cardDocument [] = .ok files ∧
    (∃ files', cardGenerator.generate cardEdited [] = .ok files' ∧ ∃ e e',
      e ∈ cardDocument.pages ∧ e' ∈ cardEdited.pages ∧ e ≠ e' ∧
        Edited cardGenerator [] [] e e' files files') ∧
    ∃ files', cardGenerator.generate ⟨cardDocument.pages.reverse, 0⟩ [] = .ok files' ∧
      Permuted files files' := by
  have count' : (cardGenerator.generate cardEdited []).map List.length = .ok 8 := by decide +kernel
  obtain ⟨files, ok, -⟩ := card_generates
  obtain ⟨files', ok', -⟩ := exists_of_map_eq_ok count'
  obtain ⟨pairs, orders⟩ := generation_local ok
  obtain ⟨works, works', index, composed, composed', -, -, edits⟩ := pairs _ _ _ ok'
  have edited := edits [cardDocument.pages[0]] [] "Blog/First post" _ [⟨"Card", []⟩] rfl rfl
    fun _ _ => rfl
  refine ⟨files, ok, ⟨files', ok', _, _, ?_, ?_, ?_, edited⟩,
    orders _ [] (List.reverse_perm _).symm fun _ _ => rfl⟩
  · decide
  · decide
  · decide

end Generator

end SitePublish
