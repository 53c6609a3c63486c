import Mathlib.Data.List.Forall2
import Mathlib.Data.List.Nodup
import SitePublish.Proofs.Page.Content
import SitePublish.Proofs.Page.Index
import SitePublish.Proofs.Site.Route

/-!
# Ids of components

The id of a component has the route of its page in front, with dashes for the slashes, and its place
in the page behind. The place can be told from an id, since digits have no dashes; the route only as
far as it has no dashes of its own. So two pages give their components the same ids just when their
routes differ in nothing but where they have slashes and where dashes.
-/

set_option autoImplicit false

namespace SitePublish

namespace Route

/-- What stands between the words of a route. -/
def isJoint (c : Char) : Bool := c = '/' || c = '-'

/-- Whether two routes are one up to the kinds of their joints. -/
def Resembles (r r' : Route) : Prop :=
  List.Forall₂ (fun c c' => c = c' ∨ isJoint c = true ∧ isJoint c' = true) r.text.toList
    r'.text.toList

def dashing (c : Char) : Char := if c = '/' then '-' else c

theorem dashing_eq_iff {c c' : Char} :
    dashing c = dashing c' ↔ c = c' ∨ isJoint c = true ∧ isJoint c' = true := by
  unfold dashing isJoint
  split <;> split <;> simp_all [eq_comm]

theorem resembles_iff {r r' : Route} :
    r.Resembles r' ↔ r.text.toList.map dashing = r'.text.toList.map dashing := by
  simp only [Resembles, ← dashing_eq_iff]
  rw [← List.forall₂_eq_eq_eq, List.forall₂_map_left_iff, List.forall₂_map_right_iff]

variable {key key' : String} {r r' : Route}

theorem dashing_ne_index {s : List Char} (h : ofKey key = .ok r) (text : r.text.toList = '/' :: s) :
    s.map dashing ≠ "index".toList := by
  intro same
  have dashless : '-' ∉ s.map dashing := same ▸ by decide
  have slashless : '/' ∉ s := fun slash => dashless (List.mem_map.mpr ⟨'/', slash, rfl⟩)
  have plain : s.map dashing = s.map id :=
    List.map_congr_left fun c hc => if_neg (show c ≠ '/' from fun slash => slashless (slash ▸ hc))
  rw [plain, List.map_id] at same
  exact fileStem_ne_index h text same

theorem resembles_root_iff {s : List Char} (text : r.text.toList = '/' :: s) :
    root.Resembles r ↔ s = [] := by
  rw [resembles_iff, text, root]
  simp [dashing, eq_comm]

end Route

namespace Generator

open Route (dashing)

variable {key key' : String} {r r' : Route}

theorem idStem_eq (r : Route) : idStem r = String.ofList (r.fileStem.toList.map dashing) := rfl

theorem idStem_eq_iff (h : Route.ofKey key = .ok r) (h' : Route.ofKey key' = .ok r') :
    idStem r = idStem r' ↔ r.Resembles r' := by
  have root_stem : Route.root.fileStem.toList.map dashing = "index".toList := by decide
  rw [idStem_eq, idStem_eq, String.ofList_inj]
  -- the stem of the root is not made of its text, so the root is held against the others by itself
  rcases Route.cases_of_isRoot h with rfl | ⟨s, ne, text, -, stem, -⟩
  · rcases Route.cases_of_isRoot h' with rfl | ⟨s', ne', text', -, stem', -⟩
    · simp [Route.resembles_iff]
    · rw [root_stem, stem', Route.resembles_root_iff text']
      exact iff_of_false (Route.dashing_ne_index h' text').symm ne'
  · rcases Route.cases_of_isRoot h' with rfl | ⟨s', ne', text', -, stem', -⟩
    · rw [root_stem, stem, Route.resembles_iff, eq_comm (b := Route.root.text.toList.map dashing),
        ← Route.resembles_iff, Route.resembles_root_iff text]
      exact iff_of_false (Route.dashing_ne_index h text) ne
    · rw [stem, stem', Route.resembles_iff, text, text', List.map_cons, List.map_cons,
        List.cons_inj_right]

def idAt (r : Route) (i : Nat) : String := idStem r ++ "-" ++ toString i

theorem dash_not_mem_digits (n : Nat) : '-' ∉ (toString n).toList :=
  fun h => absurd (Decimal.isDigit_of_mem_toString n '-' h) (by decide)

theorem cutLast_idAt (r : Route) (i : Nat) :
    Text.cutLast '-' (idAt r i).toList = some ((idStem r).toList, (toString i).toList) := by
  rw [idAt, String.toList_append, String.toList_append, List.append_assoc]
  exact Text.cutLast_append (idStem r).toList (dash_not_mem_digits i)

theorem idAt_eq_iff (h : Route.ofKey key = .ok r) (h' : Route.ofKey key' = .ok r') {i i' : Nat} :
    idAt r i = idAt r' i' ↔ i = i' ∧ r.Resembles r' := by
  rw [← idStem_eq_iff h h']
  constructor
  · intro same
    have cut := cutLast_idAt r i
    rw [same, cutLast_idAt] at cut
    obtain ⟨stems, digits⟩ := Prod.mk.inj (Option.some.inj cut)
    exact ⟨(Decimal.toString_injective (String.toList_injective digits)).symm,
      (String.toList_injective stems).symm⟩
  · rintro ⟨rfl, stems⟩
    rw [idAt, stems, idAt]

theorem ids_of_places {reg : Registry} {components : List Component} {n : Nat}
    {placed : List PlacedComponent}
    (h : List.Forall₂ (Places reg r) (components.zipIdx n) placed) :
    placed.map PlacedComponent.id = (List.range' n components.length).map (idAt r) := by
  induction components generalizing n placed with
  | nil =>
    cases h
    rfl
  | cons c rest ih =>
    cases h with
    | cons first more =>
      cases first
      rw [List.map_cons, ih more]
      rfl

def PageWork.ids (w : PageWork) : List String := w.placed.map PlacedComponent.id

def siteIds (works : List PageWork) : List String := works.flatMap PageWork.ids

namespace PageWork

variable {g : Generator} {w w' : PageWork}

theorem Made.ids_eq (made : w.Made g) :
    w.ids = (List.range' 0 w.page.components.length).map (idAt w.route) :=
  ids_of_places made.placed

theorem Made.id_eq (made : w.Made g) {i : Nat} {c : PlacedComponent}
    (here : w.placed[i]? = some c) : c.id = idAt w.route i := by
  have found : w.ids[i]? = some c.id := by rw [ids, List.getElem?_map, here, Option.map_some]
  rw [made.ids_eq, List.getElem?_map, Option.map_eq_some_iff] at found
  obtain ⟨place, at_place, id_eq⟩ := found
  obtain ⟨below, same⟩ := List.getElem?_eq_some_iff.mp at_place
  rw [List.getElem_range', Nat.one_mul, Nat.zero_add] at same
  rw [← id_eq, same]

theorem Made.mem_ids_iff (made : w.Made g) {id : String} :
    id ∈ w.ids ↔ ∃ i < w.page.components.length, idAt w.route i = id := by
  rw [made.ids_eq]
  simp

theorem Made.nodup_ids (made : w.Made g) : w.ids.Nodup := by
  rw [made.ids_eq]
  exact List.Nodup.map (fun i i' same => ((idAt_eq_iff made.route made.route).mp same).1)
    List.nodup_range'

/-- Two pages have no id in common unless both have components and their routes resemble. -/
theorem Made.disjoint_ids_iff (made : w.Made g) (made' : w'.Made g) :
    w.ids.Disjoint w'.ids ↔ (w.page.components ≠ [] → w'.page.components ≠ [] →
      ¬ w.route.Resembles w'.route) := by
  constructor
  · intro apart filled filled' alike
    have here := made.mem_ids_iff.mpr ⟨0, List.length_pos_of_ne_nil filled, rfl⟩
    have there := made'.mem_ids_iff.mpr ⟨0, List.length_pos_of_ne_nil filled', rfl⟩
    rw [(idAt_eq_iff made.route made'.route).mpr ⟨rfl, alike⟩] at here
    exact apart here there
  · intro unlike id here there
    obtain ⟨i, below, rfl⟩ := made.mem_ids_iff.mp here
    obtain ⟨i', below', same⟩ := made'.mem_ids_iff.mp there
    exact unlike (List.ne_nil_of_length_pos (by omega)) (List.ne_nil_of_length_pos (by omega))
      ((idAt_eq_iff made.route made'.route).mp same.symm).2

end PageWork

variable {g : Generator} {d : Document} {overrides : SeoOverrides}

theorem nodup_siteIds_iff {works : List PageWork} (made : ∀ w ∈ works, w.Made g) :
    (siteIds works).Nodup ↔ works.Pairwise fun w w' => w.page.components ≠ [] →
      w'.page.components ≠ [] → ¬ w.route.Resembles w'.route := by
  rw [siteIds, List.nodup_flatMap]
  constructor
  · rintro ⟨-, apart⟩
    exact apart.imp_of_mem fun hw hw' h => ((made _ hw).disjoint_ids_iff (made _ hw')).mp h
  · intro unlike
    exact ⟨fun w hw => (made w hw).nodup_ids,
      unlike.imp_of_mem fun hw hw' h => ((made _ hw).disjoint_ids_iff (made _ hw')).mpr h⟩

/-- Two components of a generated site have the same id just when they stand at the same place of
pages whose routes resemble. So no page repeats an id, and no site does just when no two of its pages
with components have routes that resemble. -/
theorem component_ids_resemble {files : List GeneratedFile}
    (h : g.generate d overrides = .ok files) :
    ∃ works index, Composed g d overrides works index files ∧
      (∀ w ∈ works, ∀ w' ∈ works, ∀ (i i' : Nat) (c c' : PlacedComponent),
        w.placed[i]? = some c → w'.placed[i']? = some c' →
        (c.id = c'.id ↔ i = i' ∧ w.route.Resembles w'.route)) ∧
      (∀ w ∈ works, w.ids.Nodup) ∧
      ((siteIds works).Nodup ↔ works.Pairwise fun w w' => w.page.components ≠ [] →
        w'.page.components ≠ [] → ¬ w.route.Resembles w'.route) := by
  obtain ⟨works, index, composed⟩ := composed_of_generate h
  refine ⟨works, index, composed, fun w hw w' hw' i i' c c' here there => ?_,
    fun w hw => (composed.made w hw).nodup_ids, nodup_siteIds_iff composed.made⟩
  rw [(composed.made w hw).id_eq here, (composed.made w' hw').id_eq there]
  exact idAt_eq_iff (composed.made w hw).route (composed.made w' hw').route

theorem card_ids_distinct : ∃ files, cardGenerator.generate cardDocument [] = .ok files ∧
    ∃ works index, Composed cardGenerator cardDocument [] works index files ∧
      (siteIds works).Nodup := by
  obtain ⟨files, ok, -⟩ := card_generates
  obtain ⟨works, index, composed, -, -, distinct_iff⟩ := component_ids_resemble ok
  have sparse : cardDocument.pages.Pairwise fun _ e => e.2.components = [] := by decide
  rw [← composed.pages, List.pairwise_map] at sparse
  exact ⟨files, ok, works, index, composed,
    distinct_iff.mpr (sparse.imp fun empty _ filled _ => filled empty)⟩

def bareGenerator : Generator := ⟨⟨[("Card", ⟨"Card", []⟩)]⟩, .standard⟩

def twins : Document :=
  ⟨[("a/b", ⟨[⟨"Card", []⟩], none⟩), ("a-b", ⟨[⟨"Card", []⟩], none⟩)], 0⟩

theorem twins_share_id : ∃ files, bareGenerator.generate twins [] = .ok files ∧
    ∃ works index, Composed bareGenerator twins [] works index files ∧
      siteIds works = ["a-b-0", "a-b-0"] ∧ ¬ (siteIds works).Nodup := by
  have count : (bareGenerator.generate twins []).map List.length = .ok 5 := by decide +kernel
  obtain ⟨files, ok, -⟩ := exists_of_map_eq_ok count
  obtain ⟨works, index, composed⟩ := composed_of_generate ok
  have ids {w : PageWork} (hw : w ∈ works) {key : String} {r : Route}
      (source : w.source = (key, ⟨[⟨"Card", []⟩], none⟩)) (route : Route.ofKey key = .ok r) :
      w.ids = [idAt r 0] := by
    have made := composed.made w hw
    obtain ⟨rfl, page⟩ := Prod.mk.inj source
    rw [made.ids_eq, page, Except.ok.inj (made.route.symm.trans route)]
    rfl
  have pages := composed.pages
  obtain ⟨w, rest, rfl, source, more⟩ := List.map_eq_cons_iff.mp pages
  obtain ⟨w', rest, rfl, source', none⟩ := List.map_eq_cons_iff.mp more
  obtain rfl := List.map_eq_nil_iff.mp none
  have shared : siteIds [w, w'] = ["a-b-0", "a-b-0"] := by
    have nested : Route.ofKey "a/b" = .ok ⟨"/a/b"⟩ := by decide +kernel
    have flat : Route.ofKey "a-b" = .ok ⟨"/a-b"⟩ := by decide +kernel
    simp only [siteIds, List.flatMap_cons, List.flatMap_nil, ids (by simp) source nested,
      ids (by simp) source' flat]
    decide +kernel
  exact ⟨files, ok, _, index, composed, shared, by rw [shared]; decide⟩

end Generator

end SitePublish
