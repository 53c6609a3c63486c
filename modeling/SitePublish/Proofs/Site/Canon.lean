import SitePublish.Proofs.Page.Fault
import SitePublish.Proofs.Site.Padding

/-!
# Canonical routes

The text of a route is in normal form: taken for a page key it denotes the same route again. Routes
stand for their files one to one, as the only route whose files are named `index` is the root. The
pages of a document have routes as soon as each key has one and no two have the same.
-/

set_option autoImplicit false

namespace SitePublish

namespace Route

open Text (Solid)

def isWordChar (c : Char) : Bool :=
  ('a' ≤ c && c ≤ 'z') || ('0' ≤ c && c ≤ '9') || c = '-' || c = '_'

/-- The root, or segments of such characters with a slash in front of each. -/
def IsCanonical (r : Route) : Prop :=
  r.text = "/" ∨ ∃ segments : List String, segments ≠ [] ∧
    (∀ p ∈ segments, p ≠ "" ∧ ∀ c ∈ p.toList, isWordChar c = true) ∧
    r.text = "/" ++ Text.joinWith '/' segments

variable {key key' : String} {r r' : Route} {s : List Char}

theorem isRouteChar_eq (c : Char) : isRouteChar c = (isWordChar c || c = '/') := rfl

theorem text_eq_of_toList (text : r.text.toList = '/' :: s) : r.text = "/" ++ String.ofList s := by
  apply String.toList_injective
  simp [text]

theorem canonical_of_ofKey (h : ofKey key = .ok r) : r.IsCanonical := by
  rcases spelled_of_ofKey h with rfl | ⟨s, text, route, filled⟩
  · exact Or.inl rfl
  · have known : ∀ c ∈ s, isWordChar c = true ∨ c = '/' := fun c hc => by
      simpa [isRouteChar_eq] using route c hc
    obtain ⟨segments, ne, proper, joined⟩ := Text.exists_words filled known
    exact Or.inr ⟨segments, ne, proper, by rw [text_eq_of_toList text, joined]⟩

theorem solid_of_filled (route : ∀ c ∈ s, isRouteChar c = true) (filled : [] ∉ Text.splitChars '/' s) :
    Solid isPadding s := by
  have solid (c : Char) (hc : c ∈ s) : Text.isBlank c = false := by
    rcases Text.isNameChar_of_isRouteChar (route c hc) with name | rfl
    · exact (Text.plain_of_isNameChar name).2.2.2
    · decide
  constructor
  · intro c hc
    by_contra padding
    obtain ⟨rest, rfl⟩ := List.head?_eq_some_iff.mp hc
    rw [eq_slash_of_padding (by simpa using padding) (solid c List.mem_cons_self)] at filled
    exact filled (by simp [Text.splitChars])
  · intro c hc
    by_contra padding
    obtain ⟨front, rfl⟩ := List.getLast?_eq_some_iff.mp hc
    rw [eq_slash_of_padding (by simpa using padding) (solid c (by simp)),
      Text.splitChars_append] at filled
    exact filled (by simp [Text.splitChars])

theorem lowerChars_of_route (route : ∀ c ∈ s, isRouteChar c = true) : Text.lowerChars s = s := by
  have small {c : Char} (hc : isRouteChar c = true) : c.toNat < 128 := by
    rcases Text.isNameChar_of_isRouteChar hc with name | rfl
    · exact Text.lt_of_isNameChar name
    · decide
  have lower {c : Char} (hc : isRouteChar c = true) :
      c ≠ 'Σ' ∧ c ≠ '\u0130' ∧ Text.lowerChar c = c := by
    revert hc
    exact fun hc => Text.of_ascii (P := fun c => isRouteChar c = true →
      c ≠ 'Σ' ∧ c ≠ '\u0130' ∧ Text.lowerChar c = c) (by decide) (small hc) hc
  suffices from_any : ∀ before, Text.lowerFrom before s = s from from_any []
  induction s with
  | nil => exact fun _ => rfl
  | cons c s ih =>
    obtain ⟨hc, rest⟩ := List.forall_mem_cons.mp route
    obtain ⟨sigma, dotted, same⟩ := lower hc
    intro before
    rw [Text.lowerFrom, if_neg sigma, if_neg dotted, same, ih rest]

theorem dashed_of_route (route : ∀ c ∈ s, isRouteChar c = true) : dashed false s = .ok s := by
  induction s with
  | nil => rfl
  | cons c s ih =>
    obtain ⟨hc, rest⟩ := List.forall_mem_cons.mp route
    have solid : Text.isBlank c = false := by
      rcases Text.isNameChar_of_isRouteChar hc with name | rfl
      · exact (Text.plain_of_isNameChar name).2.2.2
      · decide
    rw [dashed, solid, ih rest, if_neg Bool.false_ne_true, if_pos hc]
    rfl

theorem ofKey_text (h : ofKey key = .ok r) : ofKey r.text = .ok r := by
  rcases spelled_of_ofKey h with rfl | ⟨s, text, route, filled⟩
  · decide
  · have slash : IsRim ['/'] := ⟨[], ['/'], [], rfl, nofun, by simp, nofun⟩
    have trimmed := trimKey_between slash isRim_nil (solid_of_filled route filled)
    rw [List.append_nil, List.singleton_append, ← text] at trimmed
    have ne : s ≠ [] := by
      rintro rfl
      exact filled (by simp [Text.splitChars])
    have other : String.ofList s ∉ rootKeys :=
      fun named => text_ne_rootKey h named (text_eq_of_toList text)
    unfold ofKey
    rw [trimmed, lowerChars_of_route route]
    dsimp only
    rw [dashed_of_route route]
    simp [ne, other, filled, ← text_eq_of_toList text]

theorem fileStem_eq_index_iff (h : ofKey key = .ok r) : r.fileStem = "index" ↔ r = root := by
  constructor
  · intro index
    rcases cases_of_isRoot h with root | ⟨s, -, text, -, stem, -⟩
    · exact root
    · rw [index] at stem
      exact absurd stem.symm (fileStem_ne_index h text)
  · rintro rfl
    decide

theorem fileStem_eq_iff (h : ofKey key = .ok r) (h' : ofKey key' = .ok r') :
    r.fileStem = r'.fileStem ↔ r = r' :=
  ⟨fileStem_injective h h', congrArg fileStem⟩

end Route

namespace Document

variable {d : Document}

theorem exists_routes_iff (d : Document) :
    (∃ routes, d.routes = .ok routes) ↔ Routable (Dict.keys d.pages) := by
  obtain ⟨accepts, refuses⟩ := routes_spec d
  constructor
  · rintro ⟨routes, ok⟩
    exact accepts routes ok
  · intro sound
    cases found : d.routes with
    | ok routes => exact ⟨routes, rfl⟩
    | error e => exact absurd sound (not_routable_of_fault (refuses e found))

/-- Every key that has a route has a canonical one, which denotes itself and whose files are named as
those of no other route, `index` being the root's. A document has the routes of its keys, in page order,
just when each key has one and no two have the same. -/
theorem routes_canonical :
    (∀ key r, Route.ofKey key = .ok r →
      r.IsCanonical ∧ Route.ofKey r.text = .ok r ∧ (r.fileStem = "index" ↔ r = .root)) ∧
    (∀ key key' r r', Route.ofKey key = .ok r → Route.ofKey key' = .ok r' →
      (r.fileStem = r'.fileStem ↔ r = r')) ∧
    ∀ d : Document, ((∃ routes, d.routes = .ok routes) ↔ Routable (Dict.keys d.pages)) ∧
      ∀ routes, d.routes = .ok routes →
        routes.map Prod.fst = Dict.keys d.pages ∧ ∀ e ∈ routes, Route.ofKey e.1 = .ok e.2 := by
  refine ⟨fun key r h => ?_, fun key key' r r' h h' => Route.fileStem_eq_iff h h', fun d => ?_⟩
  · exact ⟨Route.canonical_of_ofKey h, Route.ofKey_text h, Route.fileStem_eq_index_iff h⟩
  · exact ⟨exists_routes_iff d, fun routes ok => rows_of_routesFrom ok⟩

theorem launch_canonical :
    Route.ofKey " /Blog/Launch  Day/" = .ok ⟨"/blog/launch-day"⟩ ∧
      (⟨"/blog/launch-day"⟩ : Route).IsCanonical ∧
      Route.ofKey "/blog/launch-day" = .ok ⟨"/blog/launch-day"⟩ ∧
      (⟨"/blog/launch-day"⟩ : Route).fileStem ≠ Route.root.fileStem := by
  have launch : Route.ofKey " /Blog/Launch  Day/" = .ok ⟨"/blog/launch-day"⟩ := by rfl
  have home : Route.ofKey "Home" = .ok .root := by decide
  obtain ⟨canonical, again, -⟩ := routes_canonical.1 _ _ launch
  have stems := routes_canonical.2.1 _ _ _ _ launch home
  exact ⟨launch, canonical, again, fun same => absurd (stems.mp same) (by decide)⟩

end Document

end SitePublish
