import SitePublish.Proofs.Component.Defaults
import SitePublish.Proofs.Component.Retention

/-!
# Insertions that meet an obstacle

An insertion at a dotted key is refused when something that is no object stands on its way, or an
object at its end where something else is to go. It makes objects only where nothing is, and behind
those there is nothing to meet. So whatever the walk has passed when it is refused was there before it,
and the map is left as it was.
-/

set_option autoImplicit false

namespace SitePublish.Props

def HoldsObject (m : Dict String Json) (path : List String) : Prop :=
  ∃ members, (Json.obj m).at? path = some (.obj members)

def HoldsScalar (m : Dict String Json) (path : List String) : Prop :=
  ∃ v, (Json.obj m).at? path = some v ∧ ∀ members, v ≠ .obj members

/-- Where a value is kept from its path: at the first place on the way that holds no object, or at the
end, where an object would be lost. -/
inductive Obstacle (value : Json) (path : List String) (m : Dict String Json) : List String → Prop
  | way {place : List String} (front : place <+: path) (proper : place ≠ path)
      (scalar : HoldsScalar m place)
      (first : ∀ other, other <+: path → HoldsScalar m other → place <+: other) :
      Obstacle value path m place
  | ending (there : HoldsObject m path) (scalar : ∀ members, value ≠ .obj members) :
      Obstacle value path m path

/-- A value at the end of its path, with objects on the way to it and all else as it was. -/
structure Placed (value : Json) (path : List String) (m after : Dict String Json) : Prop where
  apart : ∀ other, Apart path other → (Json.obj after).at? other = (Json.obj m).at? other
  way : ∀ front, front <+: path → front ≠ path → HoldsObject after front
  whole : ¬ HoldsObject m path ∨ (∀ members, value ≠ .obj members) →
    (Json.obj after).at? path = some value
  merged : ∀ existing incoming, (Json.obj m).at? path = some (.obj existing) →
    value = .obj incoming → ∃ members, (Json.obj after).at? path = some (.obj members) ∧
      ∀ k, Dict.get? members k = (Dict.get? incoming k).or (Dict.get? existing k)

section Steps

variable {value : Json} {path place : List String} {m inner after : Dict String Json}
  {segment : String}

theorem not_holdsScalar_nil (m : Dict String Json) : ¬ HoldsScalar m [] := by
  rintro ⟨v, there, scalar⟩
  exact scalar m (Option.some.inj there).symm

theorem holdsScalar_cons (found : m.get? segment = some (.obj inner)) :
    HoldsScalar m (segment :: path) ↔ HoldsScalar inner path := by
  simp [HoldsScalar, found]

theorem Obstacle.within (h : Obstacle value path inner place)
    (found : m.get? segment = some (.obj inner)) :
    Obstacle value (segment :: path) m (segment :: place) := by
  cases h with
  | way front proper scalar first =>
    refine .way (List.cons_prefix_cons.mpr ⟨rfl, front⟩) (by simpa using proper)
      ((holdsScalar_cons found).mpr scalar) fun other hp hs => ?_
    cases other with
    | nil => exact absurd hs (not_holdsScalar_nil m)
    | cons k ks =>
      obtain ⟨rfl, below⟩ := List.cons_prefix_cons.mp hp
      exact List.cons_prefix_cons.mpr ⟨rfl, first ks below ((holdsScalar_cons found).mp hs)⟩
  | ending there scalar => exact .ending (by simpa [HoldsObject, found] using there) scalar

theorem obstacle_head (rest : List String) {v : Json} (found : m.get? segment = some v)
    (scalar : ∀ members, v ≠ .obj members) (ne : rest ≠ []) :
    Obstacle value (segment :: rest) m [segment] := by
  refine .way (by simp) (by simpa using ne.symm) ⟨v, by simp [found], scalar⟩ fun other hp hs => ?_
  cases other with
  | nil => exact absurd hs (not_holdsScalar_nil m)
  | cons k ks => simp [(List.cons_prefix_cons.mp hp).1]

def reported (key walked : String) (path place : List String) : String :=
  if place = path then key else place.foldl dotted walked

theorem reported_cons (key walked : String) : reported key walked (segment :: path) (segment :: place) =
    reported key (dotted walked segment) path place := by
  simp [reported]

theorem insertAt_refused {key walked : String} {e : PropError} (ne : path ≠ [])
    (ordered : (Json.obj m).Ordered) (h : insertAt key value walked path m = (after, some e)) :
    after = m ∧ ∃ place, Obstacle value path m place ∧
      e = .pathConflict key (reported key walked path place) := by
  induction path generalizing walked m after with
  | nil => exact absurd rfl ne
  | cons segment rest ih =>
    cases rest with
    | nil =>
      simp only [insertAt] at h
      split at h
      · cases h
      · next existing found other =>
        cases h
        have there : HoldsObject m [segment] := ⟨existing, by simp [found]⟩
        exact ⟨rfl, _, .ending there fun members same => other members same, by simp [reported]⟩
      · cases h
    | cons next rest =>
      have hne : next :: rest ≠ [] := List.cons_ne_nil next rest
      simp only [insertAt] at h
      split at h
      · next inner found =>
        cases h' : insertAt key value (dotted walked segment) (next :: rest) inner with
        | mk inner' e' =>
          rw [h'] at h
          cases h
          have inside : (Json.obj m).at? [segment] = some (.obj inner) := by simpa using found
          obtain ⟨rfl, place, obstacle, rfl⟩ := ih hne (ordered.of_at? inside) h'
          refine ⟨ordered.keys.insert_of_get? found, _, obstacle.within found, ?_⟩
          rw [reported_cons]
      · -- In an object that was just made nothing can be in the way.
        obtain ⟨inner', made⟩ : ∃ inner', insertAt key value (dotted walked segment) (next :: rest) [] =
          (inner', none) := exists_insertAt hne (open_nil value (next :: rest) hne)
        rw [made] at h
        cases h
      · next v scalar found =>
        cases h
        refine ⟨rfl, _, obstacle_head (next :: rest) found (fun _ same => scalar _ same) hne, ?_⟩
        simp [reported]

theorem Inserts.unobstructed (h : Inserts value path m after) : ¬ Obstacle value path m place := by
  rintro (⟨⟨rest, rfl⟩, proper, ⟨v, there, scalar⟩, -⟩ | ⟨⟨existing, there⟩, scalar⟩)
  · have ne : rest ≠ [] := by
      rintro rfl
      exact proper (by simp)
    obtain ⟨inner, -, rfl, -⟩ := h.at_front ne there
    exact scalar inner rfl
  · obtain ⟨incoming, rfl⟩ := h.obj_of_obj there
    exact scalar incoming rfl

theorem Inserts.placed (h : Inserts value path m after) (distinct : value.DistinctKeys) :
    Placed value path m after where
  apart other apart := h.at_apart apart.1 apart.2
  way front hp ne := by
    obtain ⟨rest, rfl⟩ := hp
    have at_path := h.at_path
    rw [Json.at?_append] at at_path
    obtain ⟨u, hu, below⟩ := Option.bind_eq_some_iff.mp at_path
    cases rest with
    | nil => exact absurd (List.append_nil front).symm ne
    | cons key rest =>
      obtain ⟨members, rfl⟩ := Json.exists_obj_of_at? below
      exact ⟨members, hu⟩
  whole plain := by
    rw [h.at_path]
    rcases plain with missing | scalar
    · rw [merged_of_present_scalar fun existing there => missing ⟨existing, there⟩]
    · rw [merged_of_not_obj scalar]
  merged existing incoming there incoming_eq := by
    subst incoming_eq
    refine ⟨Dict.insertAll existing incoming, by rw [h.at_path, there, merged], fun k => ?_⟩
    exact Dict.get?_insertAll existing distinct k

end Steps

theorem joinWith_dotted (walked segment : String) (rest : List String) :
    Text.joinWith '.' ((walked ++ "." ++ segment) :: rest) =
      Text.joinWith '.' (walked :: segment :: rest) := by
  apply String.toList_injective
  cases rest <;> simp [Text.joinWith, Text.joinChars]

/-- The walk joins the keys by dots once it has one that is not empty. -/
theorem foldl_dotted (place : List String) {walked : String} (ne : walked ≠ "") :
    place.foldl dotted walked = Text.joinWith '.' (walked :: place) := by
  induction place generalizing walked with
  | nil => simp [Text.joinWith, Text.joinChars]
  | cons segment rest ih =>
    have step : dotted walked segment = walked ++ "." ++ segment := if_neg ne
    have longer : walked ++ "." ++ segment ≠ "" := by simp
    rw [List.foldl_cons, step, ih longer, joinWith_dotted]

theorem reported_eq {value : Json} {m : Dict String Json} {key : String} {place : List String}
    (obstacle : Obstacle value (pathOf key) m place) (filled : "" ∉ pathOf key) :
    reported key "" (pathOf key) place = Text.joinWith '.' place := by
  unfold reported
  split
  · next whole => rw [whole, pathOf, Text.joinWith_splitOn]
  · next proper =>
    rcases obstacle with ⟨front, -, scalar, -⟩ | -
    · cases place with
      | nil => exact absurd scalar (not_holdsScalar_nil m)
      | cons segment rest =>
        have ne : segment ≠ "" := fun empty => filled (empty ▸ front.subset List.mem_cons_self)
        exact foldl_dotted rest ne
    · exact absurd rfl proper

/-- An insertion goes through just when there is no obstacle. Then the value stands at its path, merged
into an object that was there, and no path beside the key's changes. Else nothing changes at all, and
the obstacle is reported by its dotted name, if no part of the key is empty. -/
theorem insertDotted_placed_or_untouched {m : Dict String Json} {value : Json}
    (ordered : (Json.obj m).Ordered) (distinct : value.DistinctKeys) (key : String) :
    ((∃ after, insertDotted m key value = (after, none)) ↔
      ∀ place, ¬ Obstacle value (pathOf key) m place) ∧
    (∀ after, insertDotted m key value = (after, none) → Placed value (pathOf key) m after) ∧
    ∀ after e, insertDotted m key value = (after, some e) →
      after = m ∧ ∃ place blockedAt, Obstacle value (pathOf key) m place ∧
        e = .pathConflict key blockedAt ∧
        ("" ∉ pathOf key → blockedAt = Text.joinWith '.' place) := by
  have refused {after : Dict String Json} {e : PropError}
      (h : insertDotted m key value = (after, some e)) :=
    insertAt_refused (pathOf_ne_nil key) ordered h
  refine ⟨⟨?_, fun free => ?_⟩, fun after inserted => ?_, fun after e h => ?_⟩
  · rintro ⟨after, inserted⟩ place
    exact (inserts_of_insertDotted inserted).unobstructed
  · cases h : insertDotted m key value with
    | mk after e =>
      cases e with
      | none => exact ⟨after, rfl⟩
      | some e =>
        obtain ⟨-, place, obstacle, -⟩ := refused h
        exact absurd obstacle (free place)
  · exact (inserts_of_insertDotted inserted).placed distinct
  · obtain ⟨same, place, obstacle, he⟩ := refused h
    exact ⟨same, place, _, obstacle, he, reported_eq obstacle⟩

def album : Dict String Json :=
  [("images", .obj [("main", .obj [("alt", .str "x"), ("src", .str "/a.png")])]),
    ("title", .str "Trip")]

theorem ordered_album : (Json.obj album).Ordered := by
  have text (s : String) : (Json.str s).Ordered := Json.ordered_of_not_obj fun _ => Json.noConfusion
  have picture : (Json.obj [("alt", .str "x"), ("src", .str "/a.png")]).Ordered :=
    Json.ordered_of_members (by decide) (by simp [text])
  have images : (Json.obj [("main", .obj [("alt", .str "x"), ("src", .str "/a.png")])]).Ordered :=
    Json.ordered_of_members (by decide) (by simp [picture])
  exact Json.ordered_of_members (by decide) (by simp [album, images, text])

def retouched : Json := .obj [("src", .str "/b.png"), ("width", .int 3)]

theorem album_placed_or_untouched :
    (∃ after, insertDotted album "images.main" retouched = (after, none) ∧
      ∃ members, (Json.obj after).at? ["images", "main"] = some (.obj members) ∧
        Dict.get? members "alt" = some (.str "x") ∧
        Dict.get? members "src" = some (.str "/b.png")) ∧
    insertDotted album "title.font.size" (.int 3) =
      (album, some (.pathConflict "title.font.size" "title")) ∧
    insertDotted album "images" (.int 3) = (album, some (.pathConflict "images" "images")) := by
  have number : (Json.int 3).DistinctKeys := trivial
  refine ⟨?_, ?_, ?_⟩
  · have distinct : retouched.DistinctKeys := by simp [retouched, Json.DistinctKeys, Dict.keys]
    have inserted : (insertDotted album "images.main" retouched).2 = none := by decide
    have path : pathOf "images.main" = ["images", "main"] := by decide
    obtain ⟨-, placed, -⟩ := insertDotted_placed_or_untouched ordered_album distinct "images.main"
    rw [path] at placed
    obtain ⟨after, whole⟩ : ∃ after, insertDotted album "images.main" retouched = (after, none) :=
      ⟨_, Prod.ext rfl inserted⟩
    obtain ⟨members, there, found⟩ := (placed after whole).merged _ _ rfl rfl
    exact ⟨after, whole, members, there, by rw [found]; rfl, by rw [found]; rfl⟩
  · have failed : (insertDotted album "title.font.size" (.int 3)).2 =
        some (.pathConflict "title.font.size" "title") := by decide
    obtain ⟨-, -, refused⟩ :=
      insertDotted_placed_or_untouched ordered_album number "title.font.size"
    exact Prod.ext (refused _ _ (Prod.ext rfl failed)).1 failed
  · have failed : (insertDotted album "images" (.int 3)).2 =
        some (.pathConflict "images" "images") := by decide
    obtain ⟨-, -, refused⟩ := insertDotted_placed_or_untouched ordered_album number "images"
    exact Prod.ext (refused _ _ (Prod.ext rfl failed)).1 failed

end SitePublish.Props
