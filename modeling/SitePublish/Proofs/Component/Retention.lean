import SitePublish.Proofs.Component.Resolution

/-!
# What becomes of the values that are set

A resolution writes the defaults first and then the own values in the order of their keys. In that
order a key stands before the keys of all places below its own, whatever other keys come between
them. So an own value is only followed by writes below it and by writes apart from it: a plain value
is never replaced, and an object only in the members that a longer key goes into. And nothing is in
the result that none of the writes has brought.
-/

set_option autoImplicit false

namespace SitePublish.Props

/-- Neither of the paths begins with the other one. -/
def Apart (path other : List String) : Prop := ¬ path <+: other ∧ ¬ other <+: path

/-- What is written under the key has this value at this path of the whole object. -/
def Brings (e : String × Json) (path : List String) (w : Json) : Prop :=
  ∃ rest, path = pathOf e.1 ++ rest ∧ e.2.at? rest = some w

theorem not_lt_of_pathOf_prefix {a b : String} (front : pathOf a <+: pathOf b) : ¬ b < a := by
  obtain ⟨pieces, hp⟩ := front
  have split : Text.splitChars '.' b.toList =
      Text.splitChars '.' a.toList ++ pieces.map String.toList := by
    have lists := congrArg (List.map String.toList) hp
    simpa [pathOf, Text.splitOn, Function.comp_def] using lists.symm
  by_cases ne : pieces = []
  · subst ne
    rw [pathOf_injective ((List.append_nil _).symm.trans hp)]
    exact lt_irrefl b
  · obtain ⟨tail, ht⟩ := Text.exists_append_sep_iff.mpr ⟨_, by simpa using ne, split⟩
    rw [String.lt_iff_toList_lt, ht]
    exact Text.not_append_lt _ _

section Steps

variable {value : Json} {path other : List String} {m m' : Dict String Json}

theorem Inserts.at_kept (h : Inserts value other m m') {v : Json}
    (there : (Json.obj m).at? path = some v) (plain : ∀ members, v ≠ .obj members)
    (above : ¬ other <+: path) : (Json.obj m').at? path = some v := by
  refine (h.at_apart above fun below => ?_).trans there
  -- Below a plain value nothing is written.
  obtain ⟨rest, rfl⟩ := below
  have ne : rest ≠ [] := by
    rintro rfl
    exact above (by simp)
  obtain ⟨inner, -, hv, -⟩ := h.at_front ne there
  exact plain inner hv

theorem at?_merged {present : Option Json} {rest : List String} {w : Json}
    (distinct : value.DistinctKeys) (found : (merged present value).at? rest = some w)
    (plain : ∀ members, w ≠ .obj members) :
    value.at? rest = some w ∨ ∃ v, present = some v ∧ v.at? rest = some w := by
  unfold merged at found
  split at found
  · next existing incoming =>
    cases rest with
    | nil => exact absurd (Option.some.inj found).symm (plain _)
    | cons key rest =>
      rw [Json.at?_obj_cons, Dict.get?_insertAll existing distinct] at found
      cases new : Dict.get? incoming key with
      | some u =>
        rw [new] at found
        exact Or.inl (by simpa [new] using found)
      | none =>
        rw [new] at found
        exact Or.inr ⟨_, rfl, by simpa using found⟩
  · exact Or.inl found

theorem Inserts.brings_or_at {key : String} (h : Inserts value (pathOf key) m m')
    (distinct : value.DistinctKeys) {w : Json} (found : (Json.obj m').at? path = some w)
    (plain : ∀ members, w ≠ .obj members) :
    Brings (key, value) path w ∨ (Json.obj m).at? path = some w := by
  by_cases above : pathOf key <+: path
  · obtain ⟨rest, rfl⟩ := above
    rw [Json.at?_append, h.at_path, Option.bind_some] at found
    rcases at?_merged distinct found plain with new | ⟨v, hv, old⟩
    · exact Or.inl ⟨rest, rfl, new⟩
    · exact Or.inr (by rw [Json.at?_append, hv]; exact old)
  · refine Or.inr ((h.at_apart above fun below => ?_).symm.trans found)
    -- On the way to the place of the write there are only objects.
    obtain ⟨rest, hp⟩ := below
    have at_path := h.at_path
    rw [← hp, Json.at?_append, found, Option.bind_some] at at_path
    cases rest with
    | nil => exact above (by simp [← hp])
    | cons next rest =>
      obtain ⟨members, hw⟩ := Json.exists_obj_of_at? at_path
      exact plain members hw

end Steps

section Runs

variable {d : Design} {c : Component} {ws : List (String × Json)} {path : List String}
  {m m' : Dict String Json}

theorem Written.at_kept (h : Written ws m m') {v : Json}
    (there : (Json.obj m).at? path = some v) (plain : ∀ members, v ≠ .obj members)
    (above : ∀ e ∈ ws, ¬ pathOf e.1 <+: path) : (Json.obj m').at? path = some v := by
  induction h with
  | nil => exact there
  | cons first _ ih =>
    obtain ⟨ha, above⟩ := List.forall_mem_cons.mp above
    exact ih (first.at_kept there plain ha) above

theorem Written.brings_or_at (h : Written ws m m') (distinct : ∀ e ∈ ws, e.2.DistinctKeys)
    {w : Json} (found : (Json.obj m').at? path = some w) (plain : ∀ members, w ≠ .obj members) :
    (∃ e ∈ ws, Brings e path w) ∨ (Json.obj m).at? path = some w := by
  induction h with
  | nil => exact Or.inr found
  | cons first _ ih =>
    obtain ⟨hd, distinct⟩ := List.forall_mem_cons.mp distinct
    rcases ih distinct found with ⟨e, he, brings⟩ | between
    · exact Or.inl ⟨e, List.mem_cons_of_mem _ he, brings⟩
    · exact (first.brings_or_at hd between plain).imp_left fun brings =>
        ⟨_, List.mem_cons_self, brings⟩

theorem exists_written_of_own (sorted : Dict.SortedKeys c.props) (resolved : resolve d c = .ok m)
    {k : String} {v : Json} (own : (k, v) ∈ c.props) (there : v.isNull = false) :
    ∃ m₁ m₂ after, Inserts v (pathOf k) m₁ m₂ ∧ Written after m₂ m ∧
      ∀ e ∈ after, (e ∈ c.props ∧ e.2.isNull = false) ∧ ¬ pathOf e.1 <+: pathOf k := by
  have mem : (k, v) ∈ c.props.filter fun e => !e.2.isNull :=
    List.mem_filter.mpr ⟨own, by simp [there]⟩
  obtain ⟨before, after, hsplit⟩ := List.append_of_mem mem
  have keys : Dict.SortedKeys (before ++ (k, v) :: after) :=
    hsplit ▸ List.Pairwise.sublist (List.filter_sublist.map Prod.fst) sorted
  rw [Dict.SortedKeys, Dict.keys, List.map_append, List.map_cons] at keys
  have later := (List.pairwise_cons.mp (List.pairwise_append.mp keys).2.1).1
  have written := written_of_resolve resolved
  rw [writes, hsplit] at written
  obtain ⟨_, -, written⟩ := written.of_append
  obtain ⟨m₁, -, _ | ⟨first, more⟩⟩ := written.of_append
  refine ⟨m₁, _, after, first, more, fun e he => ⟨?_, fun front => ?_⟩⟩
  · have he : e ∈ c.props.filter fun e => !e.2.isNull := by simp [hsplit, he]
    simpa using he
  · exact not_lt_of_pathOf_prefix front (later e.1 (List.mem_map_of_mem he))

end Runs

section Outcome

variable {d : Design} {c : Component} {m : Dict String Json}

theorem at?_own_of_resolve (sorted : Dict.SortedKeys c.props) (resolved : resolve d c = .ok m)
    {k : String} {v : Json} (own : (k, v) ∈ c.props) (there : v.isNull = false)
    (plain : ∀ members, v ≠ .obj members) : (Json.obj m).at? (pathOf k) = some v := by
  obtain ⟨m₁, m₂, after, first, more, later⟩ := exists_written_of_own sorted resolved own there
  have placed := first.at_path
  rw [merged_of_not_obj plain] at placed
  exact more.at_kept placed plain fun e he => (later e he).2

theorem at?_member_of_resolve (sorted : Dict.SortedKeys c.props) (resolved : resolve d c = .ok m)
    {k : String} {members : Dict String Json} (own : (k, .obj members) ∈ c.props)
    (distinct : (Dict.keys members).Nodup) {key : String} {u : Json}
    (found : Dict.get? members key = some u)
    (free : ∀ e ∈ c.props, e.2.isNull = false → ¬ pathOf k ++ [key] <+: pathOf e.1) :
    (Json.obj m).at? (pathOf k ++ [key]) = some u := by
  obtain ⟨m₁, m₂, after, first, more, later⟩ := exists_written_of_own sorted resolved own rfl
  rw [more.at_apart fun e he => ?_, first.at_member distinct found, Json.at?_nil]
  obtain ⟨⟨mem, there⟩, above⟩ := later e he
  refine ⟨fun front => ?_, free e mem there⟩
  rcases List.prefix_concat_iff.mp front with same | front
  · exact free e mem there (same ▸ List.prefix_refl _)
  · exact above front

theorem not_isSet_of_apart {key : String}
    (own : ∀ e ∈ c.props, e.2.isNull = false → Apart (pathOf e.1) (pathOf key)) :
    isSet c key = false := by
  unfold isSet
  split
  · next v found =>
    cases there : v.isNull with
    | true => rfl
    | false => exact absurd (List.prefix_refl _) (own _ (Dict.mem_of_get? found) there).1
  · rfl

theorem at?_default_of_resolve (resolved : resolve d c = .ok m) {before after : List Field}
    {f : Field} (fields : d.fields = before ++ f :: after)
    (others : ∀ g ∈ before ++ after, Apart (pathOf g.key) (pathOf f.key))
    (own : ∀ e ∈ c.props, e.2.isNull = false → Apart (pathOf e.1) (pathOf f.key)) :
    (Json.obj m).at? (pathOf f.key) = some f.default := by
  have defaults {fs : List Field} (sub : fs ⊆ before ++ after) :
      ∀ e ∈ (fs.filter fun g => !isSet c g.key).map (fun g => (g.key, g.default)),
        Apart (pathOf e.1) (pathOf f.key) := by
    intro e he
    obtain ⟨g, hg, rfl⟩ := List.mem_map.mp he
    exact others g (sub (List.mem_filter.mp hg).1)
  have written := written_of_resolve resolved
  rw [writes, fields, List.filter_append, List.filter_cons_of_pos (by simp [not_isSet_of_apart own]),
    List.map_append, List.map_cons] at written
  obtain ⟨m₃, written, values⟩ := written.of_append
  obtain ⟨m₁, front, _ | ⟨first, behind⟩⟩ := written.of_append
  have others : ∀ e ∈ c.props.filter fun e => !e.2.isNull, Apart (pathOf e.1) (pathOf f.key) :=
    fun e he => own e (List.mem_filter.mp he).1 (by simpa using (List.mem_filter.mp he).2)
  rw [values.at_apart others, behind.at_apart (defaults (List.subset_append_right _ _)), first.at_path,
    front.at_apart (defaults (List.subset_append_left _ _)),
    Json.at?_obj_nil (pathOf_ne_nil f.key), merged_none]

theorem brings_of_resolve (defaults : ∀ f ∈ d.fields, f.default.DistinctKeys)
    (values : ∀ e ∈ c.props, e.2.DistinctKeys) (resolved : resolve d c = .ok m)
    {path : List String} {w : Json} (found : (Json.obj m).at? path = some w)
    (plain : ∀ members, w ≠ .obj members) : ∃ e ∈ writes d c, Brings e path w := by
  have distinct := forall_mem_writes (c := c) defaults values
  refine ((written_of_resolve resolved).brings_or_at distinct found plain).resolve_right fun start => ?_
  cases path with
  | nil => exact plain _ (Option.some.inj start).symm
  | cons key rest => cases start

/-- An own value that is no object is found under its key; so is each member of an own object, unless
a longer own key goes to it or into it; so is the default of a field whose key no other field and no
own value meets. And every value that is found and is no object was brought by a default of a field
left out or by an own value. -/
theorem kept_and_brought_of_resolve (sorted : Dict.SortedKeys c.props)
    (defaults : ∀ f ∈ d.fields, f.default.DistinctKeys)
    (values : ∀ e ∈ c.props, e.2.DistinctKeys) (resolved : resolve d c = .ok m) :
    (∀ k v, (k, v) ∈ c.props → v.isNull = false → (∀ members, v ≠ .obj members) →
      (Json.obj m).at? (pathOf k) = some v) ∧
    (∀ k members, (k, .obj members) ∈ c.props → ∀ key u, Dict.get? members key = some u →
      (∀ e ∈ c.props, e.2.isNull = false → ¬ pathOf k ++ [key] <+: pathOf e.1) →
      (Json.obj m).at? (pathOf k ++ [key]) = some u) ∧
    (∀ before f after, d.fields = before ++ f :: after →
      (∀ g ∈ before ++ after, Apart (pathOf g.key) (pathOf f.key)) →
      (∀ e ∈ c.props, e.2.isNull = false → Apart (pathOf e.1) (pathOf f.key)) →
      (Json.obj m).at? (pathOf f.key) = some f.default) ∧
    ∀ path w, (Json.obj m).at? path = some w → (∀ members, w ≠ .obj members) →
      ∃ e ∈ writes d c, Brings e path w :=
  ⟨fun _ _ own there plain => at?_own_of_resolve sorted resolved own there plain,
    fun _ _ own _ _ found free =>
      at?_member_of_resolve sorted resolved own (values _ own) found free,
    fun _ _ _ fields others own => at?_default_of_resolve resolved fields others own,
    fun _ _ found plain => brings_of_resolve defaults values resolved found plain⟩

end Outcome

def bannerDesign : Design :=
  ⟨"Banner", [⟨"title", .text, .str "Welcome"⟩, ⟨"images.main", .image, .str ""⟩]⟩

def banner : Component :=
  ⟨"Banner", [("a", .obj [("b", .int 1), ("c", .int 2)]), ("a-b", .int 3), ("a.b", .int 4),
    ("images", .obj [("alt", .str "x")])]⟩

def resolvedBanner : Dict String Json :=
  [("a", .obj [("b", .int 4), ("c", .int 2)]), ("a-b", .int 3),
    ("images", .obj [("alt", .str "x"), ("main", .str "")]), ("title", .str "Welcome")]

theorem banner_kept :
    resolve bannerDesign banner = .ok resolvedBanner ∧
      (Json.obj resolvedBanner).at? (pathOf "a.b") = some (.int 4) ∧
      (Json.obj resolvedBanner).at? (pathOf "a" ++ ["c"]) = some (.int 2) ∧
      (Json.obj resolvedBanner).at? (pathOf "title") = some (.str "Welcome") ∧
      ∃ e ∈ writes bannerDesign banner, Brings e ["images", "main"] (.str "") := by
  have sorted : Dict.SortedKeys banner.props := by decide
  have defaults : ∀ f ∈ bannerDesign.fields, f.default.DistinctKeys := by
    simp [bannerDesign, Json.DistinctKeys]
  have values : ∀ e ∈ banner.props, e.2.DistinctKeys := by
    simp [banner, Json.DistinctKeys, Dict.keys]
  have resolved : resolve bannerDesign banner = .ok resolvedBanner := by rfl
  obtain ⟨plain, member, default, brought⟩ :=
    kept_and_brought_of_resolve sorted defaults values resolved
  refine ⟨resolved, plain "a.b" _ (by simp [banner]) rfl (fun _ => Json.noConfusion),
    member "a" [("b", .int 1), ("c", .int 2)] List.mem_cons_self "c" _ rfl (by decide),
    default [] _ _ rfl (by unfold Apart; decide) (by unfold Apart; decide),
    brought _ _ (by decide) fun _ => Json.noConfusion⟩

end SitePublish.Props
