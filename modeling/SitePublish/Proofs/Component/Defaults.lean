import SitePublish.Proofs.Component.Resolution

/-!
# Defaults alone

What a design is resolved to that is placed without any properties. The fields of a design are
checked one by one, while their defaults go into one object: if one field lies below another, both
defaults are kept only when the upper one already has the lower one in it. So a design keeps its
defaults exactly when those of overlapping fields agree; else it loses one, or cannot be placed.
-/

set_option autoImplicit false

namespace SitePublish

namespace Props

/-- Nothing is in the way of an insertion: it meets objects only, and an object at its end takes in
an object. -/
structure Open (value : Json) (path : List String) (target : Dict String Json) : Prop where
  way : ∀ front rest v, path = front ++ rest → front ≠ [] → rest ≠ [] →
    (Json.obj target).at? front = some v → ∃ members, v = .obj members
  ending : ∀ existing, (Json.obj target).at? path = some (.obj existing) →
    ∃ incoming, value = .obj incoming

section Progress

variable {value : Json} {target inner : Dict String Json} {segment : String} {path : List String}

theorem Open.within (h : Open value (segment :: path) target)
    (found : target.get? segment = some (.obj inner)) : Open value path inner where
  way front rest v hp hf hr there :=
    h.way (segment :: front) rest v (by rw [hp, List.cons_append]) (List.cons_ne_nil _ _) hr
      (by simpa [found] using there)
  ending existing there := h.ending existing (by simpa [found] using there)

theorem open_nil (value : Json) (path : List String) (ne : path ≠ []) : Open value path [] where
  way front rest v hp hf hr there := by
    cases front with
    | nil => exact absurd rfl hf
    | cons key front => cases there
  ending existing there := by
    cases path with
    | nil => exact absurd rfl ne
    | cons key path => cases there

theorem exists_insertAt_leaf {key walked leaf : String} (h : Open value [leaf] target) :
    ∃ after, insertAt key value walked [leaf] target = (after, none) := by
  simp only [insertAt]
  split
  · exact ⟨_, rfl⟩
  · next existing found scalar =>
    obtain ⟨incoming, rfl⟩ := h.ending existing (by simpa using found)
    exact absurd rfl (scalar incoming)
  · exact ⟨_, rfl⟩

theorem exists_insertAt {key walked : String} (ne : path ≠ []) (h : Open value path target) :
    ∃ after, insertAt key value walked path target = (after, none) := by
  induction path generalizing walked target with
  | nil => exact absurd rfl ne
  | cons segment rest ih =>
    cases rest with
    | nil => exact exists_insertAt_leaf h
    | cons next rest =>
      have hne : next :: rest ≠ [] := List.cons_ne_nil next rest
      simp only [insertAt]
      split
      · next inner found =>
        obtain ⟨after, inserted⟩ : ∃ after, insertAt key value (dotted walked segment)
          (next :: rest) inner = (after, none) := ih hne (h.within found)
        exact ⟨_, by rw [inserted]⟩
      · obtain ⟨after, inserted⟩ : ∃ after, insertAt key value (dotted walked segment)
          (next :: rest) [] = (after, none) := ih hne (open_nil value (next :: rest) hne)
        exact ⟨_, by rw [inserted]⟩
      · next v scalar found =>
        obtain ⟨members, rfl⟩ := h.way [segment] (next :: rest) v rfl (List.cons_ne_nil _ _) hne
          (by simpa using found)
        exact absurd rfl (scalar members)

end Progress

/-- Where one field lies below another, the default of the upper one has that of the lower one in
it. -/
def Agree (fields : List Field) : Prop :=
  ∀ f ∈ fields, ∀ g ∈ fields, pathOf f.key <+: pathOf g.key →
    f.default.at? ((pathOf g.key).drop (pathOf f.key).length) = some g.default

instance (fields : List Field) : Decidable (Agree fields) :=
  inferInstanceAs (Decidable (∀ f ∈ fields, ∀ g ∈ fields, _ → _))

theorem Agree.below {fields : List Field} (h : Agree fields) {f g : Field} (hf : f ∈ fields)
    (hg : g ∈ fields) {rest : List String} (hp : pathOf g.key = pathOf f.key ++ rest) :
    f.default.at? rest = some g.default := by
  have inside := h f hf g hg ⟨rest, hp.symm⟩
  rwa [hp, List.drop_left] at inside

theorem Agree.subset {fields more : List Field} (h : Agree more) (sub : fields ⊆ more) :
    Agree fields :=
  fun f hf g hg => h f (sub hf) g (sub hg)

/-- What holds when the defaults of fields have been written: each stands where its field is, and
there is nothing but what is on the way to a field or inside its default. -/
structure Kept (fields : List Field) (m : Dict String Json) : Prop where
  ordered : (Json.obj m).Ordered
  holds : ∀ f ∈ fields, (Json.obj m).at? (pathOf f.key) = some f.default
  covered : ∀ path v, path ≠ [] → (Json.obj m).at? path = some v →
    ∃ f ∈ fields, path <+: pathOf f.key ∨ pathOf f.key <+: path

theorem kept_nil : Kept [] [] where
  ordered := Json.ordered_obj_iff.mpr ⟨Dict.sortedKeys_nil, fun _ _ found => (nomatch found)⟩
  holds f hf := absurd hf List.not_mem_nil
  covered path v ne found := by
    cases path with
    | nil => exact absurd rfl ne
    | cons key path => cases found

section Step

variable {fields : List Field} {f g : Field} {m m' : Dict String Json} {path rest : List String}
  {v : Json}

theorem Kept.at_rest (h : Kept fields m) (hg : g ∈ fields) (hp : pathOf g.key = path ++ rest)
    (there : (Json.obj m).at? path = some v) : v.at? rest = some g.default := by
  have held := h.holds g hg
  rwa [hp, Json.at?_append, there] at held

theorem Kept.in_default (h : Kept fields m) (hg : g ∈ fields) (hp : path = pathOf g.key ++ rest)
    (there : (Json.obj m).at? path = some v) : g.default.at? rest = some v := by
  rwa [hp, Json.at?_append, h.holds g hg] at there

section Next

variable (h : Kept fields m) (agree : Agree (fields ++ [f])) (fresh : ∀ g ∈ fields, g.key ≠ f.key)
include h agree fresh

omit h agree in
theorem ne_nil_of_below (hg : g ∈ fields) (hp : pathOf g.key = pathOf f.key ++ rest) :
    rest ≠ [] := by
  rintro rfl
  exact fresh g hg (pathOf_injective (by rw [hp, List.append_nil]))

theorem Kept.members_next {existing : Dict String Json}
    (there : (Json.obj m).at? (pathOf f.key) = some (.obj existing)) :
    ∃ incoming, f.default = .obj incoming ∧
      ∀ k ∈ Dict.keys existing, k ∈ Dict.keys incoming := by
  have hf : f ∈ fields ++ [f] := by simp
  have mem {g : Field} (hg : g ∈ fields) : g ∈ fields ++ [f] := List.mem_append_left _ hg
  have inner : ∀ g ∈ fields, pathOf g.key <+: pathOf f.key → f.default = .obj existing := by
    rintro g hg ⟨rest, hp⟩
    have in_g := h.in_default hg hp.symm there
    rw [agree.below (mem hg) hf hp.symm] at in_g
    exact Option.some.inj in_g
  have outer : ∀ g ∈ fields, ∀ k more, pathOf g.key = pathOf f.key ++ k :: more →
      ∃ incoming, f.default = .obj incoming ∧ k ∈ Dict.keys incoming := by
    intro g hg k more hp
    have in_f := agree.below hf (mem hg) hp
    obtain ⟨incoming, he⟩ := Json.exists_obj_of_at? in_f
    rw [he, Json.at?_obj_cons] at in_f
    obtain ⟨u, hu, -⟩ := Option.bind_eq_some_iff.mp in_f
    exact ⟨incoming, he, Dict.mem_keys_iff.mpr ⟨u, hu⟩⟩
  by_cases above : ∃ g ∈ fields, pathOf g.key <+: pathOf f.key
  · obtain ⟨g, hg, hp⟩ := above
    exact ⟨existing, inner g hg hp, fun k hk => hk⟩
  · -- Then everything in the object is on the way to a field below.
    obtain ⟨incoming, he⟩ : ∃ incoming, f.default = .obj incoming := by
      obtain ⟨g, hg, ⟨more, hp⟩ | under⟩ := h.covered _ _ (pathOf_ne_nil f.key) there
      · obtain ⟨k, more, rfl⟩ := List.exists_cons_of_ne_nil (ne_nil_of_below fresh hg hp.symm)
        obtain ⟨incoming, he, -⟩ := outer g hg k more hp.symm
        exact ⟨incoming, he⟩
      · exact absurd ⟨g, hg, under⟩ above
    refine ⟨incoming, he, fun k hk => ?_⟩
    obtain ⟨u, hu⟩ := Dict.mem_keys_iff.mp hk
    have inside : (Json.obj m).at? (pathOf f.key ++ [k]) = some u := by
      rw [Json.at?_append, there]
      simpa using hu
    have below : ∃ g ∈ fields, ∃ more, pathOf g.key = pathOf f.key ++ k :: more := by
      obtain ⟨g, hg, ⟨more, hp⟩ | under⟩ := h.covered _ _ (by simp) inside
      · exact ⟨g, hg, more, by rw [← hp, List.append_assoc, List.singleton_append]⟩
      · rcases List.prefix_concat_iff.mp under with same | under
        · exact ⟨g, hg, [], same⟩
        · exact absurd ⟨g, hg, under⟩ above
    obtain ⟨g, hg, more, hp⟩ := below
    obtain ⟨_, he', member⟩ := outer g hg k more hp
    cases he.symm.trans he'
    exact member

theorem Kept.open_next : Open f.default (pathOf f.key) m where
  way front rest v hp hfront hrest there := by
    have hf : f ∈ fields ++ [f] := by simp
    obtain ⟨g, hg, ⟨more, ahead⟩ | ⟨more, under⟩⟩ := h.covered front v hfront there
    · have in_v := h.at_rest hg ahead.symm there
      cases more with
      | nil =>
        cases in_v
        rw [List.append_nil] at ahead
        have in_g := agree.below (List.mem_append_left _ hg) hf (by rw [hp, ahead])
        obtain ⟨k, rest, rfl⟩ := List.exists_cons_of_ne_nil hrest
        exact Json.exists_obj_of_at? in_g
      | cons k more => exact Json.exists_obj_of_at? in_v
    · have in_g := h.in_default hg under.symm there
      have deep := agree.below (List.mem_append_left _ hg) hf
        (by rw [hp, ← under, List.append_assoc])
      rw [Json.at?_append, in_g] at deep
      obtain ⟨k, rest, rfl⟩ := List.exists_cons_of_ne_nil hrest
      exact Json.exists_obj_of_at? deep
  ending existing there := by
    obtain ⟨incoming, he, -⟩ := h.members_next agree fresh there
    exact ⟨incoming, he⟩

theorem Kept.step (ordered : f.default.Ordered) (inserts : Inserts f.default (pathOf f.key) m m')
    (orders : ∀ g ∈ fields, g.default.Ordered) : Kept (fields ++ [f]) m' := by
  have hf : f ∈ fields ++ [f] := by simp
  have own : (Json.obj m').at? (pathOf f.key) = some f.default := by
    rw [inserts.at_path, merged_of_subset ordered (fun v hv => h.ordered.of_at? hv)
      fun existing there => h.members_next agree fresh there]
  refine ⟨inserts.ordered ordered h.ordered, fun g hg => ?_, fun path v ne there => ?_⟩
  · rcases List.mem_append.mp hg with hold | hnew
    · by_cases below : pathOf f.key <+: pathOf g.key
      · obtain ⟨more, hp⟩ := below
        rw [← hp, Json.at?_append, own]
        exact agree.below hf hg hp.symm
      · by_cases above : pathOf g.key <+: pathOf f.key
        · obtain ⟨more, hp⟩ := above
          have hmore : more ≠ [] := by
            rintro rfl
            rw [List.append_nil] at hp
            exact below (hp ▸ List.prefix_rfl)
          rw [← hp] at inserts
          obtain ⟨inner, inner', he, hi, after⟩ := inserts.at_front hmore (h.holds g hold)
          have same : inner' = inner :=
            hi.unchanged (he ▸ orders g hold) (he ▸ agree.below hg hf hp.symm)
          rw [after, same, he]
        · rw [inserts.at_apart below above]
          exact h.holds g hold
    · cases List.mem_singleton.mp hnew
      exact own
  · by_cases below : pathOf f.key <+: path
    · exact ⟨f, hf, Or.inr below⟩
    · by_cases above : path <+: pathOf f.key
      · exact ⟨f, hf, Or.inl above⟩
      · rw [inserts.at_apart below above] at there
        obtain ⟨g, hg, near⟩ := h.covered path v ne there
        exact ⟨g, List.mem_append_left _ hg, near⟩

end Next

end Step

section Placed

variable {c : Component} {fields : List Field} {m : Dict String Json}

theorem exists_insertDefaults {done : List Field} (h : Kept done m)
    (agree : Agree (done ++ fields)) (distinct : ((done ++ fields).map Field.key).Nodup)
    (ordered : ∀ f ∈ done ++ fields, f.default.Ordered)
    (bare : ∀ f ∈ fields, isSet c f.key = false) :
    ∃ m', insertDefaults c fields m = .ok m' ∧ Kept (done ++ fields) m' := by
  induction fields generalizing done m with
  | nil =>
    rw [List.append_nil]
    exact ⟨m, rfl, h⟩
  | cons f rest ih =>
    rw [List.append_cons] at agree distinct ordered ⊢
    rw [List.forall_mem_cons] at bare
    have first : Agree (done ++ [f]) := agree.subset (List.subset_append_left _ _)
    have fresh : ∀ g ∈ done, g.key ≠ f.key := by
      rw [List.map_append, List.map_append, List.append_assoc] at distinct
      exact fun g hg => (List.nodup_append.mp distinct).2.2 _ (List.mem_map_of_mem hg) _ (by simp)
    have orders : ∀ g ∈ done ++ [f], g.default.Ordered :=
      fun g hg => ordered g (List.mem_append_left rest hg)
    obtain ⟨m₁, inserted⟩ : ∃ m₁, insertDotted m f.key f.default = (m₁, none) :=
      exists_insertAt (pathOf_ne_nil f.key) (h.open_next first fresh)
    have kept := h.step first fresh (orders f (by simp)) (inserts_of_insertDotted inserted)
      fun g hg => orders g (List.mem_append_left _ hg)
    obtain ⟨m', more, all⟩ := ih kept agree distinct ordered bare.2
    refine ⟨m', ?_, all⟩
    rw [insertDefaults, bare.1, if_neg Bool.false_ne_true, inserted]
    exact more

/-- A design of a registry that is placed without properties is resolved to an object with the
default of every field just when the defaults of overlapping fields agree. -/
theorem keeps_defaults_iff {designs : List Design} {r : Registry} {name : String} {d : Design}
    (accepted : Registry.ofDesigns designs = .ok r) (registered : r.get? name = some d)
    (ordered : ∀ f ∈ d.fields, f.default.Ordered) (type : String) :
    (∃ m, resolve d ⟨type, []⟩ = .ok m ∧
      ∀ f ∈ d.fields, (Json.obj m).at? (pathOf f.key) = some f.default) ↔ Agree d.fields := by
  constructor
  · rintro ⟨m, -, holds⟩ f hf g hg ⟨rest, hp⟩
    have held := holds g hg
    rw [← hp, Json.at?_append, holds f hf] at held
    rw [← hp, List.drop_left]
    exact held
  · intro agree
    have distinct := (Registry.wellFormed_of_ofDesigns accepted registered).distinct
    obtain ⟨m, inserted, kept⟩ : ∃ m, insertDefaults ⟨type, []⟩ d.fields [] = .ok m ∧
        Kept d.fields m :=
      exists_insertDefaults kept_nil agree distinct ordered fun _ _ => rfl
    refine ⟨m, ?_, kept.holds⟩
    rw [resolve, inserted]
    rfl

end Placed

end Props

theorem hero_keeps_defaults : ∃ d m, Registry.builtin.get? "Hero" = some d ∧
    Props.resolve d ⟨"Hero", []⟩ = .ok m ∧
    ∀ f ∈ d.fields, (Json.obj m).at? (Props.pathOf f.key) = some f.default := by
  have accepted : Registry.ofDesigns Registry.builtinDesigns = .ok Registry.builtin := by
    decide +kernel
  have checked : ∀ d ∈ Registry.builtin.get? "Hero",
      Props.Agree d.fields ∧ ∀ f ∈ d.fields, f.default.isStr = true := by
    decide
  obtain ⟨d, registered⟩ : ∃ d, Registry.builtin.get? "Hero" = some d :=
    Option.isSome_iff_exists.mp (by decide)
  obtain ⟨agree, texts⟩ := checked d registered
  have ordered : ∀ f ∈ d.fields, f.default.Ordered := fun f hf =>
    Json.ordered_of_not_obj fun members he => by
      have text := texts f hf
      rw [he] at text
      cases text
  obtain ⟨m, resolved, holds⟩ :=
    (Props.keeps_defaults_iff accepted registered ordered "Hero").mpr agree
  exact ⟨d, m, registered, resolved, holds⟩

def captionDesign : Design := ⟨"Caption", [⟨"logo", .text, .str "x"⟩, ⟨"logo.alt", .text, .str ""⟩]⟩

/-- A registry can have a design that cannot be placed, and one that loses a default. -/
theorem placing_fails :
    (Registry.ofDesigns [captionDesign] = .ok ⟨[("Caption", captionDesign)]⟩ ∧
      Props.resolve captionDesign ⟨"Caption", []⟩ = .error (.pathConflict "logo.alt" "logo")) ∧
    (Registry.ofDesigns [badgeDesign] = .ok ⟨[("Badge", badgeDesign)]⟩ ∧
      Props.resolve badgeDesign ⟨"Badge", []⟩ = .ok [("logo", .obj [("src", .arr [])])] ∧
      (Json.obj [("logo", .obj [("src", .arr [])])]).at? (Props.pathOf "logo") ≠
        some (.obj [("src", .str "/logo.png")])) := by
  decide +kernel

namespace RegistryFile

mutual

theorem ordered_toJson (v : Toml.Value) : (toJson v).Ordered := by
  match v with
  | .table entries =>
    exact Json.ordered_of_members (Dict.sortedKeys_ofList _) fun e he =>
      ordered_toMembers entries e (Dict.mem_of_mem_ofList he)
  | .datetime text =>
    exact Json.ordered_of_members (List.pairwise_singleton _ _)
      (List.forall_mem_singleton.mpr (Json.ordered_of_not_obj fun _ => Json.noConfusion))
  | .float bits =>
    refine Json.ordered_of_not_obj fun members he => ?_
    rw [toJson, floatJson] at he
    split at he
    · cases he
    · split at he <;> cases he
  | .string _ | .integer _ | .boolean _ | .array _ =>
    exact Json.ordered_of_not_obj fun _ => Json.noConfusion

theorem ordered_toMembers (entries : List (String × Toml.Value)) :
    ∀ e ∈ toMembers entries, e.2.Ordered := by
  match entries with
  | [] => exact fun e he => absurd he List.not_mem_nil
  | (key, v) :: rest =>
    exact List.forall_mem_cons.mpr ⟨ordered_toJson v, ordered_toMembers rest⟩

end

end RegistryFile

end SitePublish
