import SitePublish.Component.RegistryFile
import SitePublish.Proofs.Component.Insertion
import SitePublish.Proofs.Component.Registry
import SitePublish.Proofs.Text.Split
import SitePublish.Site.Document

/-!
# Shapes of resolved properties

A resolution writes defaults and values one after the other, and looks at the shape of a value only
when it stands under the key of a field. So each field is written a value that it takes, but what a
page is rendered from has that shape only as long as no later write gets in its way: an object above
the field that brings something else along, or a part of the field's own object that is not a text.
-/

set_option autoImplicit false

namespace SitePublish

namespace FieldKind

/-- The texts that an object has to have; kinds without any take no objects. -/
def parts : FieldKind → List String
  | .image => ["src"]
  | .gradient => ["from", "to"]
  | .text | .color | .items | .testimonials => []

variable {kind : FieldKind} {v : Json} {members : Dict String Json}

theorem accepts_obj_iff :
    kind.accepts (.obj members) = true ↔
      kind.parts ≠ [] ∧ ∀ key ∈ kind.parts, ∃ s, Dict.get? members key = some (.str s) := by
  have text (key : String) :
      ((Dict.get? members key).map Json.isStr).getD false = true ↔
        ∃ s, Dict.get? members key = some (.str s) := by
    rcases Dict.get? members key with - | (_ | _ | _ | _ | _ | _ | _) <;> simp [Json.isStr]
  cases kind <;>
    simp [accepts, parts, hasStrings, isListOf, Json.isStr, Json.members?, Json.member?, text]

theorem text_of_accepts_obj {key : String} (accepted : kind.accepts (.obj members) = true)
    (part : key ∈ kind.parts) : ∃ s, Dict.get? members key = some (.str s) :=
  (accepts_obj_iff.mp accepted).2 key part

theorem accepts_merged (present : Option Json) (distinct : v.DistinctKeys)
    (accepted : kind.accepts v = true) : kind.accepts (Props.merged present v) = true := by
  cases v with
  | obj incoming =>
    obtain ⟨members, hm, hget⟩ := Props.exists_merged_obj present distinct
    obtain ⟨ne, texts⟩ := accepts_obj_iff.mp accepted
    rw [hm, accepts_obj_iff]
    refine ⟨ne, fun key part => ?_⟩
    obtain ⟨s, hs⟩ := texts key part
    exact ⟨s, hget hs⟩
  | _ => rwa [Props.merged_of_not_obj (fun _ => Json.noConfusion)]

end FieldKind

namespace Props

def pathOf (key : String) : List String := Text.splitOn '.' key

theorem pathOf_injective : Function.Injective pathOf := fun a b h => by
  have hp : Function.Injective (List.map String.ofList) :=
    List.map_injective_iff.mpr fun _ _ => String.ofList_injective
  exact String.toList_injective (Text.splitChars_injective (hp h))

theorem pathOf_ne_nil (key : String) : pathOf key ≠ [] :=
  mt List.map_eq_nil_iff.mp (Text.splitChars_ne_nil '.' key.toList)

section Runs

variable {d : Design} {c : Component} {m m' : Dict String Json}

def writes (d : Design) (c : Component) : List (String × Json) :=
  (d.fields.filter fun f => !isSet c f.key).map (fun f => (f.key, f.default)) ++
    c.props.filter fun e => !e.2.isNull

inductive Written : List (String × Json) → Dict String Json → Dict String Json → Prop
  | nil (m : Dict String Json) : Written [] m m
  | cons {key : String} {value : Json} {rest : List (String × Json)} {m m' m'' : Dict String Json}
      (first : Inserts value (pathOf key) m m') (more : Written rest m' m'') :
      Written ((key, value) :: rest) m m''

theorem Written.append {first second : List (String × Json)} {m'' : Dict String Json}
    (h : Written first m m') (h' : Written second m' m'') : Written (first ++ second) m m'' := by
  induction h with
  | nil => exact h'
  | cons i _ ih => exact .cons i (ih h')

theorem Written.of_append {first second : List (String × Json)}
    (h : Written (first ++ second) m m') :
    ∃ between, Written first m between ∧ Written second between m' := by
  induction first generalizing m with
  | nil => exact ⟨m, .nil m, h⟩
  | cons e first ih =>
    cases h with
    | cons i more =>
      obtain ⟨between, hf, hs⟩ := ih more
      exact ⟨between, .cons i hf, hs⟩

theorem inserts_of_insertDotted {key : String} {value : Json}
    (h : insertDotted m key value = (m', none)) : Inserts value (pathOf key) m m' :=
  insertAt_inserts (pathOf_ne_nil key) h

theorem written_of_insertDefaults {fields : List Field} (h : insertDefaults c fields m = .ok m') :
    Written ((fields.filter fun f => !isSet c f.key).map fun f => (f.key, f.default)) m m' := by
  induction fields generalizing m with
  | nil =>
    cases h
    exact .nil _
  | cons f rest ih =>
    simp only [insertDefaults] at h
    split at h
    · next set => simpa [set] using ih h
    · next unset =>
      split at h
      · next m₁ inserted =>
        have hi := Written.cons (inserts_of_insertDotted inserted) (ih h)
        simpa [unset] using hi
      · cases h

theorem written_of_insertValues {entries : List (String × Json)}
    (h : insertValues d entries m = .ok m') :
    Written (entries.filter fun e => !e.2.isNull) m m' := by
  induction entries generalizing m with
  | nil =>
    cases h
    exact .nil _
  | cons e rest ih =>
    obtain ⟨key, value⟩ := e
    simp only [insertValues] at h
    split at h
    · next null => simpa [null] using ih h
    · next there =>
      have step {m₁ : Dict String Json} (inserted : insertDotted m key value = (m₁, none))
          (h : insertValues d rest m₁ = .ok m') :
          Written (((key, value) :: rest).filter fun e => !e.2.isNull) m m' := by
        have hi := Written.cons (inserts_of_insertDotted inserted) (ih h)
        simpa [there] using hi
      split at h
      · split at h
        · split at h
          · next inserted => exact step inserted h
          · cases h
        · cases h
      · split at h
        · next inserted => exact step inserted h
        · cases h

theorem written_of_resolve (h : resolve d c = .ok m) : Written (writes d c) [] m := by
  unfold resolve at h
  split at h
  · next defaults => exact (written_of_insertDefaults defaults).append (written_of_insertValues h)
  · cases h

/-- Writes that are neither above a path nor behind it do not matter to it. -/
theorem Written.at_apart {ws : List (String × Json)} {path : List String} (h : Written ws m m')
    (apart : ∀ e ∈ ws, ¬ pathOf e.1 <+: path ∧ ¬ path <+: pathOf e.1) :
    (Json.obj m').at? path = (Json.obj m).at? path := by
  induction h with
  | nil => rfl
  | cons first _ ih =>
    obtain ⟨⟨above, behind⟩, apart⟩ := List.forall_mem_cons.mp apart
    exact (ih apart).trans (first.at_apart above behind)

theorem Written.hereditary {P : Json → Prop} (hp : Hereditary P) {ws : List (String × Json)}
    (h : Written ws m m') (values : ∀ e ∈ ws, P e.2) (old : P (.obj m)) : P (.obj m') := by
  induction h with
  | nil => exact old
  | cons first _ ih =>
    obtain ⟨value, values⟩ := List.forall_mem_cons.mp values
    exact ih values (first.hereditary hp value old)

theorem forall_mem_writes {P : Json → Prop} (defaults : ∀ f ∈ d.fields, P f.default)
    (own : ∀ e ∈ c.props, P e.2) : ∀ e ∈ writes d c, P e.2 := by
  intro e he
  rcases List.mem_append.mp he with he | he
  · obtain ⟨f, hf, rfl⟩ := List.mem_map.mp he
    exact defaults f (List.mem_filter.mp hf).1
  · exact own e (List.mem_filter.mp he).1

theorem hereditary_of_resolve {P : Json → Prop} (hp : Hereditary P) (h : resolve d c = .ok m)
    (defaults : ∀ f ∈ d.fields, P f.default) (own : ∀ e ∈ c.props, P e.2) : P (.obj m) :=
  (written_of_resolve h).hereditary hp (forall_mem_writes defaults own) hp.empty

theorem accepts_of_insertValues {entries : List (String × Json)} {key : String} {value : Json}
    {f : Field} (h : insertValues d entries m = .ok m') (he : (key, value) ∈ entries)
    (there : value.isNull = false) (hf : d.field? key = some f) : f.kind.accepts value = true := by
  induction entries generalizing m with
  | nil => exact absurd he List.not_mem_nil
  | cons e rest ih =>
    obtain ⟨k, v⟩ := e
    simp only [insertValues] at h
    rcases List.mem_cons.mp he with hkv | he
    · cases hkv
      rw [there, if_neg Bool.false_ne_true, hf] at h
      by_contra refused
      simp [refused] at h
    · split at h
      · exact ih h he
      · split at h
        · split at h
          · split at h
            · exact ih h he
            · cases h
          · cases h
        · split at h
          · exact ih h he
          · cases h

/-- Every field is written a value that it takes, and whatever else is written under its key. -/
theorem exists_own_write (wf : d.WellFormed) (h : resolve d c = .ok m) {f : Field}
    (hf : f ∈ d.fields) :
    (∃ own, (f.key, own) ∈ writes d c) ∧
      ∀ own, (f.key, own) ∈ writes d c → f.kind.accepts own = true := by
  unfold resolve at h
  split at h
  · next m₁ defaults =>
    constructor
    · cases set : isSet c f.key with
      | false =>
        exact ⟨f.default, List.mem_append_left _ (List.mem_map.mpr
          ⟨f, List.mem_filter.mpr ⟨hf, by rw [set]; rfl⟩, rfl⟩)⟩
      | true =>
        unfold isSet at set
        split at set
        · next own found =>
          exact ⟨own, List.mem_append_right _
            (List.mem_filter.mpr ⟨Dict.mem_of_get? found, set⟩)⟩
        · cases set
    · intro own written
      rcases List.mem_append.mp written with written | written
      · obtain ⟨g, hg, he⟩ := List.mem_map.mp written
        obtain ⟨hk, hv⟩ := Prod.mk.inj he
        have hgf : some g = some f := by
          rw [← wf.field?_eq (List.mem_filter.mp hg).1, ← wf.field?_eq hf, hk]
        cases hgf
        exact hv ▸ wf.accepted f hf
      · obtain ⟨he, there⟩ := List.mem_filter.mp written
        exact accepts_of_insertValues h he (by simpa using there) (wf.field?_eq hf)
  · cases h

end Runs

/-- The path leads to a value that the kind takes. -/
def HasShape (kind : FieldKind) (path : List String) (m : Dict String Json) : Prop :=
  ∃ v, (Json.obj m).at? path = some v ∧ kind.accepts v = true

/-- A write gets in the way of a field with this kind and path. -/
inductive Disturbs (kind : FieldKind) (path : List String) : String × Json → Prop
  /-- An object above the field has something on the way to it, behind which the field has no value
  that it takes. -/
  | above {key next : String} {rest : List String} {incoming : Dict String Json} {u : Json}
      (front : path = pathOf key ++ next :: rest) (found : Dict.get? incoming next = some u)
      (refused : ∀ v, u.at? rest = some v → kind.accepts v = false) :
      Disturbs kind path (key, .obj incoming)
  /-- Something that is not a text goes into a part of the field's object. -/
  | below {key part : String} {v : Json} (behind : pathOf key = path ++ [part])
      (mem : part ∈ kind.parts) (refused : v.isStr = false) : Disturbs kind path (key, v)

section Steps

variable {kind : FieldKind} {path : List String} {key : String} {value : Json}
  {m m' : Dict String Json}

theorem Inserts.hasShape_of_accepted (h : Inserts value path m m') (distinct : value.DistinctKeys)
    (accepted : kind.accepts value = true) : HasShape kind path m' :=
  ⟨_, h.at_path, FieldKind.accepts_merged _ distinct accepted⟩

/-- A write above a field that does not get in its way leaves it with a value that it takes. -/
theorem Inserts.hasShape_of_above (h : Inserts value (pathOf key) m m')
    (distinct : value.DistinctKeys) (above : pathOf key <+: path) (ne : pathOf key ≠ path)
    (calm : ¬ Disturbs kind path (key, value)) (hs : HasShape kind path m) :
    HasShape kind path m' := by
  obtain ⟨_ | ⟨next, rest⟩, rfl⟩ := above
  · exact absurd (List.append_nil _).symm ne
  · obtain ⟨v, there, accepted⟩ := hs
    obtain ⟨incoming, rfl, keeps⟩ := h.at_behind distinct there
    cases found : Dict.get? incoming next with
    | none => exact ⟨v, keeps found, accepted⟩
    | some u =>
      by_contra lost
      refine calm (.above rfl found fun w hw => ?_)
      by_contra taken
      exact lost ⟨w, (h.at_member distinct found).trans hw, by simpa using taken⟩

/-- A write below a field that does not get in its way leaves it with a value that it takes. -/
theorem Inserts.hasShape_of_below (h : Inserts value (pathOf key) m m')
    (below : path <+: pathOf key) (ne : pathOf key ≠ path)
    (calm : ¬ Disturbs kind path (key, value)) (hs : HasShape kind path m) :
    HasShape kind path m' := by
  obtain ⟨rest, hp⟩ := below
  have hrest : rest ≠ [] := fun he => ne (by rw [← hp, he, List.append_nil])
  obtain ⟨v, there, accepted⟩ := hs
  rw [← hp] at h
  obtain ⟨inner, inner', rfl, hi, after⟩ := h.at_front hrest there
  obtain ⟨ne, -⟩ := FieldKind.accepts_obj_iff.mp accepted
  refine ⟨_, after, FieldKind.accepts_obj_iff.mpr ⟨ne, fun part mem => ?_⟩⟩
  obtain ⟨s, hs⟩ := FieldKind.text_of_accepts_obj accepted mem
  by_cases first : rest = [part]
  · subst first
    cases value with
    | str t => exact ⟨t, by simpa [hs, merged] using hi.at_path⟩
    | _ => exact absurd (.below hp.symm mem rfl) calm
  · have apart : (Json.obj inner').at? [part] = (Json.obj inner).at? [part] := by
      refine hi.at_apart (fun hb => ?_) fun ha => ?_
      · rcases List.prefix_cons_iff.mp hb with he | ⟨more, he, hm⟩
        · exact hrest he
        · exact first (by rw [he, List.prefix_nil.mp hm])
      · obtain ⟨more, rfl⟩ := ha
        cases more with
        | nil => exact first rfl
        | cons k ks =>
          have there : (Json.obj inner).at? [part] = some (.str s) := by simpa using hs
          obtain ⟨_, _, hv, -⟩ := hi.at_front (List.cons_ne_nil k ks) there
          cases hv
    exact ⟨s, by simpa [hs] using apart⟩

/-- One write: a field keeps a value that it takes, unless the write gets in its way. -/
theorem Inserts.hasShape (h : Inserts value (pathOf key) m m') (distinct : value.DistinctKeys)
    (own : pathOf key = path → kind.accepts value = true)
    (calm : ¬ Disturbs kind path (key, value)) (hs : HasShape kind path m) :
    HasShape kind path m' := by
  by_cases same : pathOf key = path
  · exact (same ▸ h).hasShape_of_accepted distinct (own same)
  · by_cases above : pathOf key <+: path
    · exact h.hasShape_of_above distinct above same calm hs
    · by_cases below : path <+: pathOf key
      · exact h.hasShape_of_below below same calm hs
      · obtain ⟨v, there, accepted⟩ := hs
        exact ⟨v, (h.at_apart above below).trans there, accepted⟩

/-- A write that gets in the way of a field leaves it without a value that it takes. -/
theorem Inserts.not_hasShape (h : Inserts value (pathOf key) m m') (distinct : value.DistinctKeys)
    (disturbs : Disturbs kind path (key, value)) : ¬ HasShape kind path m' := by
  rintro ⟨v, there, accepted⟩
  cases disturbs with
  | above front found refused =>
    subst front
    rw [h.at_member distinct found] at there
    rw [refused v there] at accepted
    cases accepted
  | @below _ part _ behind mem refused =>
    have at_part := h.at_path
    rw [behind, Json.at?_append, there, Option.bind_some] at at_part
    obtain ⟨members, rfl⟩ := Json.exists_obj_of_at? at_part
    obtain ⟨s, hs⟩ := FieldKind.text_of_accepts_obj accepted mem
    simp only [Json.at?_obj_cons, Json.at?_nil, hs, Option.bind_some, Option.some.injEq] at at_part
    cases value with
    | obj incoming =>
      obtain ⟨_, hm, -⟩ := exists_merged_obj ((Json.obj m).at? (path ++ [part])) distinct
      rw [hm] at at_part
      cases at_part
    | str t => cases refused
    | _ =>
      rw [merged_of_not_obj fun _ => Json.noConfusion] at at_part
      cases at_part

end Steps

section Outcome

variable {kind : FieldKind} {path : List String} {m m' : Dict String Json}

theorem Written.hasShape {es : List (String × Json)} (h : Written es m m')
    (distinct : ∀ e ∈ es, e.2.DistinctKeys)
    (own : ∀ e ∈ es, pathOf e.1 = path → kind.accepts e.2 = true)
    (calm : ∀ e ∈ es, ¬ Disturbs kind path e) (hs : HasShape kind path m) :
    HasShape kind path m' := by
  induction h with
  | nil => exact hs
  | cons i _ ih =>
    rw [List.forall_mem_cons] at distinct own calm
    exact ih distinct.2 own.2 calm.2 (i.hasShape distinct.1 own.1 calm.1 hs)

theorem Written.hasShape_iff_of_apart {es : List (String × Json)} (h : Written es m m')
    (apart : ∀ e ∈ es, ¬ pathOf e.1 <+: path ∧ ¬ path <+: pathOf e.1) :
    HasShape kind path m' ↔ HasShape kind path m := by
  unfold HasShape
  rw [h.at_apart apart]

/-- Of a design in a registry, what a field is resolved to has the shape of its kind, unless one of
the writes after its own one gets in its way; and one that does, with no later write above the field
or behind it, leaves it without that shape. -/
theorem hasShape_or_disturbed_of_resolve {designs : List Design} {r : Registry} {name : String}
    {d : Design} {c : Component} {f : Field} (accepted : Registry.ofDesigns designs = .ok r)
    (registered : r.get? name = some d) (mem : f ∈ d.fields)
    (defaults : ∀ g ∈ d.fields, g.default.DistinctKeys)
    (values : ∀ e ∈ c.props, e.2.DistinctKeys) (resolved : resolve d c = .ok m) :
    (∃ before own after, writes d c = before ++ (f.key, own) :: after ∧
      f.kind.accepts own = true ∧
      (HasShape f.kind (pathOf f.key) m ∨ ∃ e ∈ after, Disturbs f.kind (pathOf f.key) e)) ∧
    ∀ before e after, writes d c = before ++ e :: after → Disturbs f.kind (pathOf f.key) e →
      (∀ e' ∈ after, ¬ pathOf e'.1 <+: pathOf f.key ∧ ¬ pathOf f.key <+: pathOf e'.1) →
      ¬ HasShape f.kind (pathOf f.key) m := by
  have distinct : ∀ e ∈ writes d c, e.2.DistinctKeys := fun e he => by
    rcases List.mem_append.mp he with he | he
    · obtain ⟨g, hg, rfl⟩ := List.mem_map.mp he
      exact defaults g (List.mem_filter.mp hg).1
    · exact values e (List.mem_filter.mp he).1
  have written := written_of_resolve resolved
  constructor
  · obtain ⟨⟨own, hw⟩, taken⟩ :=
      exists_own_write (Registry.wellFormed_of_ofDesigns accepted registered) resolved mem
    obtain ⟨before, after, hsplit⟩ := List.append_of_mem hw
    refine ⟨before, own, after, hsplit, taken own hw, ?_⟩
    rw [hsplit] at written distinct taken
    obtain ⟨_, -, _ | ⟨first, more⟩⟩ := written.of_append
    have hs := first.hasShape_of_accepted (distinct (f.key, own) (by simp)) (taken own (by simp))
    by_cases calm : ∃ e ∈ after, Disturbs f.kind (pathOf f.key) e
    · exact Or.inr calm
    · refine Or.inl (more.hasShape (fun e he => distinct e (by simp [he])) (fun e he same => ?_)
        (fun e he hd => calm ⟨e, he, hd⟩) hs)
      obtain ⟨key, value⟩ := e
      cases pathOf_injective same
      exact taken value (by simp [he])
  · intro before e after hsplit disturbs apart
    rw [hsplit] at written distinct
    obtain ⟨_, -, _ | ⟨first, more⟩⟩ := written.of_append
    rw [more.hasShape_iff_of_apart apart]
    exact first.not_hasShape (distinct _ (List.mem_append_right before List.mem_cons_self)) disturbs

end Outcome

end Props

theorem Component.keys_of_shape {budget : Nat} {t : Json.Tree} {c : Component}
    (h : Component.shape budget t = some c) :
    Dict.SortedKeys c.props ∧ ∀ e ∈ c.props, e.2.DistinctKeys := by
  cases budget with
  | zero => cases h
  | succ budget =>
    obtain ⟨fields, -, h⟩ := Option.bind_eq_some_iff.mp h
    dsimp only at h
    split at h
    · next type props =>
      simp only [Option.bind_eq_bind, Option.bind_eq_some_iff, Option.pure_def,
        Option.some.injEq] at h
      obtain ⟨_, -, entries, hprops, rfl⟩ := h
      refine ⟨Dict.sortedKeys_ofList entries, fun e he => ?_⟩
      cases props with
      | none =>
        cases hprops
        exact absurd he List.not_mem_nil
      | some t =>
        obtain ⟨u, hu⟩ := Json.Shape.exists_of_mem_members hprops e (Dict.mem_of_mem_ofList he)
        exact Json.distinctKeys_of_ofTree? hu
    · cases h

theorem RegistryFile.distinctKeys_toJson (v : Toml.Value) :
    (RegistryFile.toJson v).DistinctKeys := by
  cases v with
  | table entries => exact (Dict.sortedKeys_ofList (RegistryFile.toMembers entries)).nodup
  | datetime text => exact List.pairwise_singleton _ _
  | float bits =>
    rw [RegistryFile.toJson, RegistryFile.floatJson]
    split
    · trivial
    · split <;> trivial
  | _ => trivial

def cardDesign : Design := ⟨"Card", [⟨"images.main", .image, .str ""⟩]⟩

def numberedCard : Component := ⟨"Card", [("images", .obj [("main", .int 5)])]⟩

theorem numberedCard_unshaped :
    ¬ Props.HasShape .image (Props.pathOf "images.main")
      [("images", .obj [("main", .int 5)])] := by
  have accepted : Registry.ofDesigns [cardDesign] = .ok ⟨[("Card", cardDesign)]⟩ := by
    decide
  have registered : Registry.get? ⟨[("Card", cardDesign)]⟩ "Card" = some cardDesign := by
    decide
  have resolved : Props.resolve cardDesign numberedCard =
      .ok [("images", .obj [("main", .int 5)])] := by
    decide +kernel
  have defaults : ∀ g ∈ cardDesign.fields, g.default.DistinctKeys := fun g hg => by
    cases List.mem_singleton.mp hg
    exact RegistryFile.distinctKeys_toJson (.string "")
  have parsed : Json.Shape.parse? Component.shape
      "\x7b\"type\":\"Card\",\"props\":\x7b\"images\":\x7b\"main\":5\x7d\x7d\x7d" =
      some numberedCard := by
    decide +kernel
  obtain ⟨t, -, read⟩ := Option.bind_eq_some_iff.mp parsed
  have values := (Component.keys_of_shape read).2
  obtain ⟨-, lost⟩ := Props.hasShape_or_disturbed_of_resolve (f := ⟨"images.main", .image, .str ""⟩)
    accepted registered List.mem_cons_self defaults values resolved
  have front : Props.pathOf "images.main" = Props.pathOf "images" ++ ["main"] := by decide
  refine lost [("images.main", .str "")] ("images", .obj [("main", .int 5)]) [] (by decide)
    (.above front rfl fun v hv => ?_) fun e he => absurd he List.not_mem_nil
  cases hv
  rfl

def badgeDesign : Design :=
  ⟨"Badge", [⟨"logo", .image, .obj [("src", .str "/logo.png")]⟩, ⟨"logo.src", .items, .arr []⟩]⟩

/-- What is resolved need not have the shapes of the fields, be it through a key that no field has
or through the defaults of a design alone. -/
theorem shapes_lost :
    (Registry.ofDesigns [cardDesign] = .ok ⟨[("Card", cardDesign)]⟩ ∧
      Props.resolve cardDesign numberedCard = .ok [("images", .obj [("main", .int 5)])] ∧
      ∀ v, (Json.obj [("images", .obj [("main", .int 5)])]).at? (Props.pathOf "images.main") = some v →
        FieldKind.image.accepts v = false) ∧
    (Registry.ofDesigns [badgeDesign] = .ok ⟨[("Badge", badgeDesign)]⟩ ∧
      Props.resolve badgeDesign ⟨"Badge", []⟩ = .ok [("logo", .obj [("src", .arr [])])] ∧
      ∀ v, (Json.obj [("logo", .obj [("src", .arr [])])]).at? (Props.pathOf "logo") = some v →
        FieldKind.image.accepts v = false) := by
  have main : (Json.obj [("images", .obj [("main", .int 5)])]).at? (Props.pathOf "images.main") =
      some (.int 5) := by
    decide
  have logo : (Json.obj [("logo", .obj [("src", .arr [])])]).at? (Props.pathOf "logo") =
      some (.obj [("src", .arr [])]) := by
    decide
  refine ⟨⟨by decide, by decide +kernel, fun v hv => ?_⟩,
    ⟨by decide, by rfl, fun v hv => ?_⟩⟩
  · cases main.symm.trans hv
    rfl
  · cases logo.symm.trans hv
    rfl

end SitePublish
