import SitePublish.Component.Props
import SitePublish.Proofs.Json.Reader

/-!
# Inserting at a path

How an insertion at a dotted key can go, as a relation over the objects on the way, and what it does
to the values that other paths lead to: at its own path it leaves the value, merged into an object
that was there; a path that is neither on the way nor behind keeps its value; and an object above or
below changes in the one member that the paths share.
-/

set_option autoImplicit false

namespace SitePublish

namespace Json

def at? (v : Json) : List String → Option Json
  | [] => some v
  | key :: rest => (v.member? key).bind fun w => w.at? rest

@[simp] theorem at?_nil (v : Json) : v.at? [] = some v := rfl

@[simp] theorem at?_obj_cons (members : Dict String Json) (key : String) (rest : List String) :
    (obj members).at? (key :: rest) = (members.get? key).bind fun w => w.at? rest := rfl

theorem at?_append (v : Json) (path rest : List String) :
    v.at? (path ++ rest) = (v.at? path).bind fun w => w.at? rest := by
  induction path generalizing v with
  | nil => rfl
  | cons key path ih => simp only [List.cons_append, at?, ih, Option.bind_assoc]

@[simp] theorem at?_obj_nil {path : List String} (ne : path ≠ []) : (obj []).at? path = none := by
  cases path with
  | nil => exact absurd rfl ne
  | cons key rest => rfl

theorem exists_obj_of_at? {v w : Json} {key : String} {rest : List String}
    (h : v.at? (key :: rest) = some w) : ∃ members, v = obj members := by
  cases v with
  | obj members => exact ⟨members, rfl⟩
  | _ => cases h

/-- The objects that paths lead to have their keys in ascending order, each once. -/
def Ordered (v : Json) : Prop :=
  ∀ path members, v.at? path = some (obj members) → Dict.SortedKeys members

theorem Ordered.of_at? {v w : Json} (h : v.Ordered) {path : List String}
    (there : v.at? path = some w) : w.Ordered := fun rest members found =>
  h (path ++ rest) members (by rw [at?_append, there]; exact found)

theorem Ordered.keys {members : Dict String Json} (h : (obj members).Ordered) :
    Dict.SortedKeys members :=
  h [] members rfl

theorem ordered_of_not_obj {v : Json} (scalar : ∀ members, v ≠ obj members) : v.Ordered := by
  intro path members found
  cases path with
  | nil => exact absurd (Option.some.inj found) (scalar members)
  | cons key rest =>
    obtain ⟨members, rfl⟩ := exists_obj_of_at? found
    exact absurd rfl (scalar members)

theorem ordered_obj_iff {members : Dict String Json} : (obj members).Ordered ↔
    Dict.SortedKeys members ∧ ∀ key v, Dict.get? members key = some v → v.Ordered := by
  refine ⟨fun h => ⟨h.keys, fun key v found => ?_⟩, fun ⟨keys, inside⟩ path ms found => ?_⟩
  · have inside : (obj members).at? [key] = some v := by simpa using found
    exact h.of_at? inside
  · cases path with
    | nil =>
      cases found
      exact keys
    | cons key rest =>
      obtain ⟨v, hv, hrest⟩ := Option.bind_eq_some_iff.mp found
      exact inside key v hv rest ms hrest

theorem ordered_of_members {members : Dict String Json} (keys : Dict.SortedKeys members)
    (inside : ∀ e ∈ members, e.2.Ordered) : (obj members).Ordered :=
  ordered_obj_iff.mpr ⟨keys, fun _ _ found => inside _ (Dict.mem_of_get? found)⟩

end Json

namespace Props

/-- The value at the end of an insertion: an object takes in the members of an object. -/
def merged : Option Json → Json → Json
  | some (.obj existing), .obj incoming => .obj (Dict.insertAll existing incoming)
  | _, value => value

@[simp] theorem merged_none (value : Json) : merged none value = value := rfl

theorem merged_of_present_scalar {present : Option Json} {value : Json}
    (scalar : ∀ existing, present ≠ some (.obj existing)) : merged present value = value := by
  unfold merged
  split
  · exact absurd rfl (scalar _)
  · rfl

theorem merged_of_not_obj {present : Option Json} {value : Json}
    (scalar : ∀ incoming, value ≠ .obj incoming) : merged present value = value := by
  unfold merged
  split
  · exact absurd rfl (scalar _)
  · rfl

theorem exists_merged_obj (present : Option Json) {incoming : Dict String Json}
    (distinct : (Dict.keys incoming).Nodup) :
    ∃ members, merged present (.obj incoming) = .obj members ∧
      ∀ {key u}, Dict.get? incoming key = some u → Dict.get? members key = some u := by
  match present with
  | some (.obj existing) =>
    refine ⟨_, rfl, fun found => ?_⟩
    rw [Dict.get?_insertAll existing distinct, found]
    rfl
  | none | some .null | some (.bool _) | some (.int _) | some (.float _) | some (.str _)
  | some (.arr _) => exact ⟨incoming, rfl, id⟩

theorem merged_of_subset {present : Option Json} {value : Json} (ordered : value.Ordered)
    (old : ∀ v, present = some v → v.Ordered)
    (subset : ∀ existing, present = some (.obj existing) →
      ∃ incoming, value = .obj incoming ∧ ∀ k ∈ Dict.keys existing, k ∈ Dict.keys incoming) :
    merged present value = value := by
  unfold merged
  split
  · next existing incoming =>
    obtain ⟨_, he, sub⟩ := subset existing rfl
    cases he
    rw [Dict.insertAll_of_subset (old _ rfl).keys ordered.keys sub]
  · rfl

/-- A property that objects have through the order of their keys and through what is in them. -/
def Hereditary (P : Json → Prop) : Prop :=
  ∀ members, P (.obj members) ↔
    Dict.SortedKeys members ∧ ∀ key v, Dict.get? members key = some v → P v

theorem hereditary_ordered : Hereditary Json.Ordered := fun _ => Json.ordered_obj_iff

section Hereditary

variable {P : Json → Prop} (hp : Hereditary P)
include hp

theorem Hereditary.merged {present : Option Json} {value : Json} (incoming : P value)
    (old : ∀ v, present = some v → P v) : P (merged present value) := by
  unfold Props.merged
  split
  · next existing incoming' =>
    obtain ⟨hkeys, hinside⟩ := (hp _).mp (old _ rfl)
    obtain ⟨ikeys, iinside⟩ := (hp _).mp incoming
    refine (hp _).mpr ⟨Dict.sortedKeys_insertAll hkeys incoming', fun k v found => ?_⟩
    rw [Dict.get?_insertAll existing ikeys.nodup] at found
    rcases Option.or_eq_some_iff.mp found with new | ⟨-, kept⟩
    · exact iinside k v new
    · exact hinside k v kept
  · exact incoming

theorem Hereditary.insert {target : Dict String Json} (old : P (.obj target)) (key : String)
    {v : Json} (hv : P v) : P (.obj (target.insert key v)) := by
  obtain ⟨keys, inside⟩ := (hp _).mp old
  refine (hp _).mpr ⟨keys.insert key v, fun k w found => ?_⟩
  rw [Dict.get?_insert] at found
  split at found
  · cases found
    exact hv
  · exact inside k w found

theorem Hereditary.empty : P (.obj []) :=
  (hp _).mpr ⟨Dict.sortedKeys_nil, fun _ _ found => nomatch found⟩

end Hereditary

inductive Inserts (value : Json) : List String → Dict String Json → Dict String Json → Prop
  | leaf {key : String} {target : Dict String Json}
      (fits : ∀ existing, target.get? key = some (.obj existing) → ∃ incoming, value = .obj incoming) :
      Inserts value [key] target (target.insert key (merged (target.get? key) value))
  | within {key : String} {rest : List String} {target inner inner' : Dict String Json}
      (found : target.get? key = some (.obj inner)) (h : Inserts value rest inner inner') :
      Inserts value (key :: rest) target (target.insert key (.obj inner'))
  | fresh {key : String} {rest : List String} {target inner' : Dict String Json}
      (missing : target.get? key = none) (h : Inserts value rest [] inner') :
      Inserts value (key :: rest) target (target.insert key (.obj inner'))

theorem insertAt_leaf {key : String} {value : Json} {walked leaf : String}
    {target after : Dict String Json}
    (h : insertAt key value walked [leaf] target = (after, none)) :
    Inserts value [leaf] target after := by
  simp only [insertAt] at h
  split at h
  · next existing incoming found =>
    cases h
    have hm : merged (target.get? leaf) (.obj incoming) =
        .obj (Dict.insertAll existing incoming) := by rw [found, merged]
    exact hm ▸ .leaf fun _ _ => ⟨incoming, rfl⟩
  · cases h
  · next value _ _ scalar _ =>
    cases h
    have hm : merged (target.get? leaf) value = value := merged_of_present_scalar scalar
    have hi : Inserts value [leaf] target (target.insert leaf (merged (target.get? leaf) value)) :=
      .leaf fun existing found => absurd found (scalar existing)
    rwa [hm] at hi

theorem insertAt_inserts {key : String} {value : Json} {walked : String} {path : List String}
    {target after : Dict String Json} (ne : path ≠ [])
    (h : insertAt key value walked path target = (after, none)) :
    Inserts value path target after := by
  induction path generalizing walked target after with
  | nil => exact absurd rfl ne
  | cons segment rest ih =>
    cases rest with
    | nil => exact insertAt_leaf h
    | cons next rest =>
      have hne : next :: rest ≠ [] := List.cons_ne_nil next rest
      simp only [insertAt] at h
      split at h
      · next inner found =>
        cases h' : insertAt key value (dotted walked segment) (next :: rest) inner with
        | mk inner' e =>
          rw [h'] at h
          cases h
          exact .within found (ih hne h')
      · next missing =>
        cases h' : insertAt key value (dotted walked segment) (next :: rest) [] with
        | mk inner' e =>
          rw [h'] at h
          cases h
          exact .fresh missing (ih hne h')
      · cases h

section Effects

variable {value : Json} {path rest : List String} {target after : Dict String Json}

theorem Inserts.ne_nil (h : Inserts value path target after) : path ≠ [] := by
  cases h <;> exact List.cons_ne_nil _ _

theorem Inserts.at_path (h : Inserts value path target after) :
    (Json.obj after).at? path = some (merged ((Json.obj target).at? path) value) := by
  induction h with
  | leaf fits => simp [Dict.get?_insert]
  | within found h ih => simp [Dict.get?_insert, found, ih]
  | fresh missing h ih => simp [Dict.get?_insert, missing, ih, h.ne_nil]

theorem Inserts.obj_of_obj (h : Inserts value path target after) {existing : Dict String Json}
    (there : (Json.obj target).at? path = some (.obj existing)) :
    ∃ incoming, value = .obj incoming := by
  induction h with
  | leaf fits => exact fits existing (by simpa using there)
  | within found h ih => exact ih (by simpa [found] using there)
  | fresh missing h ih => simp [missing] at there

theorem Inserts.at_apart (h : Inserts value path target after) {other : List String}
    (behind : ¬ path <+: other) (above : ¬ other <+: path) :
    (Json.obj after).at? other = (Json.obj target).at? other := by
  induction h generalizing other with
  | @leaf key target fits =>
    cases other with
    | nil => exact absurd List.nil_prefix above
    | cons k ks =>
      have hk : k ≠ key := by
        rintro rfl
        exact behind (List.cons_prefix_cons.mpr ⟨rfl, List.nil_prefix⟩)
      simp [Dict.get?_insert, hk]
  | @within key rest target inner inner' found h ih =>
    cases other with
    | nil => exact absurd List.nil_prefix above
    | cons k ks =>
      by_cases hk : k = key
      · subst hk
        simp only [List.cons_prefix_cons, true_and] at behind above
        simp [Dict.get?_insert, found, ih behind above]
      · simp [Dict.get?_insert, hk]
  | @fresh key rest target inner' missing h ih =>
    cases other with
    | nil => exact absurd List.nil_prefix above
    | cons k ks =>
      by_cases hk : k = key
      · subst hk
        simp only [List.cons_prefix_cons, true_and] at behind above
        have ne : ks ≠ [] := by
          rintro rfl
          exact above List.nil_prefix
        simp [Dict.get?_insert, missing, ih behind above, ne]
      · simp [Dict.get?_insert, hk]

theorem Inserts.at_front (h : Inserts value (path ++ rest) target after) (ne : rest ≠ [])
    {v : Json} (there : (Json.obj target).at? path = some v) :
    ∃ inner inner', v = .obj inner ∧ Inserts value rest inner inner' ∧
      (Json.obj after).at? path = some (.obj inner') := by
  induction path generalizing target after with
  | nil =>
    cases there
    exact ⟨target, after, rfl, h, rfl⟩
  | cons key path ih =>
    rw [List.cons_append] at h
    generalize hp : path ++ rest = behind at h
    cases h with
    | leaf fits => exact absurd (List.append_eq_nil_iff.mp hp).2 ne
    | within found h =>
      subst hp
      obtain ⟨inner, inner', hv, hi, ha⟩ := ih h (by simpa [found] using there)
      exact ⟨inner, inner', hv, hi, by simpa [Dict.get?_insert] using ha⟩
    | fresh missing h => simp [missing] at there

theorem Inserts.at_member {key : String} {u : Json} {incoming : Dict String Json}
    (h : Inserts (.obj incoming) path target after) (distinct : (Dict.keys incoming).Nodup)
    (found : Dict.get? incoming key = some u) :
    (Json.obj after).at? (path ++ key :: rest) = u.at? rest := by
  obtain ⟨members, hm, hget⟩ := exists_merged_obj ((Json.obj target).at? path) distinct
  rw [Json.at?_append, h.at_path, hm, Option.bind_some, Json.at?_obj_cons, hget found,
    Option.bind_some]

/-- What is inserted above a path that leads to a value is an object, and if it has nothing on the
way to it, the path keeps its value. -/
theorem Inserts.at_behind {key : String} {v : Json} (h : Inserts value path target after)
    (distinct : value.DistinctKeys)
    (there : (Json.obj target).at? (path ++ key :: rest) = some v) :
    ∃ incoming, value = .obj incoming ∧ (Dict.get? incoming key = none →
      (Json.obj after).at? (path ++ key :: rest) = some v) := by
  rw [Json.at?_append] at there
  obtain ⟨u, hu, huv⟩ := Option.bind_eq_some_iff.mp there
  obtain ⟨existing, rfl⟩ := Json.exists_obj_of_at? huv
  obtain ⟨incoming, rfl⟩ := h.obj_of_obj hu
  refine ⟨incoming, rfl, fun missing => ?_⟩
  rw [Json.at?_append, h.at_path, hu, merged, Option.bind_some, Json.at?_obj_cons,
    Dict.get?_insertAll existing distinct, missing]
  exact huv

theorem Inserts.unchanged (h : Inserts value path target after)
    (ordered : (Json.obj target).Ordered) (there : (Json.obj target).at? path = some value) :
    after = target := by
  induction h with
  | @leaf key target fits =>
    have found : target.get? key = some value := by simpa using there
    have same : merged (some value) value = value := by
      have old := ordered.of_at? there
      refine merged_of_subset old (fun v hv => Option.some.inj hv ▸ old) fun existing he => ?_
      exact ⟨existing, Option.some.inj he, fun _ hk => hk⟩
    rw [found, same, ordered.keys.insert_of_get? found]
  | @within key rest target inner inner' found h ih =>
    have inside : (Json.obj target).at? [key] = some (.obj inner) := by simpa using found
    rw [ih (ordered.of_at? inside) (by simpa [found] using there),
      ordered.keys.insert_of_get? found]
  | fresh missing h ih => simp [missing] at there

theorem Inserts.hereditary {P : Json → Prop} (hp : Hereditary P)
    (h : Inserts value path target after) (incoming : P value) (old : P (.obj target)) :
    P (.obj after) := by
  induction h with
  | leaf fits => exact hp.insert old _ (hp.merged incoming (((hp _).mp old).2 _))
  | within found h ih => exact hp.insert old _ (ih (((hp _).mp old).2 _ _ found))
  | fresh missing h ih => exact hp.insert old _ (ih hp.empty)

theorem Inserts.ordered (h : Inserts value path target after) (incoming : value.Ordered)
    (old : (Json.obj target).Ordered) : (Json.obj after).Ordered :=
  h.hereditary hereditary_ordered incoming old

end Effects

end Props

end SitePublish
