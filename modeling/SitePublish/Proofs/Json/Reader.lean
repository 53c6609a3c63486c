import SitePublish.Json.Reader
import SitePublish.Proofs.Dict
import SitePublish.Proofs.Json.Number

/-!
# What is read

Of repeated members of an object the last one counts, so the objects that are read have each key
once. What a list or an object is read into comes from its items, each read by the shape. A field of a
record comes from the only member with its name or, in an array, from the item at its place.
-/

set_option autoImplicit false

namespace SitePublish.Json

def DistinctKeys : Json → Prop
  | obj members => (Dict.keys members).Nodup
  | _ => True

theorem Literal.toJson?_ne_obj {l : Literal} {members : Dict String Json} :
    l.toJson? ≠ some (.obj members) := by
  intro h
  rcases Literal.toJson?_cases h with ⟨bits, hv⟩ | ⟨n, hv, -⟩ <;> cases hv

theorem distinctKeys_of_ofTree? {budget : Nat} {t : Tree} {v : Json}
    (h : ofTree? budget t = some v) : v.DistinctKeys := by
  cases v with
  | obj members =>
    cases t with
    | obj ms =>
      simp only [ofTree?, Option.ite_none_left_eq_some, Option.map_eq_some_iff] at h
      obtain ⟨-, entries, -, he⟩ := h
      cases he
      exact (Dict.sortedKeys_ofList entries).nodup
    | number l => exact absurd h Literal.toJson?_ne_obj
    | _ => simp [ofTree?] at h
  | _ => trivial

namespace Shape

variable {α β : Type}

theorem exists_of_mem_mapM {f : α → Option β} {as : List α} {bs : List β}
    (h : as.mapM f = some bs) : ∀ b ∈ bs, ∃ a ∈ as, f a = some b := by
  induction as generalizing bs with
  | nil =>
    cases h
    exact fun b hb => absurd hb List.not_mem_nil
  | cons a as ih =>
    simp only [List.mapM_cons, Option.bind_eq_bind, Option.bind_eq_some_iff, Option.pure_def,
      Option.some.injEq] at h
    obtain ⟨b, hb, rest, hrest, rfl⟩ := h
    intro c hc
    rcases List.mem_cons.mp hc with rfl | hc
    · exact ⟨a, List.mem_cons_self, hb⟩
    · obtain ⟨a', ha', hf⟩ := ih hrest c hc
      exact ⟨a', List.mem_cons_of_mem a ha', hf⟩

theorem exists_of_mem_members {shape : Shape α} {budget : Nat} {t : Tree}
    {entries : List (String × α)} (h : members shape budget t = some entries) :
    ∀ e ∈ entries, ∃ u, shape (budget - 1) u = some e.2 := by
  intro e he
  cases t with
  | obj ms =>
    simp only [members, Shape.entries, Option.ite_none_left_eq_some] at h
    obtain ⟨m, -, hm⟩ := exists_of_mem_mapM h.2 e he
    split at hm
    · next hs =>
      cases hm
      exact ⟨m.2, hs⟩
    · cases hm
  | _ => cases h

theorem exists_of_record {fields : List Names} {build : Nat → List (Option Tree) → Option α}
    {budget : Nat} {t : Tree} {a : α} (h : record fields build budget t = some a) :
    ∃ b trees, budget = b + 1 ∧ fieldTrees fields t = some trees ∧ build b trees = some a := by
  cases budget with
  | zero => cases h
  | succ b =>
    obtain ⟨trees, found, built⟩ := Option.bind_eq_some_iff.mp h
    exact ⟨b, trees, rfl, found, built⟩

theorem getElem?_of_mapM {f : α → Option β} {as : List α} {bs : List β}
    (h : as.mapM f = some bs) (i : Nat) : bs[i]? = as[i]?.bind f := by
  induction as generalizing bs i with
  | nil =>
    cases h
    rfl
  | cons a as ih =>
    simp only [List.mapM_cons, Option.bind_eq_bind, Option.bind_eq_some_iff, Option.pure_def,
      Option.some.injEq] at h
    obtain ⟨b, hb, rest, hrest, rfl⟩ := h
    cases i with
    | zero => simp [hb]
    | succ i => simpa using ih hrest i

theorem eq_map_of_decodedKeys {members : List (Option String × Tree)}
    {decoded : List (String × Tree)} (h : decodedKeys members = some decoded) :
    members = decoded.map fun m => (some m.1, m.2) := by
  induction members generalizing decoded with
  | nil =>
    cases h
    rfl
  | cons m members ih =>
    simp only [decodedKeys, List.mapM_cons, Option.bind_eq_bind, Option.bind_eq_some_iff,
      Option.pure_def, Option.some.injEq, Option.map_eq_some_iff] at h
    obtain ⟨_, ⟨key, named, rfl⟩, rest, hrest, rfl⟩ := h
    rw [List.map_cons, ← ih hrest, ← named]

/-- A record has this in the field with a name, or at a place when it is an array. -/
inductive HasField (name : String) (place : Nat) : Tree → Tree → Prop
  | member {members : List (Option String × Tree)} {u : Tree}
      (only : members.filter (fun m => m.1 = some name) = [(some name, u)]) :
      HasField name place (.obj members) u
  | item {items : List Tree} {u : Tree} (there : items[place]? = some u) :
      HasField name place (.arr items) u

theorem fieldOf_eq_some_iff {name : String} {decoded : List (String × Tree)} {u : Tree} :
    fieldOf [name] decoded = some (some u) ↔
      (decoded.map fun m => (some m.1, m.2)).filter (fun m => m.1 = some name) =
        [(some name, u)] := by
  have named : ∀ m ∈ decoded.filter (fun m => [name].contains m.1), m.1 = name := by simp
  have same : (decoded.map fun m => (some m.1, m.2)).filter (fun m => m.1 = some name) =
      (decoded.filter fun m => [name].contains m.1).map fun m => (some m.1, m.2) := by
    rw [List.filter_map]
    exact congrArg _ (List.filter_congr fun m _ => by simp)
  rw [same, fieldOf]
  generalize decoded.filter (fun m => [name].contains m.1) = those at named ⊢
  rcases those with - | ⟨m, - | ⟨m', more⟩⟩
  · simp
  · simp [named m List.mem_cons_self]
  · simp

theorem hasField_iff_of_fieldTrees {fields : List Names} {t u : Tree} {trees : List (Option Tree)}
    {name : String} {place : Nat} {found : Option Tree} (h : fieldTrees fields t = some trees)
    (named : fields[place]? = some [name]) (there : trees[place]? = some found) :
    HasField name place t u ↔ found = some u := by
  cases t with
  | obj members =>
    obtain ⟨decoded, keys, h⟩ := Option.bind_eq_some_iff.mp h
    have read : some found = fieldOf [name] decoded := by
      rw [← there, getElem?_of_mapM h, named, Option.bind_some]
    have only : fieldOf [name] decoded = some (some u) ↔ _ := fieldOf_eq_some_iff
    rw [← read, Option.some_inj, ← eq_map_of_decodedKeys keys] at only
    rw [only]
    exact ⟨fun | .member only => only, .member⟩
  | arr items =>
    obtain ⟨-, same⟩ := Option.ite_none_right_eq_some.mp h
    cases same
    have item : HasField name place (.arr items) u ↔ items[place]? = some u :=
      ⟨fun | .item there => there, .item⟩
    rw [item]
    by_cases inside : place < items.length
    · rw [List.getElem?_append_left (by simpa using inside), List.getElem?_map,
        Option.map_eq_some_iff] at there
      obtain ⟨v, there, rfl⟩ := there
      rw [there]
    · rw [List.getElem?_append_right (by simpa using inside), List.getElem?_replicate,
        Option.ite_none_right_eq_some] at there
      obtain ⟨-, missing⟩ := there
      cases missing
      simp [List.getElem?_eq_none (Nat.le_of_not_lt inside)]
  | _ => cases h

end Shape

end SitePublish.Json
