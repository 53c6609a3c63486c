import SitePublish.Proofs.Json.Rereading

/-!
# Texts of values

What a text is read as when no nesting is too deep, and the values that are read back from their own
texts: integers that fit a word, doubles that come back from their digits, and objects with ascending
keys, to any depth. Every value that was read is one of them.
-/

set_option autoImplicit false

namespace SitePublish.Json

/-- A text is read as a value by everyone who accepts its nesting. -/
def Reads (text : String) (v : Json) : Prop :=
  ∃ t, Tree.parse? text = some t ∧ ∃ depth, ∀ budget ≥ depth, ofTree? budget t = some v

theorem Reads.unique {text : String} {v w : Json} (hv : Reads text v) (hw : Reads text w) : v = w := by
  obtain ⟨t, parsed, depth, read⟩ := hv
  obtain ⟨u, parsed', depth', read'⟩ := hw
  cases parsed.symm.trans parsed'
  exact Option.some.inj ((read _ (Nat.le_max_left depth depth')).symm.trans
    (read' _ (Nat.le_max_right depth depth')))

/-- A value whose numbers can be written and whose objects have ascending keys. -/
inductive Legible : Json → Prop
  | null : Legible .null
  | bool (b : Bool) : Legible (.bool b)
  | int {n : Int} (fits : Literal.Fits n) : Legible (.int n)
  | float {bits : UInt64} (exact : (Json.float bits).Exact) : Legible (.float bits)
  | str (s : String) : Legible (.str s)
  | arr {items : List Json} (inside : ∀ v ∈ items, Legible v) : Legible (.arr items)
  | obj {members : Dict String Json} (keys : Dict.SortedKeys members)
      (inside : ∀ e ∈ members, Legible e.2) : Legible (.obj members)

attribute [simp] Legible.null Legible.bool Legible.str

@[simp]
theorem legible_arr_iff {items : List Json} : (arr items).Legible ↔ ∀ v ∈ items, v.Legible :=
  ⟨fun | .arr inside => inside, .arr⟩

@[simp]
theorem legible_int_iff {n : Int} : (int n).Legible ↔ Literal.Fits n :=
  ⟨fun | .int fits => fits, .int⟩

theorem legible_obj_iff (members : Dict String Json) : (obj members).Legible ↔
    Dict.SortedKeys members ∧ ∀ key v, Dict.get? members key = some v → v.Legible := by
  constructor
  · rintro (_ | _ | _ | _ | _ | _ | ⟨keys, inside⟩)
    exact ⟨keys, fun key v found => inside (key, v) (Dict.mem_of_get? found)⟩
  · rintro ⟨keys, inside⟩
    exact .obj keys fun e he => inside e.1 e.2 (Dict.get?_of_mem keys.nodup he)

theorem legible_ofMembers {entries : List (String × Json)} (h : ∀ e ∈ entries, e.2.Legible) :
    (ofMembers entries).Legible :=
  .obj (Dict.sortedKeys_ofList entries) fun e he => h e (Dict.mem_of_mem_ofList he)

@[simp]
theorem legible_ofStrings (texts : List String) : (ofStrings texts).Legible := by
  simp [ofStrings]

theorem exists_depth {α : Type} {P : Nat → α → Prop} {as : List α}
    (h : ∀ a ∈ as, ∃ depth, ∀ budget ≥ depth, P budget a) :
    ∃ depth, ∀ budget ≥ depth, ∀ a ∈ as, P budget a := by
  induction as with
  | nil => exact ⟨0, fun _ _ => nofun⟩
  | cons a as ih =>
    obtain ⟨⟨first, head⟩, more⟩ := List.forall_mem_cons.mp h
    obtain ⟨rest, tail⟩ := ih more
    refine ⟨max first rest, fun budget deep => List.forall_mem_cons.mpr ⟨head _ ?_, tail _ ?_⟩⟩ <;>
      omega

/-- Induction on the value; brackets need room for themselves and for the deepest value inside. -/
theorem Legible.exists_ofTree?_toTree {v : Json} (h : v.Legible) :
    ∃ depth, ∀ budget ≥ depth, ofTree? budget v.toTree = some v := by
  induction h with
  | null | bool | str => exact ⟨0, fun _ _ => rfl⟩
  | int fits => exact ⟨0, fun _ _ => Literal.toJson?_ofInt_of_fits fits⟩
  | float exact => exact ⟨0, fun budget _ => ofTree?_float exact budget⟩
  | arr _ ih =>
    obtain ⟨depth, inside⟩ := exists_depth ih
    refine ⟨depth + 1, fun budget deep => ?_⟩
    rw [toTree, ofTree?, if_neg (by omega), ofTrees?_toTrees (inside _ (by omega))]
    rfl
  | obj keys _ ih =>
    obtain ⟨depth, inside⟩ := exists_depth
      (P := fun budget (e : String × Json) => ofTree? budget e.2.toTree = some e.2) ih
    refine ⟨depth + 1, fun budget deep => ?_⟩
    rw [toTree, ofTree?, if_neg (by omega), ofMembers?_toMemberTrees (inside _ (by omega)),
      Option.map_some, keys.ofList_eq]

theorem Legible.reads_pretty {v : Json} (h : v.Legible) : Reads v.pretty v := by
  have same : Tree.parse? (v.pretty ++ "") = some v.toTree := Tree.parse?_pretty v cuts_nil trivial
  rw [String.append_empty] at same
  exact ⟨_, same, h.exists_ofTree?_toTree⟩

mutual

theorem legible_of_ofTree? {budget : Nat} (t : Tree) {v : Json} (h : ofTree? budget t = some v)
    (exact : v.Exact) : v.Legible := by
  match t with
  | .null =>
    cases h
    exact .null
  | .bool b =>
    cases h
    exact .bool b
  | .number l =>
    rcases Literal.toJson?_cases h with ⟨bits, rfl⟩ | ⟨n, rfl, fits⟩
    · exact .float exact
    · exact .int fits
  | .str text =>
    obtain ⟨s, -, rfl⟩ := Option.map_eq_some_iff.mp h
    exact .str s
  | .arr items =>
    rw [ofTree?, Option.ite_none_left_eq_some, Option.map_eq_some_iff] at h
    obtain ⟨-, vs, read, rfl⟩ := h
    exact .arr (legible_of_ofTrees? items read (exact_arr_iff.mp exact))
  | .obj members =>
    rw [ofTree?, Option.ite_none_left_eq_some, Option.map_eq_some_iff] at h
    obtain ⟨-, es, read, rfl⟩ := h
    exact .obj (Dict.sortedKeys_ofList es) fun e he =>
      legible_of_ofMembers? members read e (Dict.mem_of_mem_ofList he) (exact_obj_iff.mp exact e he)

theorem legible_of_ofTrees? {budget : Nat} (items : List Tree) {vs : List Json}
    (h : ofTrees? budget items = some vs) (exact : ∀ v ∈ vs, v.Exact) : ∀ v ∈ vs, v.Legible := by
  match items with
  | [] =>
    cases h
    exact nofun
  | t :: rest =>
    rw [ofTrees?] at h
    split at h
    · next first more =>
      cases h
      rw [List.forall_mem_cons] at exact ⊢
      exact ⟨legible_of_ofTree? t first exact.1, legible_of_ofTrees? rest more exact.2⟩
    · cases h

theorem legible_of_ofMembers? {budget : Nat} (members : List (Option String × Tree))
    {es : List (String × Json)} (h : ofMembers? budget members = some es) :
    ∀ e ∈ es, e.2.Exact → e.2.Legible := by
  match members with
  | [] =>
    cases h
    exact nofun
  | (key, t) :: rest =>
    unfold ofMembers? at h
    split at h
    · next first more =>
      cases h
      rw [List.forall_mem_cons]
      exact ⟨legible_of_ofTree? t first, legible_of_ofMembers? rest more⟩
    · cases h

end

theorem legible_of_parse? {s : String} {v : Json} (h : parse? s = some v) (exact : v.Exact) :
    v.Legible := by
  obtain ⟨t, -, read⟩ := Option.bind_eq_some_iff.mp h
  exact legible_of_ofTree? t read exact

end SitePublish.Json
