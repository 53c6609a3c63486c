import SitePublish.Proofs.Json.Printer
import SitePublish.Proofs.Json.Reader

/-!
# Values that are read again

A value that was read is written as a tree from which the same value is read, within the nesting
that it was read with. Its numbers are integers that fit again, and doubles; whether a double comes
back from its digits is left to the arithmetic of doubles and asked for each of them.

Shapes are combined, and so is what is known of them. What was left out is written all the same, so a
shape may need room for brackets that the text it has read did not have.
-/

set_option autoImplicit false

namespace SitePublish

namespace Json

theorem Shape.parse?_pretty {α : Type} (shape : Shape α) (v : Json) :
    shape.parse? v.pretty = shape depthLimit v.toTree := by
  have same : Tree.parse? (v.pretty ++ "") = some v.toTree :=
    Tree.parse?_pretty v cuts_nil trivial
  rw [String.append_empty] at same
  rw [Shape.parse?, same, Option.bind_some]

inductive HasFloat (bits : UInt64) : Json → Prop
  | here : HasFloat bits (.float bits)
  | item {v : Json} {items : List Json} (mem : v ∈ items) (h : HasFloat bits v) :
      HasFloat bits (.arr items)
  | member {e : String × Json} {members : Dict String Json} (mem : e ∈ members)
      (h : HasFloat bits e.2) : HasFloat bits (.obj members)

/-- The doubles of a value are read as they are written. -/
def Exact (v : Json) : Prop :=
  ∀ bits, HasFloat bits v → parse? (pretty (.float bits)) = some (.float bits)

@[simp]
theorem exact_null : null.Exact := fun _ there => nomatch there

@[simp]
theorem exact_bool (b : Bool) : (bool b).Exact := fun _ there => nomatch there

@[simp]
theorem exact_int (n : Int) : (int n).Exact := fun _ there => nomatch there

@[simp]
theorem exact_str (s : String) : (str s).Exact := fun _ there => nomatch there

theorem exact_float_iff {bits : UInt64} :
    (float bits).Exact ↔ parse? (pretty (.float bits)) = some (.float bits) := by
  constructor
  · exact fun h => h bits .here
  · rintro h _ ⟨⟩
    exact h

@[simp]
theorem exact_arr_iff {items : List Json} : (arr items).Exact ↔ ∀ v ∈ items, v.Exact := by
  constructor
  · exact fun h v mem bits there => h bits (.item mem there)
  · rintro h bits (_ | ⟨mem, there⟩)
    exact h _ mem bits there

@[simp]
theorem exact_obj_iff {members : Dict String Json} :
    (obj members).Exact ↔ ∀ e ∈ members, e.2.Exact := by
  constructor
  · exact fun h e mem bits there => h bits (.member mem there)
  · rintro h bits (_ | _ | ⟨mem, there⟩)
    exact h _ mem bits there

theorem ofTree?_float {bits : UInt64} (h : (float bits).Exact) (budget : Nat) :
    ofTree? budget (toTree (.float bits)) = some (.float bits) := by
  have back := exact_float_iff.mp h
  change Shape.value.parse? (pretty (.float bits)) = _ at back
  rw [Shape.parse?_pretty, toTree] at back
  rw [toTree]
  split at back
  · exact back
  · cases back

theorem ofTrees?_toTrees {budget : Nat} {vs : List Json}
    (h : ∀ v ∈ vs, ofTree? budget v.toTree = some v) :
    ofTrees? budget (toTrees vs) = some vs := by
  induction vs with
  | nil => rfl
  | cons v vs ih =>
    rw [List.forall_mem_cons] at h
    rw [toTrees, ofTrees?, h.1, ih h.2]

theorem ofMembers?_toMemberTrees {budget : Nat} {members : List (String × Json)}
    (h : ∀ e ∈ members, ofTree? budget e.2.toTree = some e.2) :
    ofMembers? budget (toMemberTrees members) = some members := by
  induction members with
  | nil => rfl
  | cons e members ih =>
    obtain ⟨key, v⟩ := e
    obtain ⟨first, rest⟩ := List.forall_mem_cons.mp h
    dsimp only at first
    simp only [toMemberTrees, ofMembers?, first, ih rest]

mutual

theorem ofTree?_toTree {budget : Nat} (t : Tree) {v : Json} (h : ofTree? budget t = some v)
    (exact : v.Exact) : ofTree? budget v.toTree = some v := by
  match t with
  | .null | .bool _ =>
    cases h
    rfl
  | .number l =>
    rcases Literal.toJson?_cases h with ⟨bits, rfl⟩ | ⟨n, rfl, fits⟩
    · exact ofTree?_float exact budget
    · exact Literal.toJson?_ofInt_of_fits fits
  | .str text =>
    obtain ⟨s, -, rfl⟩ := Option.map_eq_some_iff.mp h
    rfl
  | .arr items =>
    rw [ofTree?, Option.ite_none_left_eq_some, Option.map_eq_some_iff] at h
    obtain ⟨deep, vs, read, rfl⟩ := h
    have again := ofTrees?_read items read (exact_arr_iff.mp exact)
    rw [toTree, ofTree?, if_neg deep, ofTrees?_toTrees again]
    rfl
  | .obj members =>
    rw [ofTree?, Option.ite_none_left_eq_some, Option.map_eq_some_iff] at h
    obtain ⟨deep, es, read, rfl⟩ := h
    have again : ∀ e ∈ Dict.ofList es, ofTree? (budget - 1) e.2.toTree = some e.2 := fun e he =>
      ofMembers?_read members read e (Dict.mem_of_mem_ofList he) (exact_obj_iff.mp exact e he)
    rw [toTree, ofTree?, if_neg deep, ofMembers?_toMemberTrees again, Option.map_some,
      (Dict.sortedKeys_ofList es).ofList_eq]

theorem ofTrees?_read {budget : Nat} (items : List Tree) {vs : List Json}
    (h : ofTrees? budget items = some vs) (exact : ∀ v ∈ vs, v.Exact) :
    ∀ v ∈ vs, ofTree? budget v.toTree = some v := by
  match items with
  | [] =>
    cases h
    exact fun v hv => absurd hv List.not_mem_nil
  | t :: rest =>
    rw [ofTrees?] at h
    split at h
    · next first more =>
      cases h
      rw [List.forall_mem_cons] at exact ⊢
      exact ⟨ofTree?_toTree t first exact.1, ofTrees?_read rest more exact.2⟩
    · cases h

theorem ofMembers?_read {budget : Nat} (members : List (Option String × Tree))
    {es : List (String × Json)} (h : ofMembers? budget members = some es) :
    ∀ e ∈ es, e.2.Exact → ofTree? budget e.2.toTree = some e.2 := by
  match members with
  | [] =>
    cases h
    exact fun e he => absurd he List.not_mem_nil
  | (key, t) :: rest =>
    unfold ofMembers? at h
    split at h
    · next first more =>
      cases h
      rw [List.forall_mem_cons]
      exact ⟨ofTree?_toTree t first, ofMembers?_read rest more⟩
    · cases h

end

theorem toTrees_eq (items : List Json) : toTrees items = items.map toTree := by
  induction items with
  | nil => rfl
  | cons v rest ih => rw [toTrees, ih, List.map_cons]

theorem toMemberTrees_eq (members : List (String × Json)) :
    toMemberTrees members = members.map fun e => (some e.1, toTree e.2) := by
  induction members with
  | nil => rfl
  | cons e rest ih => rw [toMemberTrees, ih, List.map_cons]

namespace Shape

variable {α β : Type} {shape : Shape α} {write : α → Json} {room budget : Nat} {t : Tree}
  {tree : Option Tree}

theorem mapM_map {f : β → Option α} {g : α → β} {as : List α} (h : ∀ a ∈ as, f (g a) = some a) :
    (as.map g).mapM f = some as := by
  induction as with
  | nil => rfl
  | cons a as ih =>
    obtain ⟨first, rest⟩ := List.forall_mem_cons.mp h
    simp [List.mapM_cons, first, ih rest]

theorem list_toTree {as : List α} (deep : budget ≠ 0)
    (h : ∀ a ∈ as, shape (budget - 1) (write a).toTree = some a) :
    list shape budget (arr (as.map write)).toTree = some as := by
  rw [toTree, toTrees_eq, List.map_map, list, if_neg deep]
  exact mapM_map h

theorem members_toTree {es : List (String × α)} (deep : budget ≠ 0)
    (h : ∀ e ∈ es, shape (budget - 1) (write e.2).toTree = some e.2) :
    members shape budget (obj (es.map fun e => (e.1, write e.2))).toTree = some es := by
  rw [toTree, toMemberTrees_eq, List.map_map, members, if_neg deep]
  refine mapM_map fun e he => ?_
  simp only [Function.comp_apply, h e he]

/-- What the shape reads, it reads from how that is written, where there is room for so many
brackets. -/
def Rereads (room : Nat) (shape : Shape α) (write : α → Json) : Prop :=
  ∀ ⦃budget : Nat⦄ ⦃t : Tree⦄ ⦃a : α⦄, room ≤ budget → shape budget t = some a →
    (write a).Exact → shape budget (write a).toTree = some a

theorem rereads_value : Rereads 0 value id := fun _ t _ _ read exact => ofTree?_toTree t read exact

theorem rereads_string : Rereads 0 string .str := fun _ _ _ _ _ _ => rfl

theorem exists_of_mem_list {as : List α} (h : list shape budget t = some as) :
    ∀ a ∈ as, ∃ u, shape (budget - 1) u = some a := by
  intro a ha
  cases t with
  | arr items =>
    rw [list, Option.ite_none_left_eq_some] at h
    obtain ⟨u, -, read⟩ := exists_of_mem_mapM h.2 a ha
    exact ⟨u, read⟩
  | _ => cases h

theorem Rereads.list (h : Rereads room shape write) :
    Rereads (room + 1) (list shape) fun as => arr (as.map write) := by
  intro budget t as deep read exact
  refine list_toTree (by omega) fun a ha => ?_
  obtain ⟨u, read⟩ := exists_of_mem_list read a ha
  exact h (by omega) read (exact_arr_iff.mp exact _ (List.mem_map_of_mem ha))

theorem Rereads.field {default a : α} (h : Rereads room shape write)
    (left : shape budget (write default).toTree = some default) (deep : room ≤ budget)
    (read : field shape default budget tree = some a) (exact : (write a).Exact) :
    shape budget (write a).toTree = some a := by
  cases tree with
  | none =>
    cases read
    exact left
  | some t => exact h deep read exact

theorem Rereads.present {a : α} (h : Rereads room shape write) (deep : room ≤ budget)
    (read : Shape.field (optional shape) none budget tree = some (some a))
    (exact : (write a).Exact) : shape budget (write a).toTree = some a := by
  cases tree with
  | none => cases read
  | some t =>
    cases t with
    | null => cases read
    | _ =>
      obtain ⟨b, present, hb⟩ := Option.map_eq_some_iff.mp read
      cases hb
      exact h deep present exact

theorem Rereads.members {es fs : List (String × α)} (h : Rereads room shape write)
    (deep : room + 1 ≤ budget) (read : Shape.field (members shape) [] budget tree = some es)
    (subset : ∀ e ∈ fs, e ∈ es)
    (exact : (obj (fs.map fun e => (e.1, write e.2))).Exact) :
    members shape budget (obj (fs.map fun e => (e.1, write e.2))).toTree = some fs := by
  refine members_toTree (by omega) fun e he => ?_
  cases tree with
  | none =>
    cases read
    exact absurd (subset e he) List.not_mem_nil
  | some t =>
    obtain ⟨u, member⟩ := exists_of_mem_members read e (subset e he)
    exact h (by omega) member (exact_obj_iff.mp exact _ (List.mem_map_of_mem he))

end Shape

end Json

end SitePublish
