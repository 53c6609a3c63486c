import SitePublish.Proofs.Text.EditDistance
import SitePublish.Settings.Warning

/-!
# Suggested keys

What is suggested for an unknown key is the known key that takes the fewest edits of single bytes, and of
several such keys the first one in the table. Nothing is suggested where more than two edits are needed,
or as many as the unknown key has bytes.
-/

set_option autoImplicit false

namespace SitePublish

namespace ConfigWarning

open Text (Edits editDistance)

variable {unknown c : String} {n : Nat}

theorem nearest_eq_none_iff {keys : List String} : nearest unknown keys = none ↔ keys = [] := by
  cases keys with
  | nil => simp [nearest]
  | cons k keys =>
    rw [nearest]
    split
    · simp
    · split <;> simp

/-- The distance is the least one, and the key the first that has it. -/
def IsNearest (unknown : String) (keys : List String) (c : String) (n : Nat) : Prop :=
  IsLeast {d | ∃ k ∈ keys, distance unknown k = d} n ∧
    keys.find? (fun k => distance unknown k = n) = some c

theorem IsNearest.unique {keys : List String} {c' : String} {n' : Nat}
    (h : IsNearest unknown keys c n) (h' : IsNearest unknown keys c' n') : (c, n) = (c', n') := by
  obtain rfl := h.1.unique h'.1
  exact congrArg (·, n) (Option.some.inj (h.2.symm.trans h'.2))

section Cons

variable {k : String} {keys : List String}

theorem isNearest_singleton (unknown k : String) :
    IsNearest unknown [k] k (distance unknown k) := by
  constructor
  · constructor
    · exact ⟨k, List.mem_singleton_self k, rfl⟩
    · rintro d ⟨j, hj, rfl⟩
      rw [List.mem_singleton.mp hj]
  · simp

theorem IsNearest.cons_of_le (h : IsNearest unknown keys c n) (le : distance unknown k ≤ n) :
    IsNearest unknown (k :: keys) k (distance unknown k) := by
  constructor
  · constructor
    · exact ⟨k, List.mem_cons_self, rfl⟩
    · rintro d ⟨j, hj, rfl⟩
      rcases List.mem_cons.mp hj with rfl | hj
      · exact le_rfl
      · exact le.trans (h.1.2 ⟨j, hj, rfl⟩)
  · simp

theorem IsNearest.cons_of_lt (h : IsNearest unknown keys c n) (lt : n < distance unknown k) :
    IsNearest unknown (k :: keys) c n := by
  obtain ⟨⟨⟨j, hj, same⟩, least⟩, first⟩ := h
  constructor
  · constructor
    · exact ⟨j, List.mem_cons_of_mem k hj, same⟩
    · rintro d ⟨i, hi, rfl⟩
      rcases List.mem_cons.mp hi with rfl | hi
      · exact lt.le
      · exact least ⟨i, hi, rfl⟩
  · rw [List.find?_cons_of_neg (by simp [lt.ne']), first]

end Cons

theorem isNearest_of_nearest {keys : List String} (h : nearest unknown keys = some (c, n)) :
    IsNearest unknown keys c n := by
  induction keys generalizing c n with
  | nil => cases h
  | cons k keys ih =>
    rw [nearest] at h
    split at h
    · next none =>
      cases h
      rw [nearest_eq_none_iff.mp none]
      exact isNearest_singleton unknown k
    · next b m found =>
      split at h
      · next le =>
        cases h
        exact (ih found).cons_of_le le
      · next more =>
        cases h
        exact (ih found).cons_of_lt (Nat.lt_of_not_le more)

theorem nearest_eq_some_iff {keys : List String} :
    nearest unknown keys = some (c, n) ↔ IsNearest unknown keys c n := by
  constructor
  · exact isNearest_of_nearest
  · intro h
    cases found : nearest unknown keys with
    | none =>
      rw [nearest_eq_none_iff.mp found] at h
      cases h.2
    | some best => exact congrArg some ((isNearest_of_nearest found).unique h)

theorem suggest_eq_some_iff :
    suggest unknown = some c ↔
      ∃ n, IsNearest unknown knownKeys c n ∧ n ≤ 2 ∧ n < unknown.utf8ByteSize := by
  unfold suggest
  constructor
  · intro h
    split at h
    · next b m found =>
      split at h
      · next near =>
        cases h
        exact ⟨m, nearest_eq_some_iff.mp found, near⟩
      · cases h
    · cases h
  · rintro ⟨n, is, near⟩
    rw [nearest_eq_some_iff.mpr is]
    exact if_pos (show n ≤ editLimit ∧ n < unknown.utf8ByteSize from near)

/-- The distance of two lists of bytes is the least number of edits, and so a metric; and for a key that
is not known the first of the nearest keys is suggested, unless it is too far away. -/
theorem suggestion_nearest :
    (∀ as bs : List UInt8, IsLeast {n | Edits n as bs} (editDistance as bs) ∧
      editDistance as bs = editDistance bs as ∧ (editDistance as bs = 0 ↔ as = bs) ∧
      ∀ cs, editDistance as cs ≤ editDistance as bs + editDistance bs cs) ∧
    ∀ unknown c, suggest unknown = some c ↔
      ∃ n, IsLeast {d | ∃ k ∈ knownKeys, editDistance (Text.utf8 unknown) (Text.utf8 k) = d} n ∧
        n ≤ 2 ∧ n < (Text.utf8 unknown).length ∧
        knownKeys.find? (fun k => editDistance (Text.utf8 unknown) (Text.utf8 k) = n) = some c := by
  constructor
  · intro as bs
    exact ⟨Text.editDistance_isLeast as bs, Text.editDistance_comm as bs,
      Text.editDistance_eq_zero_iff, Text.editDistance_triangle as bs⟩
  · intro unknown c
    have bytes : unknown.utf8ByteSize = (Text.utf8 unknown).length := rfl
    rw [suggest_eq_some_iff, bytes]
    constructor
    · rintro ⟨n, ⟨least, first⟩, near, short⟩
      exact ⟨n, least, near, short, first⟩
    · rintro ⟨n, least, near, short, first⟩
      exact ⟨n, ⟨least, first⟩, near, short⟩

example : suggest "projct" = some "project" := by decide +kernel

end ConfigWarning

end SitePublish
