import Mathlib.Data.List.Basic
import SitePublish.Text.Split

/-!
# Splitting and joining

What splitting does at a separator, and where it is undone by joining. A text that begins with
another one and a separator is split into the pieces of that one and further pieces, so beginnings of
paths can be compared piece by piece.
-/

set_option autoImplicit false

namespace SitePublish.Text

variable {sep : Char} {a s : List Char}

theorem splitChars_append (a b : List Char) :
    splitChars sep (a ++ sep :: b) = splitChars sep a ++ splitChars sep b := by
  induction a with
  | nil => simp [splitChars]
  | cons c a ih =>
    simp only [List.cons_append, splitChars, ih]
    split
    · rfl
    · cases h : splitChars sep a with
      | nil => exact absurd h (splitChars_ne_nil sep a)
      | cons p ps => rfl

theorem splitChars_of_not_mem (free : sep ∉ s) : splitChars sep s = [s] := by
  induction s with
  | nil => rfl
  | cons c s ih =>
    rw [List.mem_cons, not_or] at free
    rw [splitChars, if_neg (Ne.symm free.1), ih free.2]

theorem joinChars_cons {p : List Char} {ps : List (List Char)} (h : ps ≠ []) :
    joinChars sep (p :: ps) = p ++ sep :: joinChars sep ps := by
  cases ps with
  | nil => exact absurd rfl h
  | cons q qs => rfl

theorem splitChars_joinChars {pieces : List (List Char)} (ne : pieces ≠ [])
    (free : ∀ p ∈ pieces, sep ∉ p) : splitChars sep (joinChars sep pieces) = pieces := by
  induction pieces with
  | nil => exact absurd rfl ne
  | cons p ps ih =>
    have hp := splitChars_of_not_mem (free p List.mem_cons_self)
    cases ps with
    | nil => exact hp
    | cons q qs =>
      rw [joinChars_cons (List.cons_ne_nil q qs), splitChars_append, hp,
        ih (List.cons_ne_nil q qs) fun r hr => free r (List.mem_cons_of_mem p hr)]
      rfl

theorem getLast?_splitChars_joinChars {ps : List (List Char)} {p : List Char}
    (h : ps.getLast? = some p) :
    (splitChars sep (joinChars sep ps)).getLast? = (splitChars sep p).getLast? := by
  induction ps with
  | nil => cases h
  | cons q ps ih =>
    by_cases last : ps = []
    · subst last
      cases h
      rfl
    · rw [List.getLast?_cons_of_ne_nil last] at h
      rw [joinChars_cons last, splitChars_append,
        List.getLast?_append_of_ne_nil _ (splitChars_ne_nil sep _), ih h]

theorem not_mem_joinChars {c : Char} {pieces : List (List Char)} (ne : c ≠ sep)
    (free : ∀ p ∈ pieces, c ∉ p) : c ∉ joinChars sep pieces := by
  induction pieces with
  | nil => simp [joinChars]
  | cons p ps ih =>
    rw [List.forall_mem_cons] at free
    cases ps with
    | nil => exact free.1
    | cons q qs =>
      rw [joinChars_cons (List.cons_ne_nil q qs), List.mem_append, List.mem_cons]
      rintro (h | h | h)
      · exact free.1 h
      · exact ne h
      · exact ih free.2 h

theorem cutFirst_append (free : sep ∉ a) (b : List Char) :
    cutFirst sep (a ++ b) = (cutFirst sep b).map fun (before, after) => (a ++ before, after) := by
  induction a with
  | nil => simp
  | cons c a ih =>
    rw [List.mem_cons, not_or] at free
    rw [List.cons_append, cutFirst, if_neg (Ne.symm free.1), ih free.2, Option.map_map]
    rfl

theorem cutFirst_of_not_mem (free : sep ∉ s) : cutFirst sep s = none := by
  have h := cutFirst_append free []
  rwa [List.append_nil] at h

theorem cutFirst_append_sep (free : sep ∉ a) (b : List Char) :
    cutFirst sep (a ++ sep :: b) = some (a, b) := by
  rw [cutFirst_append free, cutFirst, if_pos rfl]
  simp

theorem joinChars_append {ps qs : List (List Char)} (hp : ps ≠ []) (hq : qs ≠ []) :
    joinChars sep (ps ++ qs) = joinChars sep ps ++ sep :: joinChars sep qs := by
  induction ps with
  | nil => exact absurd rfl hp
  | cons p ps ih =>
    cases ps with
    | nil => exact joinChars_cons hq
    | cons r rs =>
      have hr : r :: rs ≠ [] := List.cons_ne_nil r rs
      rw [List.cons_append, joinChars_cons (List.append_ne_nil_of_left_ne_nil hr qs), ih hr,
        joinChars_cons hr, List.append_assoc, List.cons_append]

theorem joinChars_sublist_cons (p : List Char) (ps : List (List Char)) :
    (joinChars sep ps).Sublist (joinChars sep (p :: ps)) := by
  cases ps with
  | nil => exact List.nil_sublist _
  | cons q qs =>
    rw [joinChars_cons (List.cons_ne_nil q qs)]
    exact (List.sublist_cons_self sep _).trans (List.sublist_append_right p _)

theorem joinChars_filter_sublist (keep : List Char → Bool) (ps : List (List Char)) :
    (joinChars sep (ps.filter keep)).Sublist (joinChars sep ps) := by
  induction ps with
  | nil => exact List.nil_sublist _
  | cons p ps ih =>
    rw [List.filter_cons]
    split
    · cases hk : ps.filter keep with
      | nil =>
        cases ps with
        | nil => exact List.Sublist.refl p
        | cons q qs =>
          rw [joinChars_cons (List.cons_ne_nil q qs)]
          exact List.sublist_append_left p _
      | cons k ks =>
        have ne : ps ≠ [] := by
          rintro rfl
          cases hk
        rw [joinChars_cons (List.cons_ne_nil k ks), joinChars_cons ne, ← hk]
        exact (ih.cons_cons sep).append_left p
    · exact ih.trans (joinChars_sublist_cons p ps)

theorem splitOn_joinWith {pieces : List String} (ne : pieces ≠ [])
    (free : ∀ p ∈ pieces, sep ∉ p.toList) : splitOn sep (joinWith sep pieces) = pieces := by
  rw [splitOn, joinWith, String.toList_ofList,
    splitChars_joinChars (by simpa using ne) (List.forall_mem_map.mpr free), List.map_map]
  simp [Function.comp_def]

theorem joinWith_splitOn (sep : Char) (s : String) : joinWith sep (splitOn sep s) = s := by
  have pieces : ((splitChars sep s.toList).map String.ofList).map String.toList =
      splitChars sep s.toList := by
    simp [Function.comp_def]
  rw [joinWith, splitOn, pieces, joinChars_splitChars, String.ofList_toList]

theorem joinChars_concat_append (ps : List (List Char)) (a b : List Char) :
    joinChars sep (ps ++ [a]) ++ b = joinChars sep (ps ++ [a ++ b]) := by
  induction ps with
  | nil => rfl
  | cons p ps ih =>
    have ne (c : List Char) : ps ++ [c] ≠ [] := by simp
    rw [List.cons_append, List.cons_append, joinChars_cons (ne a), joinChars_cons (ne (a ++ b)),
      List.append_assoc, List.cons_append, ih]

theorem joinWith_concat_append (ps : List String) (a b : String) :
    joinWith sep (ps ++ [a]) ++ b = joinWith sep (ps ++ [a ++ b]) := by
  refine String.toList_injective ?_
  simpa [joinWith] using joinChars_concat_append (ps.map String.toList) a.toList b.toList

theorem mem_joinChars_of_mem {ps : List (List Char)} {p : List Char} (hp : p ∈ ps) {c : Char}
    (hc : c ∈ p) : c ∈ joinChars sep ps := by
  induction ps with
  | nil => cases hp
  | cons q qs ih =>
    rcases List.mem_cons.mp hp with rfl | hp
    · cases qs with
      | nil => exact hc
      | cons r rs =>
        rw [joinChars_cons (List.cons_ne_nil r rs)]
        exact List.mem_append_left _ hc
    · exact (joinChars_sublist_cons q qs).mem (ih hp)

theorem toList_joinWith_cons (sep : Char) (p : String) (rest : List String) : ∃ tail,
    (joinWith sep (p :: rest)).toList = p.toList ++ tail ∧ (tail = [] ↔ rest = []) ∧
      ∀ c ∈ tail.head?, c = sep := by
  cases rest with
  | nil => exact ⟨[], by simp [joinWith, joinChars], by simp, nofun⟩
  | cons q qs =>
    refine ⟨sep :: joinChars sep ((q :: qs).map String.toList), ?_, by simp, by simp⟩
    rw [joinWith, String.toList_ofList, List.map_cons, joinChars_cons (by simp)]

/-- A text begins with another one and a separator just when its pieces begin with those of the
other one, and go on. -/
theorem exists_append_sep_iff :
    (∃ b, s = a ++ sep :: b) ↔
      ∃ pieces, pieces ≠ [] ∧ splitChars sep s = splitChars sep a ++ pieces := by
  constructor
  · rintro ⟨b, rfl⟩
    exact ⟨_, splitChars_ne_nil sep b, splitChars_append a b⟩
  · rintro ⟨pieces, ne, h⟩
    refine ⟨joinChars sep pieces, ?_⟩
    rw [← joinChars_splitChars sep s, h, joinChars_append (splitChars_ne_nil sep a) ne,
      joinChars_splitChars]

theorem not_append_lt (s t : List Char) : ¬ s ++ t < s := by
  induction s with
  | nil => exact List.not_lt_nil _
  | cons c s ih => simpa [List.cons_lt_cons_iff] using ih

theorem splitChars_injective : Function.Injective (splitChars sep) :=
  Function.LeftInverse.injective (joinChars_splitChars sep)

theorem stripPrefix_eq_some_iff {start rest : List Char} :
    stripPrefix start s = some rest ↔ s = start ++ rest := by
  unfold stripPrefix
  split
  · next h =>
    obtain ⟨b, rfl⟩ := List.isPrefixOf_iff_prefix.mp h
    simp
  · next h =>
    constructor
    · intro he
      cases he
    · rintro rfl
      exact absurd (List.isPrefixOf_iff_prefix.mpr (List.prefix_append start rest)) h

theorem stripPrefix_append (start rest : List Char) :
    stripPrefix start (start ++ rest) = some rest :=
  stripPrefix_eq_some_iff.mpr rfl

end SitePublish.Text
