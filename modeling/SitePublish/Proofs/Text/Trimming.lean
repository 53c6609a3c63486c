import Mathlib.Data.List.TakeWhile
import SitePublish.Text.Blank

/-!
# Trimming

What stands around the trimmed part of a list is all of the kind that is dropped, and the trimmed part
neither begins nor ends with it. So it does not matter how much of that kind is put around a list, and
around a part that begins and ends with something else each side is trimmed by itself.
-/

set_option autoImplicit false

namespace SitePublish.Text

variable {α : Type} {p : α → Bool} {a b s : List α}

theorem forall_getLast?_of_cons {P : α → Prop} {a : α} (h : ∀ c ∈ (a :: s).getLast?, P c) :
    ∀ c ∈ s.getLast?, P c := by
  intro c hc
  refine h c ?_
  rw [List.getLast?_cons, Option.mem_def.mp hc]
  rfl

/-- Neither the first member nor the last is of this kind. -/
structure Solid (p : α → Bool) (s : List α) : Prop where
  head : ∀ c ∈ s.head?, p c = false
  last : ∀ c ∈ s.getLast?, p c = false

theorem solid_of_forall (h : ∀ c ∈ s, p c = false) : Solid p s where
  head c hc := h c (List.mem_of_mem_head? hc)
  last c hc := h c (List.mem_of_mem_getLast? hc)

theorem Solid.mono {q : α → Bool} (h : Solid p s) (weaker : ∀ c, q c = true → p c = true) :
    Solid q s := by
  have less (c : α) (hc : p c = false) : q c = false := by
    by_contra yes
    rw [weaker c (by simpa using yes)] at hc
    cases hc
  exact ⟨fun c hc => less c (h.head c hc), fun c hc => less c (h.last c hc)⟩

theorem Solid.reverse (h : Solid p s) : Solid p s.reverse where
  head c hc := h.last c (by rwa [List.head?_reverse] at hc)
  last c hc := h.head c (by rwa [List.getLast?_reverse] at hc)

theorem dropWhile_eq_self (h : ∀ c ∈ s.head?, p c = false) : s.dropWhile p = s := by
  cases s with
  | nil => rfl
  | cons c s => rw [List.dropWhile_cons_of_neg (by simp [h c rfl])]

theorem dropWhileEnd_eq_self (h : ∀ c ∈ s.getLast?, p c = false) : dropWhileEnd p s = s := by
  rw [dropWhileEnd, dropWhile_eq_self, List.reverse_reverse]
  rwa [List.head?_reverse]

theorem Solid.dropWhileEnds_eq (h : Solid p s) : dropWhileEnds p s = s := by
  rw [dropWhileEnds, dropWhile_eq_self h.head, dropWhileEnd_eq_self h.last]

theorem dropWhileEnd_append (s : List α) (hb : ∀ c ∈ b, p c = true) :
    dropWhileEnd p (s ++ b) = dropWhileEnd p s := by
  rw [dropWhileEnd, List.reverse_append, List.dropWhile_append_of_pos, ← dropWhileEnd]
  simpa using hb

theorem dropWhileEnds_append (s : List α) (ha : ∀ c ∈ a, p c = true) (hb : ∀ c ∈ b, p c = true) :
    dropWhileEnds p (a ++ s ++ b) = dropWhileEnds p s := by
  rw [dropWhileEnds, List.append_assoc, List.dropWhile_append_of_pos ha, List.dropWhile_append]
  by_cases empty : s.dropWhile p = []
  · rw [dropWhileEnds, empty, List.isEmpty_nil, if_pos rfl, List.dropWhile_eq_nil_iff.mpr hb]
  · rw [if_neg (by simpa using empty), dropWhileEnd_append _ hb, ← dropWhileEnds]

theorem dropWhileEnds_eq_nil (h : ∀ c ∈ s, p c = true) : dropWhileEnds p s = [] := by
  rw [dropWhileEnds, List.dropWhile_eq_nil_iff.mpr h]
  rfl

theorem exists_dropWhileEnd (p : α → Bool) (s : List α) :
    ∃ b, s = dropWhileEnd p s ++ b ∧ ∀ c ∈ b, p c = true := by
  refine ⟨(s.reverse.takeWhile p).reverse, ?_, fun c hc => ?_⟩
  · rw [dropWhileEnd, ← List.reverse_append, List.takeWhile_append_dropWhile, List.reverse_reverse]
  · exact List.mem_takeWhile_imp (List.mem_reverse.mp hc)

theorem exists_dropWhileEnds (p : α → Bool) (s : List α) :
    ∃ a b, s = a ++ dropWhileEnds p s ++ b ∧ (∀ c ∈ a, p c = true) ∧ ∀ c ∈ b, p c = true := by
  obtain ⟨b, rest, hb⟩ := exists_dropWhileEnd p (s.dropWhile p)
  refine ⟨s.takeWhile p, b, ?_, fun c hc => List.mem_takeWhile_imp hc, hb⟩
  rw [dropWhileEnds, List.append_assoc, ← rest, List.takeWhile_append_dropWhile]

theorem head?_dropWhile (p : α → Bool) (s : List α) : ∀ c ∈ (s.dropWhile p).head?, p c = false := by
  intro c hc
  have first := List.head?_dropWhile_not p s
  rw [Option.mem_def.mp hc] at first
  exact first

theorem solid_dropWhileEnds (p : α → Bool) (s : List α) : Solid p (dropWhileEnds p s) where
  head c hc := by
    obtain ⟨b, rest, -⟩ := exists_dropWhileEnd p (s.dropWhile p)
    apply head?_dropWhile p s c
    rw [rest, ← dropWhileEnds, List.head?_append, Option.mem_def.mp hc]
    rfl
  last c hc := by
    rw [dropWhileEnds, dropWhileEnd, List.getLast?_reverse] at hc
    exact head?_dropWhile p _ c hc

section Around

variable {core : List α} (solid : Solid p core) (ne : core ≠ [])
include solid ne

theorem dropWhile_around (a b : List α) :
    (a ++ core ++ b).dropWhile p = a.dropWhile p ++ core ++ b := by
  have front : (core ++ b).dropWhile p = core ++ b := by
    apply dropWhile_eq_self
    cases core with
    | nil => exact absurd rfl ne
    | cons d core => exact solid.head
  rw [List.append_assoc, List.dropWhile_append, front]
  by_cases empty : a.dropWhile p = []
  · rw [empty, List.isEmpty_nil, if_pos rfl, List.nil_append]
  · rw [if_neg (by simpa using empty), List.append_assoc]

theorem dropWhileEnds_around (a b : List α) :
    dropWhileEnds p (a ++ core ++ b) = a.dropWhile p ++ core ++ dropWhileEnd p b := by
  have back := dropWhile_around solid.reverse (by simpa using ne) b.reverse (a.dropWhile p).reverse
  rw [dropWhileEnds, dropWhile_around solid ne, dropWhileEnd]
  simp only [List.reverse_append, ← List.append_assoc, back]
  simp [dropWhileEnd]

end Around

end SitePublish.Text
