import Mathlib.Order.Bounds.Basic
import SitePublish.Text.EditDistance

/-!
# The least number of edits

The rows hold the least numbers of insertions, deletions and substitutions between the beginnings of two
lists. The recursion on the first members finds these numbers as well; a row grows at the other end, so
it holds what the recursion says of the beginnings in reverse, and edits do not mind the direction.
-/

set_option autoImplicit false

namespace SitePublish.Text

section Edits

variable {α : Type} {as bs cs : List α} {m n : Nat}

inductive Edit : List α → List α → Prop where
  | insert (front : List α) (b : α) (back : List α) : Edit (front ++ back) (front ++ b :: back)
  | delete (front : List α) (a : α) (back : List α) : Edit (front ++ a :: back) (front ++ back)
  | substitute (front : List α) (a b : α) (back : List α) :
      Edit (front ++ a :: back) (front ++ b :: back)

/-- So many edits, one after the other. -/
inductive Edits : Nat → List α → List α → Prop where
  | none (as : List α) : Edits 0 as as
  | step {n : Nat} {as bs cs : List α} (first : Edit as bs) (rest : Edits n bs cs) :
      Edits (n + 1) as cs

theorem Edit.symm (h : Edit as bs) : Edit bs as := by
  cases h with
  | insert front b back => exact .delete front b back
  | delete front a back => exact .insert front a back
  | substitute front a b back => exact .substitute front b a back

theorem Edit.cons (h : Edit as bs) (c : α) : Edit (c :: as) (c :: bs) := by
  cases h with
  | insert front b back => exact .insert (c :: front) b back
  | delete front a back => exact .delete (c :: front) a back
  | substitute front a b back => exact .substitute (c :: front) a b back

theorem Edit.reverse (h : Edit as bs) : Edit as.reverse bs.reverse := by
  cases h with
  | insert front b back => simpa using Edit.insert back.reverse b front.reverse
  | delete front a back => simpa using Edit.delete back.reverse a front.reverse
  | substitute front a b back => simpa using Edit.substitute back.reverse a b front.reverse

namespace Edits

theorem trans (h : Edits m as bs) (h' : Edits n bs cs) : Edits (m + n) as cs := by
  induction h with
  | none as => rwa [Nat.zero_add]
  | step first rest ih =>
    rw [Nat.add_right_comm]
    exact .step first (ih h')

theorem concat (h : Edits n as bs) (last : Edit bs cs) : Edits (n + 1) as cs :=
  h.trans (.step last (.none cs))

theorem symm (h : Edits n as bs) : Edits n bs as := by
  induction h with
  | none as => exact .none as
  | step first rest ih => exact ih.concat first.symm

theorem cons (h : Edits n as bs) (c : α) : Edits n (c :: as) (c :: bs) := by
  induction h with
  | none as => exact .none (c :: as)
  | step first rest ih => exact .step (first.cons c) ih

theorem reverse (h : Edits n as bs) : Edits n as.reverse bs.reverse := by
  induction h with
  | none as => exact .none as.reverse
  | step first rest ih => exact .step first.reverse ih

theorem reverse_iff : Edits n as.reverse bs.reverse ↔ Edits n as bs :=
  ⟨fun h => by simpa using h.reverse, reverse⟩

theorem of_nil (bs : List α) : Edits bs.length [] bs := by
  induction bs with
  | nil => exact .none []
  | cons b bs ih => exact ih.concat (.insert [] b bs)

theorem eq_of_zero (h : Edits 0 as bs) : as = bs := by
  cases h
  rfl

end Edits

end Edits

section Recursion

variable {α : Type} [DecidableEq α] {as bs : List α}

def editsBetween : List α → List α → Nat
  | [], bs => bs.length
  | as, [] => as.length
  | a :: as, b :: bs =>
    min (min (editsBetween as (b :: bs) + 1) (editsBetween (a :: as) bs + 1))
      (editsBetween as bs + if a = b then 0 else 1)
termination_by as bs => as.length + bs.length

theorem editsBetween_nil_left (bs : List α) : editsBetween [] bs = bs.length := by
  rw [editsBetween]

theorem editsBetween_nil_right (as : List α) : editsBetween as [] = as.length := by
  cases as with
  | nil => rw [editsBetween]
  | cons a as => rw [editsBetween]; exact nofun

theorem editsBetween_cons_cons (a b : α) (as bs : List α) :
    editsBetween (a :: as) (b :: bs) =
      min (min (editsBetween as (b :: bs) + 1) (editsBetween (a :: as) bs + 1))
        (editsBetween as bs + if a = b then 0 else 1) := by
  rw [editsBetween]

theorem edits_editsBetween (as bs : List α) : Edits (editsBetween as bs) as bs := by
  fun_induction editsBetween as bs with
  | case1 bs => exact Edits.of_nil bs
  | case2 as => exact (Edits.of_nil as).symm
  | case3 a as b bs ihDelete ihInsert ihKeep =>
    have delete := Edits.step (.delete [] a as) ihDelete
    have insert := ihInsert.concat (.insert [] b bs)
    have keep : Edits (editsBetween as bs + if a = b then 0 else 1) (a :: as) (b :: bs) := by
      split
      · next same => exact same ▸ ihKeep.cons a
      · exact (ihKeep.cons a).concat (.substitute [] a b bs)
    exact min_rec' (Edits · (a :: as) (b :: bs))
      (min_rec' (Edits · (a :: as) (b :: bs)) delete insert) keep

section Bounds

variable (a b : α) (as bs : List α)

theorem editsBetween_cons_left_le : editsBetween (a :: as) bs ≤ editsBetween as bs + 1 := by
  cases bs with
  | nil => simp [editsBetween_nil_right]
  | cons b bs =>
    rw [editsBetween_cons_cons]
    omega

theorem editsBetween_cons_right_le : editsBetween as (b :: bs) ≤ editsBetween as bs + 1 := by
  cases as with
  | nil => simp [editsBetween_nil_left]
  | cons a as =>
    rw [editsBetween_cons_cons]
    omega

theorem editsBetween_cons_cons_le :
    editsBetween (a :: as) (b :: bs) ≤ editsBetween as bs + 1 := by
  rw [editsBetween_cons_cons]
  split <;> omega

theorem editsBetween_le_cons_left : editsBetween as bs ≤ editsBetween (a :: as) bs + 1 := by
  induction bs with
  | nil =>
    rw [editsBetween_nil_right, editsBetween_nil_right, List.length_cons]
    omega
  | cons b bs ih =>
    have put := editsBetween_cons_right_le b as bs
    rw [editsBetween_cons_cons]
    omega

theorem editsBetween_cons_left_le_cons_left :
    editsBetween (a :: as) bs ≤ editsBetween (b :: as) bs + 1 := by
  induction bs with
  | nil =>
    rw [editsBetween_nil_right, editsBetween_nil_right, List.length_cons, List.length_cons]
    omega
  | cons c bs ih =>
    have drop := editsBetween_cons_left_le a as (c :: bs)
    have put := editsBetween_cons_right_le c (a :: as) bs
    have change := editsBetween_cons_cons_le a c as bs
    rw [editsBetween_cons_cons b c]
    omega

end Bounds

theorem editsBetween_append_le (front : List α)
    (h : ∀ cs, editsBetween as cs ≤ editsBetween bs cs + 1) (cs : List α) :
    editsBetween (front ++ as) cs ≤ editsBetween (front ++ bs) cs + 1 := by
  induction front generalizing cs with
  | nil => exact h cs
  | cons x front ih =>
    induction cs with
    | nil =>
      have lengths := ih []
      simp only [editsBetween_nil_right, List.cons_append, List.length_cons] at lengths ⊢
      omega
    | cons c cs inner =>
      have drop := ih (c :: cs)
      have keep := ih cs
      simp only [List.cons_append] at inner ⊢
      rw [editsBetween_cons_cons, editsBetween_cons_cons]
      omega

theorem Edit.editsBetween_le (h : Edit as bs) (cs : List α) :
    editsBetween as cs ≤ editsBetween bs cs + 1 := by
  cases h with
  | insert front b back =>
    exact editsBetween_append_le front (editsBetween_le_cons_left b back) cs
  | delete front a back =>
    exact editsBetween_append_le front (editsBetween_cons_left_le a back) cs
  | substitute front a b back =>
    exact editsBetween_append_le front (editsBetween_cons_left_le_cons_left a b back) cs

theorem editsBetween_self (as : List α) : editsBetween as as = 0 := by
  induction as with
  | nil => exact editsBetween_nil_left []
  | cons a as ih =>
    rw [editsBetween_cons_cons, ih, if_pos rfl]
    omega

theorem Edits.editsBetween_le {n : Nat} (h : Edits n as bs) : editsBetween as bs ≤ n := by
  induction h with
  | none as => exact le_of_eq (editsBetween_self as)
  | step first rest ih => exact (first.editsBetween_le _).trans (Nat.add_le_add_right ih 1)

end Recursion

section Rows

variable {α : Type} [DecidableEq α]

def rowOf (as bs : List α) : List α → List Nat
  | [] => [editsBetween as bs]
  | b :: more => editsBetween as bs :: rowOf as (b :: bs) more

theorem rowOf_eq_cons (as bs more : List α) :
    rowOf as bs more = editsBetween as bs :: (rowOf as bs more).tail := by
  cases more <;> rfl

theorem rowFrom_rowOf (a : α) (as bs more : List α) :
    editsBetween (a :: as) bs :: rowFrom a more (rowOf as bs more) (editsBetween (a :: as) bs) =
      rowOf (a :: as) bs more := by
  induction more generalizing bs with
  | nil => rfl
  | cons b more ih =>
    rw [rowOf, rowOf, rowOf_eq_cons as, rowFrom, ← editsBetween_cons_cons, ← rowOf_eq_cons, ih]

theorem nextRow_rowOf (a : α) (as more : List α) :
    nextRow more (rowOf as [] more) a = rowOf (a :: as) [] more := by
  have first : editsBetween as [] + 1 = editsBetween (a :: as) [] := by
    rw [editsBetween_nil_right, editsBetween_nil_right, List.length_cons]
  rw [rowOf_eq_cons, nextRow, ← rowOf_eq_cons, first, rowFrom_rowOf]

theorem range'_eq_rowOf (bs more : List α) :
    List.range' bs.length (more.length + 1) = rowOf [] bs more := by
  induction more generalizing bs with
  | nil => rw [rowOf, editsBetween_nil_left]; rfl
  | cons b more ih =>
    rw [rowOf, ← ih (b :: bs), List.length_cons, List.range'_succ, editsBetween_nil_left]
    rfl

theorem firstRow_eq (more : List α) : firstRow more = rowOf [] [] more := by
  rw [firstRow, List.range_eq_range']
  exact range'_eq_rowOf [] more

theorem foldl_nextRow (as before bs : List α) :
    as.foldl (nextRow bs) (rowOf before [] bs) = rowOf (as.reverse ++ before) [] bs := by
  induction as generalizing before with
  | nil => rfl
  | cons a as ih =>
    rw [List.foldl_cons, nextRow_rowOf, ih, List.reverse_cons, List.append_assoc]
    rfl

theorem getLastD_rowOf (as bs more : List α) (d : Nat) :
    (rowOf as bs more).getLastD d = editsBetween as (more.reverse ++ bs) := by
  induction more generalizing bs d with
  | nil => rfl
  | cons b more ih =>
    rw [rowOf, List.getLastD_cons, ih, List.reverse_cons, List.append_assoc]
    rfl

theorem editDistance_eq (as bs : List α) :
    editDistance as bs = editsBetween as.reverse bs.reverse := by
  rw [editDistance, lastRow, firstRow_eq, foldl_nextRow, getLastD_rowOf, List.append_nil,
    List.append_nil]

end Rows

variable {α : Type} [DecidableEq α]

theorem editDistance_isLeast (as bs : List α) : IsLeast {n | Edits n as bs} (editDistance as bs) := by
  rw [editDistance_eq]
  constructor
  · exact Edits.reverse_iff.mp (edits_editsBetween as.reverse bs.reverse)
  · intro n edits
    exact (Edits.reverse edits).editsBetween_le

theorem edits_editDistance (as bs : List α) : Edits (editDistance as bs) as bs :=
  (editDistance_isLeast as bs).1

theorem Edits.editDistance_le {as bs : List α} {n : Nat} (h : Edits n as bs) :
    editDistance as bs ≤ n := (editDistance_isLeast as bs).2 h

theorem editDistance_comm (as bs : List α) : editDistance as bs = editDistance bs as :=
  le_antisymm (edits_editDistance bs as).symm.editDistance_le
    (edits_editDistance as bs).symm.editDistance_le

theorem editDistance_eq_zero_iff {as bs : List α} : editDistance as bs = 0 ↔ as = bs := by
  constructor
  · intro zero
    exact (zero ▸ edits_editDistance as bs).eq_of_zero
  · rintro rfl
    exact Nat.le_zero.mp (Edits.none as).editDistance_le

theorem editDistance_triangle (as bs cs : List α) :
    editDistance as cs ≤ editDistance as bs + editDistance bs cs :=
  ((edits_editDistance as bs).trans (edits_editDistance bs cs)).editDistance_le

end SitePublish.Text
