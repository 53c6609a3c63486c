import Mathlib.Data.List.Basic
import Mathlib.Data.List.TakeWhile
import SitePublish.Decimal.Shortest

/-!
# Digits of numbers

The digits of a number are below ten and stand for it, and only zero begins with a zero. The same
holds for the digits of the shortest decimal of a double.
-/

set_option autoImplicit false

namespace SitePublish.Decimal

/-- Digits as a number is written by: a zero in front stands alone. -/
structure Proper (ds : List Nat) : Prop where
  below : ∀ d ∈ ds, d < 10
  ne_nil : ds ≠ []
  lead : ds.head? = some 0 → ds = [0]

/-- The number that digits stand for behind the digits of `n`. -/
def valueFrom (n : Nat) (ds : List Nat) : Nat := ds.foldl (fun n d => 10 * n + d) n

theorem le_valueFrom (n : Nat) (ds : List Nat) : n ≤ valueFrom n ds := by
  induction ds generalizing n with
  | nil => exact Nat.le_refl n
  | cons d ds ih => exact Nat.le_trans (by omega) (ih (10 * n + d))

theorem natDigits_eq (n : Nat) :
    natDigits n = if n < 10 then [n] else natDigits (n / 10) ++ [n % 10] := by
  have digit : ∀ d < 10, (Nat.digitChar d).toNat - 48 = d := by decide
  rw [natDigits, Nat.toDigits_eq_if (by decide)]
  split
  · next small => simp [digit n small]
  · simp [natDigits, digit (n % 10) (Nat.mod_lt n (by decide))]

theorem natDigits_ne_nil (n : Nat) : natDigits n ≠ [] := by
  rw [natDigits_eq]
  split <;> simp

theorem below_of_mem_natDigits (n : Nat) : ∀ d ∈ natDigits n, d < 10 := by
  induction n using Nat.strongRecOn with
  | _ n ih =>
    rw [natDigits_eq]
    split
    · next small => simpa using small
    · next large =>
      rw [List.forall_mem_append]
      exact ⟨ih (n / 10) (by omega), by simpa using Nat.mod_lt n (by decide)⟩

theorem head?_natDigits_ne_zero {n : Nat} (positive : 0 < n) : (natDigits n).head? ≠ some 0 := by
  induction n using Nat.strongRecOn with
  | _ n ih =>
    rw [natDigits_eq]
    split
    · simp only [List.head?_cons, ne_eq, Option.some.injEq]
      omega
    · next large =>
      rw [List.head?_append_of_ne_nil _ (natDigits_ne_nil (n / 10))]
      exact ih (n / 10) (by omega) (by omega)

theorem proper_natDigits (n : Nat) : Proper (natDigits n) where
  below := below_of_mem_natDigits n
  ne_nil := natDigits_ne_nil n
  lead zero := by
    rcases Nat.eq_zero_or_pos n with rfl | positive
    · rfl
    · exact absurd zero (head?_natDigits_ne_zero positive)

theorem valueFrom_natDigits (n : Nat) : valueFrom 0 (natDigits n) = n := by
  induction n using Nat.strongRecOn with
  | _ n ih =>
    rw [natDigits_eq]
    split
    · simp [valueFrom]
    · next large =>
      have hn := ih (n / 10) (by omega)
      rw [valueFrom] at hn ⊢
      rw [List.foldl_append, hn, List.foldl_cons, List.foldl_nil]
      omega

theorem isDigit_of_mem_toString (n : Nat) : ∀ c ∈ (toString n).toList, c.isDigit = true := by
  intro c hc
  rw [Nat.toString_eq_ofList_toDigits, String.toList_ofList] at hc
  exact Nat.isDigit_of_mem_toDigits (by decide) (by decide) hc

theorem map_toNat_toString (n : Nat) :
    (toString n).toList.map (fun c => c.toNat - 48) = natDigits n := by
  rw [natDigits, Nat.toString_eq_ofList_toDigits, String.toList_ofList]

theorem toString_injective : Function.Injective (toString : Nat → String) := by
  intro m n same
  rw [← valueFrom_natDigits m, ← map_toNat_toString, same, map_toNat_toString, valueFrom_natDigits]

theorem length_toString (n : Nat) : (toString n).length = (natDigits n).length := by
  rw [← map_toNat_toString, List.length_map, String.length_toList]

def padded (width n : Nat) : String :=
  String.ofList (List.replicate (width - (toString n).length) '0') ++ toString n

theorem valueFrom_padded (width n : Nat) :
    valueFrom 0 ((padded width n).toList.map fun c => c.toNat - 48) = n := by
  have zeros (k : Nat) (ds : List Nat) : valueFrom 0 (List.replicate k 0 ++ ds) = valueFrom 0 ds := by
    induction k with
    | zero => rfl
    | succ k ih => exact ih
  rw [padded, String.toList_append, String.toList_ofList, List.map_append, List.map_replicate,
    map_toNat_toString]
  exact (zeros _ _).trans (valueFrom_natDigits n)

theorem padded_injective (width : Nat) : Function.Injective (padded width) := by
  intro m n same
  rw [← valueFrom_padded width m, same, valueFrom_padded]

theorem isDigit_of_mem_padded (width n : Nat) : ∀ c ∈ (padded width n).toList, c.isDigit = true := by
  rw [padded, String.toList_append, String.toList_ofList]
  refine List.forall_mem_append.mpr ⟨fun c hc => ?_, isDigit_of_mem_toString n⟩
  rw [(List.mem_replicate.mp hc).2]
  decide

theorem exists_append_of_trim (ds : List Nat) :
    ∃ zeros, ds = (ds.reverse.dropWhile (· = 0)).reverse ++ zeros ∧ ∀ d ∈ zeros, d = 0 := by
  refine ⟨(ds.reverse.takeWhile (· = 0)).reverse, ?_, fun d hd => ?_⟩
  · rw [← List.reverse_append, List.takeWhile_append_dropWhile, List.reverse_reverse]
  · simpa using List.mem_takeWhile_imp (List.mem_reverse.mp hd)

theorem proper_trim {n : Nat} (positive : 0 < n) :
    let kept := ((natDigits n).reverse.dropWhile (· = 0)).reverse
    Proper kept ∧ kept.head? ≠ some 0 := by
  intro kept
  obtain ⟨zeros, happ, hzero⟩ := exists_append_of_trim (natDigits n)
  change natDigits n = kept ++ zeros at happ
  have lead := head?_natDigits_ne_zero positive
  rw [happ] at lead
  have ne : kept ≠ [] := by
    intro hk
    rw [hk, List.nil_append] at lead happ
    cases hz : zeros with
    | nil => exact natDigits_ne_nil n (happ.trans hz)
    | cons d rest =>
      rw [hz] at lead hzero
      exact lead (congrArg some (hzero d List.mem_cons_self))
  rw [List.head?_append_of_ne_nil _ ne] at lead
  refine ⟨⟨fun d hd => ?_, ne, fun zero => absurd zero lead⟩, lead⟩
  exact below_of_mem_natDigits n d (happ ▸ List.mem_append_left zeros hd)

namespace Interval

theorem gridPoint?_pos {i : Interval} {e : Int} {n : Nat} (h : i.gridPoint? e = some n) :
    0 < n := by
  unfold gridPoint? at h
  dsimp only at h
  generalize i.value * (scaled 1 10 e).2 / (i.denominator * (scaled 1 10 e).1) = below at h
  split at h
  · next holds _ =>
    rw [Bool.and_eq_true, decide_eq_true_eq] at holds
    split at h <;> cases h <;> omega
  · next holds _ =>
    rw [Bool.and_eq_true, decide_eq_true_eq] at holds
    cases h
    omega
  · cases h
    omega
  · cases h

end Interval

def Digits.Proper (d : Digits) : Prop :=
  Decimal.Proper d.digits ∧ (d.digits.head? = some 0 → d.exponent = 0)

theorem proper_shortestFrom (i : Interval) (top : Int) (fuel : Nat) (e : Int) :
    (i.shortestFrom top fuel e).Proper := by
  induction fuel generalizing e with
  | zero => exact ⟨proper_natDigits 0, fun _ => rfl⟩
  | succ fuel ih =>
    rw [Interval.shortestFrom]
    split
    · next n found =>
      obtain ⟨proper, lead⟩ := proper_trim (Interval.gridPoint?_pos found)
      exact ⟨proper, fun zero => absurd zero lead⟩
    · exact ih (e - 1)

theorem proper_shortest (b : Binary) : (shortest b).Proper := proper_shortestFrom _ _ _ _

end SitePublish.Decimal
