import Mathlib.Data.Option.Basic
import SitePublish.Json.Number
import SitePublish.Json.Printer
import SitePublish.Json.Token
import SitePublish.Proofs.Decimal.Digits

/-!
# Numbers as they are written

A number is written by its digits, and read back to them. Integers and doubles are written so; a
double by the digits of its shortest decimal, positionally or with an exponent.
-/

set_option autoImplicit false

namespace SitePublish.Json

open Decimal (Proper natDigits)

def AreDigits (ds : List Nat) : Prop := ds ≠ [] ∧ ∀ d ∈ ds, d < 10

theorem AreDigits.of_proper {ds : List Nat} (h : Proper ds) : AreDigits ds := ⟨h.ne_nil, h.below⟩

section Digits

theorem digit?_hexDigit : ∀ d < 10, digit? (Digest.hexDigit d) = some d := by decide

theorem isDigit_hexDigit : ∀ d < 10, (Digest.hexDigit d).isDigit = true := by decide

theorem digitChars_natDigits (n : Nat) : digitChars (natDigits n) = Nat.toDigits 10 n := by
  rw [digitChars, natDigits, List.map_map]
  conv => rhs; rw [← List.map_id (Nat.toDigits 10 n)]
  refine List.map_congr_left fun c hc => ?_
  have digit := Nat.isDigit_of_mem_toDigits (by decide) (by decide) hc
  simp only [Char.isDigit, Bool.and_eq_true, decide_eq_true_eq, UInt32.le_iff_toNat_le] at digit
  change 48 ≤ c.toNat ∧ c.toNat ≤ 57 at digit
  rw [Function.comp_apply, id, Digest.hexDigit, if_pos (by omega), Nat.add_sub_of_le digit.1,
    Char.ofNat_toNat]

theorem takeDigits_append {ds : List Nat} {rest : List Char} (below : ∀ d ∈ ds, d < 10)
    (stop : takeDigits rest = ([], rest)) : takeDigits (digitChars ds ++ rest) = (ds, rest) := by
  induction ds with
  | nil => exact stop
  | cons d ds ih =>
    rw [List.forall_mem_cons] at below
    rw [digitChars, List.map_cons, List.cons_append, takeDigits, digit?_hexDigit d below.1]
    rw [digitChars] at ih
    simp only [ih below.2]

end Digits

namespace Literal

def fractionChars : Option (List Nat) → List Char
  | none => []
  | some ds => '.' :: digitChars ds

def exponentChars : Option (Bool × List Nat) → List Char
  | none => []
  | some (minus, ds) => 'e' :: (if minus then '-' else '+') :: digitChars ds

def chars (l : Literal) : List Char :=
  (if l.negative then ['-'] else []) ++
    (digitChars l.whole ++ (fractionChars l.fraction ++ exponentChars l.exponent))

structure Proper (l : Literal) : Prop where
  whole : Decimal.Proper l.whole
  fraction : ∀ ds, l.fraction = some ds → AreDigits ds
  exponent : ∀ minus ds, l.exponent = some (minus, ds) → AreDigits ds

variable {l : Literal} (h : l.Proper)
include h

omit h in
theorem takeDigits_stop (fraction : Option (List Nat)) (exponent : Option (Bool × List Nat)) :
    takeDigits (fractionChars fraction ++ exponentChars exponent) =
      ([], fractionChars fraction ++ exponentChars exponent) := by
  rcases fraction with - | ds
  · rcases exponent with - | ⟨minus, ds⟩ <;> rfl
  · rfl

theorem Proper.takeFraction_chars :
    takeFraction (fractionChars l.fraction ++ exponentChars l.exponent) =
      some (l.fraction, exponentChars l.exponent) := by
  cases hf : l.fraction with
  | none =>
    rcases l.exponent with - | ⟨minus, ds⟩ <;> rfl
  | some ds =>
    obtain ⟨ne, below⟩ := h.fraction ds hf
    have taken := takeDigits_append below (takeDigits_stop none l.exponent)
    change takeDigits (digitChars ds ++ exponentChars l.exponent) = _ at taken
    rw [fractionChars, List.cons_append, takeFraction, taken]
    cases ds with
    | nil => exact absurd rfl ne
    | cons d ds => rfl

theorem Proper.readExponent?_chars :
    readExponent? (exponentChars l.exponent) = some l.exponent := by
  rcases hx : l.exponent with - | ⟨minus, ds⟩
  · rfl
  · obtain ⟨ne, below⟩ := h.exponent minus ds hx
    have taken : takeDigits (digitChars ds) = (ds, []) := by
      simpa using takeDigits_append below (show takeDigits [] = ([], []) from rfl)
    have sign : takeSign ((if minus then '-' else '+') :: digitChars ds) =
        (minus, digitChars ds) := by
      cases minus <;> rfl
    rw [exponentChars, readExponent?, if_pos (by decide), sign]
    cases ds with
    | nil => exact absurd rfl ne
    | cons d ds => simp only [taken]

theorem Proper.ofChars?_chars : ofChars? l.chars = some l := by
  have fraction_read := h.takeFraction_chars
  have exponent_read := h.readExponent?_chars
  obtain ⟨negative, whole, fraction, exponent⟩ := l
  obtain ⟨⟨below, ne, lead⟩, -, -⟩ := h
  dsimp only at below ne lead fraction_read exponent_read
  have whole_read := takeDigits_append below (takeDigits_stop fraction exponent)
  have guarded : (guard (whole ≠ [] ∧ (whole.head? = some 0 → whole = [0])) : Option Unit) =
      some () :=
    if_pos ⟨ne, lead⟩
  have unsigned : ∀ rest,
      digitChars whole ++ (fractionChars fraction ++ exponentChars exponent) ≠ '-' :: rest := by
    intro rest he
    cases whole with
    | nil => exact ne rfl
    | cons d ds =>
      have digit := isDigit_hexDigit d (below d List.mem_cons_self)
      rw [show Digest.hexDigit d = '-' from (List.cons.inj he).1] at digit
      cases digit
  cases negative
  case' true =>
    change ofChars? ('-' :: (digitChars whole ++ _)) = _
    rw [ofChars?]
  case' false =>
    change ofChars? (digitChars whole ++ _) = _
    rw [ofChars?]
    on_goal 2 => exact unsigned
  -- The sign is read; what follows is read alike.
  all_goals
    dsimp only
    rw [whole_read]
    dsimp only
    rw [guarded]
    simp only [fraction_read, exponent_read, Option.bind_eq_bind, Option.bind_some,
      Option.pure_def]

theorem Proper.isNumberChar : ∀ c ∈ l.chars, isNumberChar c = true := by
  have digits {ds : List Nat} (below : ∀ d ∈ ds, d < 10) :
      ∀ c ∈ digitChars ds, Json.isNumberChar c = true := by
    intro c hc
    obtain ⟨d, hd, rfl⟩ := List.mem_map.mp hc
    rw [Json.isNumberChar, isDigit_hexDigit d (below d hd)]
    rfl
  have fraction : ∀ c ∈ fractionChars l.fraction, Json.isNumberChar c = true := by
    cases hf : l.fraction with
    | none => exact fun c hc => absurd hc List.not_mem_nil
    | some ds => exact List.forall_mem_cons.mpr ⟨rfl, digits (h.fraction ds hf).2⟩
  have exponent : ∀ c ∈ exponentChars l.exponent, Json.isNumberChar c = true := by
    rcases hx : l.exponent with - | ⟨minus, ds⟩
    · exact fun c hc => absurd hc List.not_mem_nil
    · refine List.forall_mem_cons.mpr ⟨rfl, List.forall_mem_cons.mpr ⟨?_, ?_⟩⟩
      · cases minus <;> rfl
      · exact digits (h.exponent minus ds hx).2
  have sign : ∀ c ∈ (if l.negative then ['-'] else []), Json.isNumberChar c = true := by
    cases l.negative with
    | true => exact List.forall_mem_singleton.mpr rfl
    | false => exact fun c hc => absurd hc List.not_mem_nil
  simp only [chars, List.forall_mem_append]
  exact ⟨sign, digits h.whole.below, fraction, exponent⟩

theorem Proper.exists_chars_cons :
    ∃ c rest, l.chars = c :: rest ∧ (c.isDigit || c = '-') = true := by
  obtain ⟨negative, whole, fraction, exponent⟩ := l
  cases negative with
  | true => exact ⟨'-', _, rfl, rfl⟩
  | false =>
    cases whole with
    | nil => exact absurd rfl h.whole.ne_nil
    | cons d ds =>
      refine ⟨Digest.hexDigit d, _, rfl, ?_⟩
      rw [isDigit_hexDigit d (h.whole.below d List.mem_cons_self)]
      rfl

omit h

def ofInt (n : Int) : Literal := ⟨decide (n < 0), natDigits n.natAbs, none, none⟩

theorem proper_ofInt (n : Int) : (ofInt n).Proper :=
  ⟨Decimal.proper_natDigits n.natAbs, fun _ h => (nomatch h), fun _ _ h => (nomatch h)⟩

theorem chars_ofInt (n : Int) : (ofInt n).chars = intChars n := by
  simp only [chars, ofInt, fractionChars, exponentChars, List.append_nil, digitChars_natDigits,
    intChars]
  by_cases negative : n < 0 <;> simp [negative]

theorem absorb_eq {n : Nat} {ds : List Nat} (fits : Decimal.valueFrom n ds < Word.limit64) :
    absorb n ds = (Decimal.valueFrom n ds, []) := by
  induction ds generalizing n with
  | nil => rfl
  | cons d ds ih =>
    have small : 10 * n + d < Word.limit64 :=
      Nat.lt_of_le_of_lt (Decimal.le_valueFrom (10 * n + d) ds) fits
    rw [absorb, if_pos small]
    exact ih fits

theorem toJson?_ofInt {n : Nat} (fits : n < Word.limit64) :
    (ofInt n).toJson? = some (.int n) := by
  have absorbed : absorb 0 (natDigits n) = (n, []) := by
    rw [absorb_eq (by rwa [Decimal.valueFrom_natDigits]), Decimal.valueFrom_natDigits]
  have positive : ¬ (n : Int) < 0 := by omega
  simp [toJson?, ofInt, absorbed, positive]

theorem toJson?_ofInt_neg {n : Nat} (ne : n ≠ 0) (fits : n ≤ Word.signBit) :
    (ofInt (-n)).toJson? = some (.int (-n)) := by
  have small : n < Word.limit64 := Nat.lt_of_le_of_lt fits (by decide)
  have absorbed : absorb 0 (natDigits n) = (n, []) := by
    rw [absorb_eq (by rwa [Decimal.valueFrom_natDigits]), Decimal.valueFrom_natDigits]
  simp [toJson?, ofInt, absorbed, ne, fits]

theorem absorb_lt {n : Nat} (small : n < Word.limit64) (ds : List Nat) :
    (absorb n ds).1 < Word.limit64 := by
  induction ds generalizing n with
  | nil => exact small
  | cons d ds ih =>
    rw [absorb]
    split
    · next fits => exact ih fits
    · exact small

def Fits (n : Int) : Prop := -Word.signBit ≤ n ∧ n < Word.limit64

theorem toJson?_ofInt_of_fits {n : Int} (fits : Fits n) : (ofInt n).toJson? = some (.int n) := by
  obtain ⟨above, below⟩ := fits
  rcases Int.lt_or_le n 0 with negative | positive
  · obtain ⟨m, rfl⟩ : ∃ m : Nat, n = -m := ⟨n.natAbs, by omega⟩
    exact toJson?_ofInt_neg (by omega) (by omega)
  · obtain ⟨m, rfl⟩ := Int.eq_ofNat_of_zero_le positive
    exact toJson?_ofInt (by omega)

theorem toJson?_cases {l : Literal} {v : Json} (h : l.toJson? = some v) :
    (∃ bits, v = .float bits) ∨ ∃ n : Int, v = .int n ∧ Fits n := by
  have parts {negative : Bool} {significand : Nat} {e : Int}
      (h : floatOfParts negative significand e = some v) : ∃ bits, v = .float bits := by
    obtain ⟨f, -, rfl⟩ := Option.map_eq_some_iff.mp h
    exact ⟨_, rfl⟩
  have small := absorb_lt (n := 0) (by decide) l.whole
  unfold toJson? at h
  dsimp only at h
  split_ifs at h with integer positive zero fits
  · cases h
    exact Or.inr ⟨_, rfl, by omega, by omega⟩
  · cases h
    exact Or.inl ⟨_, rfl⟩
  · cases h
    exact Or.inr ⟨_, rfl, by omega, by omega⟩
  · exact Or.inl (parts h)
  · split at h
    · exact Or.inl (parts h)
    · split at h
      · split_ifs at h
        cases h
        exact Or.inl ⟨_, rfl⟩
      · exact Or.inl (parts h)

def ofDecimal (negative : Bool) (d : Decimal.Digits) : Literal :=
  let whole := d.exponent.natAbs + 1
  if positional.1 ≤ d.exponent ∧ d.exponent ≤ positional.2 then
    if d.exponent < 0 then
      ⟨negative, [0], some (List.replicate (d.exponent.natAbs - 1) 0 ++ d.digits), none⟩
    else if d.digits.length ≤ whole then
      ⟨negative, d.digits ++ List.replicate (whole - d.digits.length) 0, some [0], none⟩
    else ⟨negative, d.digits.take whole, some (d.digits.drop whole), none⟩
  else
    ⟨negative, d.digits.take 1, if d.digits.length = 1 then none else some (d.digits.drop 1),
      some (decide (d.exponent < 0), natDigits d.exponent.natAbs)⟩

theorem proper_ofDecimal (negative : Bool) {d : Decimal.Digits} (h : d.Proper) :
    (ofDecimal negative d).Proper := by
  obtain ⟨⟨below, ne, lead⟩, zero⟩ := h
  have zeros (n : Nat) : ∀ d ∈ List.replicate n 0, d < 10 := fun d hd => by
    rw [List.eq_of_mem_replicate hd]
    decide
  unfold ofDecimal
  dsimp only
  split
  · split
    · refine ⟨Decimal.proper_natDigits 0, fun ds hds => ?_, fun _ _ h => (nomatch h)⟩
      cases hds
      exact ⟨by simp [ne], List.forall_mem_append.mpr ⟨zeros _, below⟩⟩
    · split
      · refine ⟨⟨List.forall_mem_append.mpr ⟨below, zeros _⟩, by simp [ne], fun hz => ?_⟩,
          fun ds hds => ?_, fun _ _ h => (nomatch h)⟩
        · rw [List.head?_append_of_ne_nil _ ne] at hz
          rw [lead hz, zero hz]
          rfl
        · cases hds
          exact ⟨by decide, by decide⟩
      · next long =>
        refine ⟨⟨fun d hd => below d (List.mem_of_mem_take hd), by simp [ne], fun hz => ?_⟩,
          fun ds hds => ?_, fun _ _ h => (nomatch h)⟩
        · rw [List.head?_take, if_neg (by omega)] at hz
          rw [lead hz] at long
          exact absurd (Nat.le_add_left 1 _) long
        · cases hds
          exact ⟨by simpa using long, fun d hd => below d (List.mem_of_mem_drop hd)⟩
  · refine ⟨⟨fun d hd => below d (List.mem_of_mem_take hd), by simp [ne], fun hz => ?_⟩,
      fun ds hds => ?_, fun minus ds hds => ?_⟩
    · rw [List.head?_take, if_neg (by decide)] at hz
      rw [lead hz]
      rfl
    · split at hds
      · cases hds
      · next many =>
        cases hds
        refine ⟨?_, fun d hd => below d (List.mem_of_mem_drop hd)⟩
        have := List.length_pos_iff.mpr ne
        simp only [ne_eq, List.drop_eq_nil_iff]
        omega
    · cases hds
      exact .of_proper (Decimal.proper_natDigits _)

theorem digitChars_replicate (n : Nat) : digitChars (List.replicate n 0) = zeros n :=
  List.map_replicate

theorem chars_ofDecimal (negative : Bool) {d : Decimal.Digits} (h : d.Proper) :
    (ofDecimal negative d).chars = (if negative then ['-'] else []) ++ decimalChars d := by
  have append (ds es : List Nat) : digitChars (ds ++ es) = digitChars ds ++ digitChars es :=
    List.map_append
  have length : (digitChars d.digits).length = d.digits.length := List.length_map _
  unfold ofDecimal decimalChars
  dsimp only
  rw [length]
  split
  · split
    · simp only [chars, fractionChars, exponentChars, append, digitChars_replicate, List.append_nil]
      rfl
    · split
      · simp only [chars, fractionChars, exponentChars, append, digitChars_replicate,
          List.append_nil, List.append_assoc]
        rfl
      · simp only [chars, fractionChars, exponentChars, List.append_nil, digitChars, List.map_take,
          List.map_drop]
  · obtain ⟨digits, exponent⟩ := d
    dsimp only
    rcases digits with - | ⟨first, - | ⟨second, rest⟩⟩
    · exact absurd rfl h.1.ne_nil
    · simpa [chars, fractionChars, exponentChars, digitChars] using digitChars_natDigits _
    · simpa [chars, fractionChars, exponentChars, digitChars] using digitChars_natDigits _

def ofFloat? (bits : UInt64) : Option Literal :=
  match Decimal.Binary.ofBits? bits with
  | some b => some (ofDecimal (Decimal.isNegative bits) (Decimal.shortest b))
  | none =>
    if bits.toNat % Word.signBit = 0 then some ⟨Decimal.isNegative bits, [0], some [0], none⟩
    else none

theorem proper_of_ofFloat? {bits : UInt64} {l : Literal} (h : ofFloat? bits = some l) :
    l.Proper := by
  unfold ofFloat? at h
  split at h
  · cases h
    exact proper_ofDecimal _ (Decimal.proper_shortest _)
  · split at h
    · cases h
      refine ⟨Decimal.proper_natDigits 0, fun ds hds => ?_, fun _ _ h => (nomatch h)⟩
      cases hds
      exact .of_proper (Decimal.proper_natDigits 0)
    · cases h

theorem floatChars_of_some {bits : UInt64} {l : Literal} (h : ofFloat? bits = some l) :
    floatChars bits = l.chars := by
  unfold ofFloat? at h
  unfold floatChars
  cases hb : Decimal.Binary.ofBits? bits with
  | some b =>
    rw [hb] at h
    cases h
    exact (chars_ofDecimal _ (Decimal.proper_shortest b)).symm
  | none =>
    rw [hb] at h
    dsimp only at h ⊢
    split at h
    · next zero =>
      cases h
      rw [if_pos zero]
      rfl
    · cases h

theorem floatChars_of_none {bits : UInt64} (h : ofFloat? bits = none) :
    floatChars bits = ['n', 'u', 'l', 'l'] := by
  unfold ofFloat? at h
  unfold floatChars
  cases hb : Decimal.Binary.ofBits? bits with
  | some b =>
    rw [hb] at h
    cases h
  | none =>
    rw [hb] at h
    dsimp only at h ⊢
    split at h
    · cases h
    · next nonzero => rw [if_neg nonzero]

end Literal

end SitePublish.Json
