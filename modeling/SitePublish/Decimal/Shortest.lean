import SitePublish.Word

/-!
# Shortest decimals

Of the decimals that read back as a given double, the one with the fewest digits, and among those
the nearest to the double, with an even last digit if two are equally near. The double is taken
apart into an integer times a power of two and all comparisons are exact.
-/

set_option autoImplicit false

namespace SitePublish.Decimal

/-- A positive double: `mantissa * 2 ^ exponent`, with the next smaller double nearer by half when
the mantissa is the least one of its binade. -/
structure Binary where
  mantissa : Nat
  exponent : Int
  narrowBelow : Bool
deriving DecidableEq

/-- The first number that needs more than the 52 bits of a fraction. -/
def fractionLimit : Nat := 0x10000000000000

def fieldLimit : Nat := 2048

/-- The magnitude of a finite double; `none` for zero, infinities and not-a-number. -/
def Binary.ofBits? (bits : UInt64) : Option Binary :=
  let field : Nat := bits.toNat / fractionLimit % fieldLimit
  let fraction : Nat := bits.toNat % fractionLimit
  if field + 1 = fieldLimit then none
  else if field = 0 then
    if fraction = 0 then none else some ⟨fraction, -1074, false⟩
  else some ⟨fractionLimit + fraction, (field : Int) - 1075, decide (fraction = 0 ∧ 1 < field)⟩

/-- Digits `d₀ d₁ …` and an exponent `e` stand for `d₀.d₁… * 10 ^ e`. -/
structure Digits where
  digits : List Nat
  exponent : Int
deriving DecidableEq

def scaled (n : Nat) (base : Nat) (e : Int) : Nat × Nat :=
  let power := Nat.pow base e.natAbs
  if e < 0 then (n, power) else (n * power, 1)

/-- A double and the half-way points to its neighbours, over one denominator. The ends belong to the
interval when the mantissa is even. -/
structure Interval where
  low : Nat
  value : Nat
  high : Nat
  denominator : Nat
  closed : Bool

/-- In quarters of the spacing above the double: its neighbours are half-way at two quarters above
and at two below, or one where the spacing below is half as wide. -/
def Binary.interval (b : Binary) : Interval :=
  let (unit, den) := scaled 1 2 (b.exponent - 2)
  ⟨(4 * b.mantissa - if b.narrowBelow then 1 else 2) * unit, 4 * b.mantissa * unit,
   (4 * b.mantissa + 2) * unit, den, b.mantissa % 2 = 0⟩

/-- Whether `num / den` rounds to the double. -/
def Interval.holds (i : Interval) (num den : Nat) : Bool :=
  let x := num * i.denominator
  let low := i.low * den
  let high := i.high * den
  if i.closed then low ≤ x && x ≤ high else low < x && x < high

def shiftsUp : Nat → Nat → Nat → Nat
  | 0, _, _ => 0
  | fuel + 1, num, den => if den ≤ num then 0 else shiftsUp fuel (10 * num) den + 1

def leadingExponent (num den : Nat) : Int :=
  if den ≤ num then ((Nat.toDigits 10 (num / den)).length : Int) - 1
  else -(shiftsUp 400 num den : Int)

def distance (a b : Nat) : Nat := if a ≤ b then b - a else a - b

/-- The nearest point of the grid `10 ^ e` inside the interval, as a multiple of `10 ^ e`; of two
equally near points the even one. -/
def Interval.gridPoint? (i : Interval) (e : Int) : Option Nat :=
  let (up, down) := scaled 1 10 e
  let below := i.value * down / (i.denominator * up)
  let above := below + 1
  let near (n : Nat) : Nat := distance (n * up * i.denominator) (i.value * down)
  match i.holds (below * up) down && below ≠ 0, i.holds (above * up) down with
  | true, true =>
    if near above < near below ∨ (near above = near below ∧ below % 2 = 1) then some above
    else some below
  | true, false => some below
  | false, true => some above
  | false, false => none

def natDigits (n : Nat) : List Nat := (Nat.toDigits 10 n).map fun c => c.toNat - 48

/-- Tries grids of one digit, two digits, and so on; seventeen always suffice. -/
def Interval.shortestFrom (i : Interval) (top : Int) : Nat → Int → Digits
  | 0, _ => ⟨[0], 0⟩
  | fuel + 1, e =>
    match i.gridPoint? e with
    | some n =>
      let ds := natDigits n
      let kept := (ds.reverse.dropWhile (· = 0)).reverse
      ⟨kept, e + (ds.length : Int) - 1⟩
    | none => shortestFrom i top fuel (e - 1)

def shortest (b : Binary) : Digits :=
  let i := b.interval
  let top := leadingExponent i.value i.denominator
  i.shortestFrom top 18 top

def isNegative (bits : UInt64) : Bool := bits.toNat / Word.signBit = 1

end SitePublish.Decimal
