import SitePublish.Json.Basic
import SitePublish.Json.Token
import SitePublish.Word

/-!
# Numbers of a JSON text

A number without fraction and exponent is an integer when it fits 64 bits, signed if it is negative.
Every other number is a double: as many leading digits as fit an unsigned word make a significand,
which is then scaled by a power of ten. The scaling rounds a second time, so the double is not
always the nearest one. A number beyond the largest double is refused.
-/

set_option autoImplicit false

namespace SitePublish.Json

/-- Appends digits to a significand as long as it fits a word; also the digits that are left. -/
def absorb (significand : Nat) : List Nat → Nat × List Nat
  | [] => (significand, [])
  | d :: rest =>
    if 10 * significand + d < Word.limit64 then absorb (10 * significand + d) rest
    else (significand, d :: rest)

def exponentLimit : Nat := 0x80000000

/-- The exponent in digits, or `none` if it does not fit a signed word of 32 bits. -/
def boundedExponent (ds : List Nat) : Option Nat :=
  let e := ds.foldl (fun e d => 10 * e + d) 0
  if e < exponentLimit then some e else none

def powerOfTen (n : Nat) : Float := Float.ofScientific 1 false n

/-- Multiplies or divides by a power of ten; very small exponents take several steps of 308. -/
def scaleByTen : Nat → Float → Int → Option Float
  | 0, f, _ => some f
  | fuel + 1, f, e =>
    if e.natAbs ≤ 308 then
      if 0 ≤ e then
        let g := f * powerOfTen e.natAbs
        if g.isInf then none else some g
      else some (f / powerOfTen e.natAbs)
    else if f == 0.0 then some f
    else if 0 ≤ e then none
    else scaleByTen fuel (f / powerOfTen 308) (e + 308)

def floatOfParts (negative : Bool) (significand : Nat) (e : Int) : Option Json :=
  (scaleByTen 4 significand.toUInt64.toFloat e).map fun f =>
    .float (if negative then -f else f).toBits

def floatZero (negative : Bool) : Json := .float (if negative then -0.0 else 0.0 : Float).toBits

def clampExponent (e : Int) : Int :=
  max (-(exponentLimit : Int)) (min ((exponentLimit : Int) - 1) e)

def Literal.toJson? (l : Literal) : Option Json :=
  let (whole, left) := absorb 0 l.whole
  if l.fraction.isNone && l.exponent.isNone && left.isEmpty then
    if !l.negative then some (.int whole)
    else if whole = 0 then some (floatZero true)
    else if whole ≤ Word.signBit then some (.int (-whole))
    else floatOfParts true whole 0
  else
    let fraction := l.fraction.getD []
    let (significand, unread) := absorb whole fraction
    let e : Int := (left.length : Int) - ((fraction.length - unread.length : Nat) : Int)
    match l.exponent with
    | none => floatOfParts l.negative significand e
    | some (minus, ds) =>
      match boundedExponent ds with
      | none => if significand ≠ 0 && !minus then none else some (floatZero l.negative)
      | some x =>
        floatOfParts l.negative significand (clampExponent (if minus then e - x else e + x))

end SitePublish.Json
