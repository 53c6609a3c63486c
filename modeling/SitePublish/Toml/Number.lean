import SitePublish.Digest.Hex
import SitePublish.Toml.Value
import SitePublish.Word

/-!
# Numbers of TOML

Integers of 64 bits in four bases and doubles, with underscores between digits. A double beyond the
largest is refused if it is positive.
-/

set_option autoImplicit false

namespace SitePublish.Toml

def digitIn (base : Nat) (c : Char) : Option Nat := (Digest.hexValue? c).filter (· < base)

def digitsFrom (base : Nat) : List Char → List Nat × List Char
  | [] => ([], [])
  | ['_'] => ([], ['_'])
  | '_' :: c :: rest =>
    match digitIn base c with
    | some d => let (ds, rest) := digitsFrom base rest; (d :: ds, rest)
    | none => ([], '_' :: c :: rest)
  | c :: rest =>
    match digitIn base c with
    | some d => let (ds, rest) := digitsFrom base rest; (d :: ds, rest)
    | none => ([], c :: rest)

/-- At least one digit, the first without an underscore in front. -/
def digits? (base : Nat) (s : List Char) : Option (List Nat × List Char) :=
  match s with
  | '_' :: _ => none
  | s =>
    match digitsFrom base s with
    | ([], _) => none
    | read => some read

def whole? : List Char → Option (List Nat × List Char)
  | '0' :: rest => some ([0], rest)
  | s => digits? 10 s

def valueOf (base : Nat) (ds : List Nat) : Nat := ds.foldl (fun n d => base * n + d) 0

def integerOf (n : Int) : Option Value :=
  if -(Word.signBit : Int) ≤ n ∧ n < (Word.signBit : Int) then some (.integer n) else none

def based? (base : Nat) (s : List Char) : Option (Value × List Char) := do
  let (ds, rest) ← digits? base s
  return (← integerOf (valueOf base ds), rest)

/-- How many digits a double can have in front of the point, and as many behind, before it is
infinite or zero. -/
def magnitudeLimit : Nat := 400

def decimalFloat (n : Nat) (e : Int) : Float :=
  let size := ((Nat.toDigits 10 n).length : Int) + e
  if n = 0 ∨ size < -magnitudeLimit then 0.0
  else if magnitudeLimit < size then 1.0 / 0.0
  else Float.ofScientific n (e < 0) e.natAbs

def floatOf (negative : Bool) (ds : List Nat) (e : Int) : Option Value :=
  let f := decimalFloat (valueOf 10 ds) e
  if negative then some (.float (-f).toBits)
  else if f.isInf then none
  else some (.float f.toBits)

def exponent? : List Char → Option (Int × List Char)
  | '-' :: rest => (digits? 10 rest).map fun (ds, rest) => (-(valueOf 10 ds : Int), rest)
  | '+' :: rest => (digits? 10 rest).map fun (ds, rest) => ((valueOf 10 ds : Int), rest)
  | s => (digits? 10 s).map fun (ds, rest) => ((valueOf 10 ds : Int), rest)

def optionalExponent? : List Char → Option (Int × List Char)
  | c :: rest => if c = 'e' || c = 'E' then exponent? rest else some (0, c :: rest)
  | [] => some (0, [])

def decimal? (negative : Bool) (s : List Char) : Option (Value × List Char) := do
  let (ds, rest) ← whole? s
  match rest with
  | '.' :: rest =>
    let (fraction, rest) ← digits? 10 rest
    let (e, rest) ← optionalExponent? rest
    return (← floatOf negative (ds ++ fraction) (e - fraction.length), rest)
  | c :: rest =>
    if c = 'e' || c = 'E' then
      let (e, rest) ← exponent? rest
      return (← floatOf negative ds e, rest)
    else
      let n : Int := valueOf 10 ds
      return (← integerOf (if negative then -n else n), c :: rest)
  | [] =>
    let n : Int := valueOf 10 ds
    return (← integerOf (if negative then -n else n), [])

def infinity (negative : Bool) : Value :=
  .float (if negative then -1.0 / 0.0 else 1.0 / 0.0 : Float).toBits

def notANumber (negative : Bool) : Value :=
  .float (if negative then -(0.0 / 0.0) else 0.0 / 0.0 : Float).toBits

def signed? (negative : Bool) : List Char → Option (Value × List Char)
  | 'i' :: 'n' :: 'f' :: rest => some (infinity negative, rest)
  | 'n' :: 'a' :: 'n' :: rest => some (notANumber negative, rest)
  | s => decimal? negative s

def number? : List Char → Option (Value × List Char)
  | '0' :: 'x' :: rest => based? 16 rest
  | '0' :: 'o' :: rest => based? 8 rest
  | '0' :: 'b' :: rest => based? 2 rest
  | '+' :: rest => signed? false rest
  | '-' :: rest => signed? true rest
  | s => signed? false s

end SitePublish.Toml
