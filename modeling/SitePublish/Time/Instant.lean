/-!
# Points in time

A timestamp as RFC 3339 writes it: a date and a time of day, with an offset from UTC. An instant is
kept in UTC to the nanosecond; a leap second is the second 60 of its minute.
-/

set_option autoImplicit false

namespace SitePublish

structure Instant where
  year : Int
  month : Nat
  day : Nat
  hour : Nat
  minute : Nat
  second : Nat
  nanosecond : Nat
deriving DecidableEq

namespace Instant

def isLeapYear (y : Int) : Bool := (y % 4 = 0 && y % 100 ≠ 0) || y % 400 = 0

def daysInMonth (y : Int) (m : Nat) : Nat :=
  if m = 2 then if isLeapYear y then 29 else 28
  else if m = 4 || m = 6 || m = 9 || m = 11 then 30
  else 31

def nextDay (t : Instant) : Instant :=
  if t.day < daysInMonth t.year t.month then { t with day := t.day + 1 }
  else if t.month < 12 then { t with month := t.month + 1, day := 1 }
  else { t with year := t.year + 1, month := 1, day := 1 }

def previousDay (t : Instant) : Instant :=
  if 1 < t.day then { t with day := t.day - 1 }
  else if 1 < t.month then
    { t with month := t.month - 1, day := daysInMonth t.year (t.month - 1) }
  else { t with year := t.year - 1, month := 12, day := 31 }

def toUtc (t : Instant) (offset : Int) : Instant :=
  let minutes : Int := 60 * t.hour + t.minute - offset
  let day := if minutes < 0 then t.previousDay else if 1440 ≤ minutes then t.nextDay else t
  let m := (minutes % 1440).toNat
  { day with hour := m / 60, minute := m % 60 }

def digits? : Nat → List Char → Option (Nat × List Char)
  | 0, s => some (0, s)
  | n + 1, c :: rest =>
    if c.isDigit then
      (digits? n rest).map fun (v, rest) => ((c.toNat - 48) * Nat.pow 10 n + v, rest)
    else none
  | _ + 1, [] => none

def char? (c : Char) : List Char → Option (List Char)
  | d :: rest => if c = d then some rest else none
  | [] => none

def separator? : List Char → Option (List Char)
  | c :: rest => if c = 'T' || c = 't' || c = ' ' then some rest else none
  | [] => none

/-- At least one digit behind a dot; digits after the ninth do not count. -/
def fraction? : List Char → Option (Nat × List Char)
  | '.' :: rest =>
    let ds := rest.takeWhile Char.isDigit
    if ds.isEmpty then none
    else
      let nine := (ds ++ List.replicate 9 '0').take 9
      (digits? 9 nine).map fun (v, _) => (v, rest.dropWhile Char.isDigit)
  | s => some (0, s)

def offset? : List Char → Option (Int × List Char)
  | c :: rest =>
    if c = 'Z' || c = 'z' then some (0, rest)
    else if c = '+' || c = '-' || c = '\u2212' then do
      let (h, rest) ← digits? 2 rest
      let rest ← char? ':' rest
      let (m, rest) ← digits? 2 rest
      guard (m < 60 ∧ h < 24)
      let total : Int := 60 * h + m
      return (if c = '+' then total else -total, rest)
    else none
  | [] => none

def isValid (t : Instant) : Bool :=
  1 ≤ t.month && t.month ≤ 12 && 1 ≤ t.day && t.day ≤ daysInMonth t.year t.month &&
    t.hour < 24 && t.minute < 60 && t.second ≤ 60

def parse? (s : String) : Option Instant := do
  let (year, s) ← digits? 4 s.toList
  let s ← char? '-' s
  let (month, s) ← digits? 2 s
  let s ← char? '-' s
  let (day, s) ← digits? 2 s
  let s ← separator? s
  let (hour, s) ← digits? 2 s
  let s ← char? ':' s
  let (minute, s) ← digits? 2 s
  let s ← char? ':' s
  let (second, s) ← digits? 2 s
  let (nanosecond, s) ← fraction? s
  let (offset, s) ← offset? s
  let t : Instant := ⟨year, month, day, hour, minute, second, nanosecond⟩
  guard (s.isEmpty ∧ t.isValid)
  return t.toUtc offset

def padded (width n : Nat) : String :=
  let ds := Nat.toDigits 10 n
  String.ofList (List.replicate (width - ds.length) '0' ++ ds)

def yearText (y : Int) : String :=
  if 0 ≤ y ∧ y ≤ 9999 then padded 4 y.natAbs
  else (if y < 0 then "-" else "+") ++ padded 4 y.natAbs

def fractionText (n : Nat) : String :=
  if n = 0 then ""
  else if n % 1000000 = 0 then "." ++ padded 3 (n / 1000000)
  else if n % 1000 = 0 then "." ++ padded 6 (n / 1000)
  else "." ++ padded 9 n

def dateText (t : Instant) : String :=
  yearText t.year ++ "-" ++ padded 2 t.month ++ "-" ++ padded 2 t.day

def toText (t : Instant) : String :=
  dateText t ++ "T" ++ padded 2 t.hour ++ ":" ++ padded 2 t.minute ++ ":" ++ padded 2 t.second ++
    fractionText t.nanosecond ++ "Z"

def shortText (t : Instant) : String :=
  dateText t ++ " " ++ padded 2 t.hour ++ ":" ++ padded 2 t.minute

end Instant

end SitePublish
