import SitePublish.Time.Instant
import SitePublish.Toml.Value

/-!
# Dates and times of TOML

A date, a time of day or both, then perhaps with an offset. The canonical text has the letter `T`
between date and time, a fraction without zeros at its end, and a capital `Z`.
-/

set_option autoImplicit false

namespace SitePublish.Toml

abbrev Part := String × List Char

def two? (limit : Nat) (s : List Char) : Option (Nat × List Char) :=
  (Instant.digits? 2 s).filter fun r => r.1 < limit

def date? (s : List Char) : Option Part := do
  let (year, s) ← Instant.digits? 4 s
  let s ← Instant.char? '-' s
  let (month, s) ← two? 13 s
  let s ← Instant.char? '-' s
  let (day, s) ← two? 32 s
  guard (1 ≤ month ∧ 1 ≤ day ∧ day ≤ Instant.daysInMonth year month)
  return (Instant.padded 4 year ++ "-" ++ Instant.padded 2 month ++ "-" ++ Instant.padded 2 day, s)

def fractionText (ds : List Char) : String :=
  match (((ds.take 9).reverse.dropWhile (· = '0')).reverse) with
  | [] => ""
  | kept => "." ++ String.ofList kept

def fraction? : List Char → Option Part
  | '.' :: rest =>
    match rest.takeWhile Char.isDigit with
    | [] => none
    | ds => some (fractionText ds, rest.dropWhile Char.isDigit)
  | s => some ("", s)

def time? (s : List Char) : Option Part := do
  let (hour, s) ← two? 24 s
  let s ← Instant.char? ':' s
  let (minute, s) ← two? 60 s
  let s ← Instant.char? ':' s
  let (second, s) ← two? 61 s
  let (fraction, s) ← fraction? s
  return (Instant.padded 2 hour ++ ":" ++ Instant.padded 2 minute ++ ":" ++
    Instant.padded 2 second ++ fraction, s)

/-- A signed offset; the one of no minutes is positive. -/
def signedOffset? (sign : Char) (s : List Char) : Option Part := do
  let (hour, s) ← two? 24 s
  let s ← Instant.char? ':' s
  let (minute, s) ← two? 60 s
  let sign := if hour = 0 ∧ minute = 0 then '+' else sign
  return (String.singleton sign ++ Instant.padded 2 hour ++ ":" ++ Instant.padded 2 minute, s)

def offset? : List Char → Option Part
  | c :: rest =>
    if c = 'Z' || c = 'z' then some ("Z", rest)
    else if c = '+' || c = '-' then signedOffset? c rest
    else some ("", c :: rest)
  | [] => some ("", [])

def isTimeMark (c : Char) : Bool := c = 'T' || c = 't' || c = ' '

def startsTime (s : List Char) : Bool :=
  match Instant.digits? 2 s with
  | some (_, ':' :: _) => true
  | _ => false

def startsDate (s : List Char) : Bool :=
  match Instant.digits? 4 s with
  | some (_, '-' :: _) => true
  | _ => false

def timeOfDate? : List Char → Option Part
  | c :: rest =>
    if isTimeMark c && startsTime rest then do
      let (time, rest) ← time? rest
      let (offset, rest) ← offset? rest
      return ("T" ++ time ++ offset, rest)
    else some ("", c :: rest)
  | [] => some ("", [])

def datetime? (s : List Char) : Option (Value × List Char) :=
  if startsDate s then do
    let (date, rest) ← date? s
    let (time, rest) ← timeOfDate? rest
    return (.datetime (date ++ time), rest)
  else (time? s).map fun (time, rest) => (.datetime time, rest)

end SitePublish.Toml
