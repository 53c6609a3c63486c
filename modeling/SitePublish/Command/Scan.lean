import SitePublish.Dict
import SitePublish.Text.Split
import SitePublish.Word

/-!
# Scanning arguments

Reads the words of a command line by a table of the options and positional arguments that a level
takes. An option that takes a value waits for the next word; its value is looked at as soon as the
next argument begins, so of several faults the first one counts. A word that is no option of the
level is refused at once.
-/

set_option autoImplicit false

namespace SitePublish

/-- What is wrong with a command line, or what it asks for instead of a command. -/
inductive UsageError where
  | help
  | version
  | nothingGiven
  | missingCommand
  | unknownCommand
  | missingArgument
  | conflict
  | tooManyValues
  | invalidValue
  | malformedValue
  | unknownArgument
deriving DecidableEq

namespace Usage

inductive ValueKind where
  | text
  | path
  | target
  | number
deriving DecidableEq

inductive OptionKind where
  | flag
  /-- A flag that counts how often it is given. -/
  | count
  | help
  | version
  | value (kind : ValueKind)
deriving DecidableEq

structure OptionSpec where
  name : String
  short : Option Char
  kind : OptionKind
deriving DecidableEq

inductive PositionalSpec where
  | absent
  | one (kind : ValueKind)
  | many (kind : ValueKind)
deriving DecidableEq

structure Level where
  options : List OptionSpec
  positional : PositionalSpec
  commands : List String

inductive Pending where
  | option (o : OptionSpec) (value : Option String)
  | positional (values : List String)
deriving DecidableEq

structure Scan where
  values : Dict String String
  flags : List String
  count : Nat
  positionals : List String
  pending : Option Pending
deriving DecidableEq

namespace ValueKind

def integer? (s : String) : Option Int :=
  let (sign, digits) : Int × List Char := match s.toList with
    | '-' :: rest => (-1, rest)
    | '+' :: rest => (1, rest)
    | cs => (1, cs)
  if digits.isEmpty || !digits.all Char.isDigit then none
  else some (sign * (digits.foldl (fun n c => 10 * n + (c.toNat - 48)) 0 : Nat))

def number? (s : String) : Option Nat :=
  (integer? s).bind fun n => if 0 ≤ n ∧ n < (Word.limit32 : Int) then some n.toNat else none

def targets : List String := ["preview", "production"]

def check (k : ValueKind) (s : String) : Except UsageError Unit :=
  match k with
  | .text => .ok ()
  | .path => if s = "" then .error .invalidValue else .ok ()
  | .target => if targets.contains s then .ok () else .error .invalidValue
  | .number => if (number? s).isSome then .ok () else .error .malformedValue

end ValueKind

namespace Scan

def empty : Scan := ⟨[], [], 0, [], none⟩

def isSet (s : Scan) (name : String) : Bool := s.flags.contains name || s.values.contains name

def isEmpty (s : Scan) : Bool :=
  s.values.isEmpty && s.flags.isEmpty && s.count = 0 && s.positionals.isEmpty

def isAwaiting (s : Scan) : Bool :=
  match s.pending with
  | some (.option _ none) => true
  | _ => false

def store (s : Scan) (o : OptionSpec) (k : ValueKind) (value : String) :
    Except UsageError Scan :=
  if s.isSet o.name then .error .conflict
  else
    match k.check value with
    | .error e => .error e
    | .ok () => .ok { s with values := s.values.put o.name value }

def storePositionals (s : Scan) (k : ValueKind) : List String → Except UsageError Scan
  | [] => .ok s
  | v :: rest =>
    match k.check v with
    | .error e => .error e
    | .ok () => storePositionals { s with positionals := s.positionals ++ [v] } k rest

def settle (l : Level) (s : Scan) : Except UsageError Scan :=
  let settled := { s with pending := none }
  match s.pending with
  | none => .ok s
  | some (.option _ none) => .error .invalidValue
  | some (.option o (some value)) =>
    match o.kind with
    | .value k => settled.store o k value
    | _ => .ok settled
  | some (.positional values) =>
    match l.positional with
    | .absent => .error .unknownArgument
    | .one k | .many k => settled.storePositionals k values

def react (l : Level) (s : Scan) (o : OptionSpec) : Except UsageError Scan :=
  match s.settle l with
  | .error e => .error e
  | .ok s =>
    match o.kind with
    | .flag =>
      if s.isSet o.name then .error .conflict else .ok { s with flags := o.name :: s.flags }
    | .count => .ok { s with count := s.count + 1 }
    | .help => .error .help
    | .version => .error .version
    | .value _ => .ok s

def begin (l : Level) (s : Scan) (o : OptionSpec) (k : ValueKind) (attached : Option String) :
    Except UsageError Scan :=
  match s.settle l with
  | .error e => .error e
  | .ok s =>
    match attached with
    | some value => s.store o k value
    | none => .ok { s with pending := some (.option o none) }

def long (l : Level) (s : Scan) (name : String) (attached : Option String) :
    Except UsageError Scan :=
  match l.options.find? fun o => o.name = name with
  | none => .error .unknownArgument
  | some o =>
    match o.kind with
    | .value k => s.begin l o k attached
    | _ => if attached.isSome then .error .tooManyValues else s.react l o

def attachedValue : List Char → Option String
  | [] => none
  | '=' :: rest => some (String.ofList rest)
  | cs => some (String.ofList cs)

def shorts (l : Level) (s : Scan) : List Char → Except UsageError Scan
  | [] => .ok s
  | c :: rest =>
    match l.options.find? fun o => o.short = some c with
    | none => .error .unknownArgument
    | some o =>
      match o.kind with
      | .value k => s.begin l o k (attachedValue rest)
      | _ =>
        match s.react l o with
        | .error e => .error e
        | .ok s => shorts l s rest

def positional (l : Level) (s : Scan) (afterEscape : Bool) (word : String) :
    Except UsageError Scan :=
  let start : Except UsageError Scan :=
    (s.settle l).map fun s => { s with pending := some (.positional [word]) }
  match l.positional with
  | .absent =>
    if l.commands.isEmpty || (afterEscape && l.commands.contains word) then
      .error .unknownArgument
    else .error .unknownCommand
  | .one _ =>
    match s.pending with
    | some (.positional _) => .error .unknownArgument
    | _ => if s.positionals.isEmpty then start else .error .unknownArgument
  | .many _ =>
    match s.pending with
    | some (.positional values) => .ok { s with pending := some (.positional (values ++ [word])) }
    | _ => start

def word (l : Level) (s : Scan) (w : String) : Except UsageError Scan :=
  match s.pending with
  | some (.option o none) => .ok { s with pending := some (.option o (some w)) }
  | _ => s.positional l false w

def take (l : Level) (s : Scan) (w : String) : Except UsageError Scan :=
  match w.toList with
  | '-' :: '-' :: rest =>
    match Text.cutFirst '=' rest with
    | some (name, value) => s.long l (String.ofList name) (some (String.ofList value))
    | none => s.long l (String.ofList rest) none
  | '-' :: c :: rest => s.shorts l (c :: rest)
  | _ => s.word l w

/-- Reads words up to the name of a command; also that name and the words behind it. -/
def read (l : Level) (s : Scan) (afterEscape : Bool) :
    List String → Except UsageError (Scan × Option (String × List String))
  | [] => .ok (s, none)
  | w :: rest =>
    if afterEscape then
      match s.positional l true w with
      | .error e => .error e
      | .ok s => read l s true rest
    else if !s.isAwaiting && l.commands.contains w then .ok (s, some (w, rest))
    else if w = "--" then read l s true rest
    else
      match s.take l w with
      | .error e => .error e
      | .ok s => read l s false rest

end Scan

end Usage

end SitePublish
