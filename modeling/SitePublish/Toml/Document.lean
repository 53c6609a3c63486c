import SitePublish.Dict
import SitePublish.Toml.Datetime
import SitePublish.Toml.Number
import SitePublish.Toml.Text

/-!
# TOML documents

Reads a TOML text into a table. A table is defined once: by a header, by dotted keys or in braces.
A header may come after headers of tables below it, and each header in double brackets adds a table
to an array.
-/

set_option autoImplicit false

namespace SitePublish.Toml

/-- How a table came to be: by a header or in braces, as the parent of such a table, or by a dotted
key. -/
inductive TableKind where
  | explicit
  | parent
  | dotted
deriving DecidableEq

inductive Node where
  | leaf (v : Value)
  | table (kind : TableKind) (entries : List (String × Node))
  /-- An array of tables that headers fill, the last one first. -/
  | tables (items : List (List (String × Node)))

abbrev Entries := List (String × Node)

namespace Node

mutual

def toValue : Node → Value
  | .leaf v => v
  | .table _ entries => .table (toEntries entries)
  | .tables items => .array (toItems items).reverse

def toEntries : List (String × Node) → List (String × Value)
  | [] => []
  | (k, n) :: rest => (k, toValue n) :: toEntries rest

def toItems : List (List (String × Node)) → List Value
  | [] => []
  | entries :: rest => .table (toEntries entries) :: toItems rest

end

end Node

namespace Entries

/-- Enters a value under a key whose dotted part is `path`; `isOpen` tells whether dotted keys may
add to these entries. -/
def putDotted (key : String) (v : Value) : List String → Bool → Entries → Option Entries
  | [], isOpen, es =>
    if isOpen && !Dict.contains es key then some (Dict.put es key (.leaf v)) else none
  | p :: path, _, es =>
    match Dict.get? es p with
    | none => (putDotted key v path true []).map fun inner => Dict.put es p (.table .dotted inner)
    | some (.table kind inner) =>
      if kind = .explicit then none
      else (putDotted key v path (kind = .dotted) inner).map fun inner =>
        Dict.put es p (.table kind inner)
    | some (.tables (last :: before)) =>
      (putDotted key v path false last).map fun last => Dict.put es p (.tables (last :: before))
    | some _ => none

/-- Changes the entries that a header's path leads to; a path through an array of tables leads into
its last table. -/
def modify {α : Type} (change : Entries → Option (Entries × α)) :
    List String → Entries → Option (Entries × α)
  | [], es => change es
  | p :: path, es =>
    match Dict.get? es p with
    | none =>
      (modify change path []).map fun (inner, a) => (Dict.put es p (.table .parent inner), a)
    | some (.table kind inner) =>
      (modify change path inner).map fun (inner, a) => (Dict.put es p (.table kind inner), a)
    | some (.tables (last :: before)) =>
      (modify change path last).map fun (last, a) =>
        (Dict.put es p (.tables (last :: before)), a)
    | some _ => none

def takeParent (key : String) (es : Entries) : Option (Entries × Entries) :=
  match Dict.get? es key with
  | none => some (es, [])
  | some (.table .parent inner) => some (Dict.erase es key, inner)
  | some _ => none

def checkArray (key : String) (es : Entries) : Option (Entries × Entries) :=
  match Dict.get? es key with
  | none | some (.tables _) => some (es, [])
  | some _ => none

def putTable (key : String) (table : Entries) (es : Entries) : Option (Entries × Unit) :=
  some (Dict.put es key (.table .explicit table), ())

def pushTable (key : String) (table : Entries) (es : Entries) : Option (Entries × Unit) :=
  match Dict.get? es key with
  | none => some (Dict.put es key (.tables [table]), ())
  | some (.tables items) => some (Dict.put es key (.tables (table :: items)), ())
  | some _ => none

end Entries

def splitLast : List String → Option (List String × String)
  | [] => none
  | [key] => some ([], key)
  | p :: rest => (splitLast rest).map fun (path, key) => (p :: path, key)

def word? (w : List Char) (v : Value) (s : List Char) : Option (Value × List Char) :=
  if w.isPrefixOf s then some (v, s.drop w.length) else none

def scalar? (s : List Char) : Option (Value × List Char) :=
  match s with
  | [] => none
  | c :: _ =>
    if c = '"' || c = '\'' then (string? s).map fun (t, rest) => (.string t, rest)
    else if c = 't' then word? ['t', 'r', 'u', 'e'] (.boolean true) s
    else if c = 'f' then word? ['f', 'a', 'l', 's', 'e'] (.boolean false) s
    else if startsDate s || startsTime s then datetime? s
    else number? s

mutual

/-- Reads a value nested at most `depth` deep; `fuel` exceeds the number of characters. -/
def value? (depth : Nat) : Nat → List Char → Option (Value × List Char)
  | 0, _ => none
  | fuel + 1, '[' :: rest =>
    match depth with
    | 0 => none
    | depth + 1 =>
      match skipGaps false rest with
      | ']' :: rest => some (.array [], rest)
      | rest => (items? depth fuel rest).map fun (vs, rest) => (.array vs, rest)
  | fuel + 1, '\x7b' :: rest =>
    match depth with
    | 0 => none
    | depth + 1 =>
      match skipSpace rest with
      | '\x7d' :: rest => some (.table [], rest)
      | rest =>
        (pairs? depth fuel [] rest).map fun (es, rest) => (.table (Node.toEntries es), rest)
  | _ + 1, s => scalar? s

def items? (depth : Nat) : Nat → List Char → Option (List Value × List Char)
  | 0, _ => none
  | fuel + 1, s =>
    match value? depth fuel s with
    | none => none
    | some (v, rest) =>
      match skipGaps false rest with
      | ']' :: rest => some ([v], rest)
      | ',' :: rest =>
        match skipGaps false rest with
        | ']' :: rest => some ([v], rest)
        | rest => (items? depth fuel rest).map fun (vs, rest) => (v :: vs, rest)
      | _ => none

def pairs? (depth : Nat) : Nat → Entries → List Char → Option (Entries × List Char)
  | 0, _, _ => none
  | fuel + 1, es, s => do
    let (path, rest) ← key? s
    let (path, key) ← splitLast path
    match rest with
    | '=' :: rest =>
      let (v, rest) ← value? depth fuel (skipSpace rest)
      let es ← es.putDotted key v path true
      match skipSpace rest with
      | '\x7d' :: rest => some (es, rest)
      | ',' :: rest => pairs? depth fuel es rest
      | _ => none
    | _ => none

end

structure Draft where
  root : Entries
  current : Entries
  /-- The path of the current table; the root has none. -/
  path : List String
  isArray : Bool

namespace Draft

def empty : Draft := ⟨[], [], [], false⟩

def close (d : Draft) : Option Entries :=
  match splitLast d.path with
  | none => some d.current
  | some (path, key) =>
    let put := if d.isArray then Entries.pushTable key d.current else Entries.putTable key d.current
    (Entries.modify put path d.root).map Prod.fst

def start (d : Draft) (path : List String) (isArray : Bool) : Option Draft := do
  let root ← d.close
  let (above, key) ← splitLast path
  let take := if isArray then Entries.checkArray key else Entries.takeParent key
  let (root, current) ← Entries.modify take above root
  return ⟨root, current, path, isArray⟩

def add (d : Draft) (path : List String) (v : Value) : Option Draft := do
  let (above, key) ← splitLast path
  return { d with current := ← d.current.putDotted key v above true }

end Draft

def closeHeader (isArray : Bool) : List Char → Option (List Char)
  | ']' :: ']' :: rest => if isArray then lineTail? rest else none
  | ']' :: rest => if isArray then none else lineTail? rest
  | _ => none

def header? (d : Draft) (isArray : Bool) (s : List Char) : Option (Draft × List Char) := do
  let (path, rest) ← key? s
  let rest ← closeHeader isArray rest
  return (← d.start path isArray, rest)

def entry? (d : Draft) (s : List Char) : Option (Draft × List Char) := do
  let (path, rest) ← key? s
  match rest with
  | '=' :: rest =>
    let (v, rest) ← value? nestingLimit (rest.length + 1) (skipSpace rest)
    let rest ← lineTail? rest
    return (← d.add path v, rest)
  | _ => none

def line? (d : Draft) (s : List Char) : Option (Draft × List Char) :=
  match s with
  | '[' :: '[' :: rest => header? d true rest
  | '[' :: rest => header? d false rest
  | '#' :: rest => (lineEnd? (rest.dropWhile isText)).map fun rest => (d, rest)
  | s =>
    match newline? s with
    | some rest => some (d, rest)
    | none => entry? d s

/-- Reads lines; `fuel` exceeds the number of characters. -/
def lines? : Nat → Draft → List Char → Option Draft
  | 0, _, _ => none
  | fuel + 1, d, s =>
    match skipSpace s with
    | [] => some d
    | s =>
      match line? d s with
      | some (d, rest) => lines? fuel d rest
      | none => none

def withoutMark : List Char → List Char
  | '\ufeff' :: rest => rest
  | s => s

def parse? (text : String) : Option (List (String × Value)) := do
  let s := withoutMark text.toList
  let d ← lines? (s.length + 1) .empty s
  return Node.toEntries (← d.close)

end SitePublish.Toml
