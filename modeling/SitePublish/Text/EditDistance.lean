/-!
# Edit distance

The least number of insertions, deletions and substitutions of single members that turn one list
into another, computed row by row: the row of a prefix holds its distances to all prefixes of the
other list.
-/

set_option autoImplicit false

namespace SitePublish.Text

variable {α : Type} [DecidableEq α]

/-- The rest of a new row, where `left` is its last distance so far and `above` the part of the old
row from the same place on. -/
def rowFrom (a : α) : List α → List Nat → Nat → List Nat
  | b :: bs, diagonal :: up :: above, left =>
    let n := min (min (up + 1) (left + 1)) (diagonal + if a = b then 0 else 1)
    n :: rowFrom a bs (up :: above) n
  | _, _, _ => []

def nextRow (bs : List α) (row : List Nat) (a : α) : List Nat :=
  match row with
  | [] => []
  | first :: rest => (first + 1) :: rowFrom a bs (first :: rest) (first + 1)

def firstRow (bs : List α) : List Nat := List.range (bs.length + 1)

def lastRow (as bs : List α) : List Nat := as.foldl (nextRow bs) (firstRow bs)

def editDistance (as bs : List α) : Nat := (lastRow as bs).getLastD 0

end SitePublish.Text
