/-!
# Dictionaries

A dictionary is a list of entries with ascending keys. `insert` keeps the order, replaces the value
of a key that is present, and changes no other key. Looking up compares keys only for equality, so
the lookup laws need nothing of the order.
-/

set_option autoImplicit false

namespace SitePublish

abbrev Dict (κ α : Type) := List (κ × α)

namespace Dict

variable {κ α β : Type} [DecidableEq κ]

def get? (d : Dict κ α) (k : κ) : Option α :=
  match d with
  | [] => none
  | (j, v) :: rest => if j = k then some v else get? rest k

def contains (d : Dict κ α) (k : κ) : Bool := (get? d k).isSome

def keys (d : Dict κ α) : List κ := d.map Prod.fst

def values (d : Dict κ α) : List α := d.map Prod.snd

def erase (d : Dict κ α) (k : κ) : Dict κ α := d.filter fun e => e.1 ≠ k

/-- Keeps the place of a key that is present; a new key goes last. -/
def put (d : Dict κ α) (k : κ) (v : α) : Dict κ α :=
  match d with
  | [] => [(k, v)]
  | (j, w) :: rest => if j = k then (j, v) :: rest else (j, w) :: put rest k v

variable [LT κ] [DecidableLT κ]

def insert (d : Dict κ α) (k : κ) (v : α) : Dict κ α :=
  match d with
  | [] => [(k, v)]
  | (j, w) :: rest =>
    if j = k then (k, v) :: rest
    else if k < j then (k, v) :: (j, w) :: rest
    else (j, w) :: insert rest k v

def insertAll (d : Dict κ α) (entries : List (κ × α)) : Dict κ α :=
  entries.foldl (fun d e => insert d e.1 e.2) d

def ofList (entries : List (κ × α)) : Dict κ α := insertAll [] entries

def SortedKeys (d : Dict κ α) : Prop := (keys d).Pairwise (· < ·)

omit [LT κ] [DecidableLT κ] in
theorem get?_erase (d : Dict κ α) (k j : κ) :
    get? (erase d k) j = if j = k then none else get? d j := by
  induction d with
  | nil => simp [erase, get?]
  | cons e rest ih =>
    obtain ⟨i, w⟩ := e
    simp only [erase] at ih
    by_cases hi : i = k
    · subst hi
      simp only [erase, ne_eq, decide_not, List.filter_cons, decide_true, Bool.not_true,
        Bool.false_eq_true, ↓reduceIte, get?]
      simp only [ne_eq, decide_not] at ih
      rw [ih]
      by_cases hj : j = i
      · simp [hj]
      · simp [hj, Ne.symm hj]
    · simp only [erase, ne_eq, decide_not, List.filter_cons, hi, decide_false, Bool.not_false,
        ↓reduceIte, get?]
      simp only [ne_eq, decide_not] at ih
      rw [ih]
      by_cases hj : i = j
      · subst hj; simp [hi]
      · simp [hj]

theorem get?_insert (d : Dict κ α) (k j : κ) (v : α) :
    get? (insert d k v) j = if j = k then some v else get? d j := by
  induction d with
  | nil =>
    by_cases h : k = j
    · simp [insert, get?, h]
    · simp [insert, get?, h, Ne.symm h]
  | cons e rest ih =>
    obtain ⟨i, w⟩ := e
    by_cases hi : i = k
    · subst hi
      by_cases hj : i = j
      · simp [insert, get?, hj]
      · simp [insert, get?, hj, Ne.symm hj]
    · simp only [insert, hi, ↓reduceIte]
      split
      · by_cases hk : k = j
        · simp [get?, hk]
        · simp [get?, hk, Ne.symm hk]
      · simp only [get?, ih]
        by_cases hj : i = j
        · subst hj; simp [hi]
        · simp [hj]

end Dict

end SitePublish
