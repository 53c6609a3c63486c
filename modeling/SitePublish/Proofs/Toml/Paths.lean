import SitePublish.Proofs.Dict
import SitePublish.Toml.Document

/-!
# Paths of keys

The paths that lead to the entries of a table. What a reading has put together has no other paths than those
of the headers and keys that it has read: each change of a draft keeps its paths among given ones, as long as
the beginnings of the path that is added are given ones too.
-/

set_option autoImplicit false

namespace SitePublish.Toml

/-- The path leads to an entry, from table to table. -/
inductive Reaches : List (String × Value) → List String → Prop
  | key {es : List (String × Value)} {k : String} {v : Value} (mem : (k, v) ∈ es) : Reaches es [k]
  | inner {es inner : List (String × Value)} {k : String} {keys : List String}
      (mem : (k, .table inner) ∈ es) (below : Reaches inner keys) : Reaches es (k :: keys)

inductive Entries.Reaches : Entries → List String → Prop
  | key {es : Entries} {k : String} {n : Node} (mem : (k, n) ∈ es) : Entries.Reaches es [k]
  | leaf {es : Entries} {inner : List (String × Value)} {k : String} {keys : List String}
      (mem : (k, .leaf (.table inner)) ∈ es) (below : Toml.Reaches inner keys) :
      Entries.Reaches es (k :: keys)
  | table {es inner : Entries} {kind : TableKind} {k : String} {keys : List String}
      (mem : (k, .table kind inner) ∈ es) (below : Entries.Reaches inner keys) :
      Entries.Reaches es (k :: keys)
  | tables {es inner : Entries} {items : List Entries} {k : String} {keys : List String}
      (mem : (k, .tables items) ∈ es) (item : inner ∈ items) (below : Entries.Reaches inner keys) :
      Entries.Reaches es (k :: keys)

theorem exists_of_mem_toEntries {es : Entries} {k : String} {v : Value}
    (h : (k, v) ∈ Node.toEntries es) : ∃ n, (k, n) ∈ es ∧ n.toValue = v := by
  induction es with
  | nil => cases h
  | cons e es ih =>
    rcases List.mem_cons.mp h with same | later
    · cases same
      exact ⟨e.2, List.mem_cons_self, rfl⟩
    · obtain ⟨n, mem, same⟩ := ih later
      exact ⟨n, List.mem_cons_of_mem e mem, same⟩

theorem reaches_of_toEntries {es : Entries} {keys : List String}
    (h : Reaches (Node.toEntries es) keys) : es.Reaches keys := by
  generalize same : Node.toEntries es = vs at h
  induction h generalizing es with
  | key mem =>
    subst same
    obtain ⟨n, mem, -⟩ := exists_of_mem_toEntries mem
    exact .key mem
  | inner mem below ih =>
    subst same
    obtain ⟨n, mem, value⟩ := exists_of_mem_toEntries mem
    cases n with
    | leaf v =>
      rw [Node.toValue] at value
      subst value
      exact .leaf mem below
    | table kind inner =>
      rw [Node.toValue] at value
      exact .table mem (ih (Value.table.inj value))
    | tables items =>
      rw [Node.toValue] at value
      cases value

/-! The paths of a table that is being read, all among given ones. -/

section Within

variable {W : List String → Prop} {base : List String}

/-- Every path that leads into the entries is a given one, behind the path of the entries. -/
def Entries.Within (W : List String → Prop) (base : List String) (es : Entries) : Prop :=
  ∀ keys, es.Reaches keys → W (base ++ keys)

def Value.Within (W : List String → Prop) (base : List String) (v : Value) : Prop :=
  ∀ inner keys, v = .table inner → Reaches inner keys → W (base ++ keys)

def Node.Within (W : List String → Prop) (base : List String) : Node → Prop
  | .leaf v => v.Within W base
  | .table _ inner => Entries.Within W base inner
  | .tables items => ∀ inner ∈ items, Entries.Within W base inner

theorem Entries.within_iff {es : Entries} :
    es.Within W base ↔ ∀ e ∈ es, W (base ++ [e.1]) ∧ e.2.Within W (base ++ [e.1]) := by
  constructor
  · rintro h ⟨k, n⟩ mem
    refine ⟨h [k] (.key mem), ?_⟩
    cases n with
    | leaf v =>
      rintro inner keys rfl below
      rw [List.append_assoc]
      exact h _ (.leaf mem below)
    | table kind inner =>
      intro keys below
      rw [List.append_assoc]
      exact h _ (.table mem below)
    | tables items =>
      intro inner item keys below
      rw [List.append_assoc]
      exact h _ (.tables mem item below)
  · intro h keys reaches
    cases reaches with
    | key mem => exact (h _ mem).1
    | leaf mem below => exact List.append_cons .. ▸ (h _ mem).2 _ _ rfl below
    | table mem below => exact List.append_cons .. ▸ (h _ mem).2 _ below
    | tables mem item below => exact List.append_cons .. ▸ (h _ mem).2 _ item _ below

theorem Entries.within_nil : Entries.Within W base [] :=
  Entries.within_iff.mpr fun _ h => absurd h List.not_mem_nil

theorem Entries.Within.of_get? {es : Entries} (h : es.Within W base) {k : String} {n : Node}
    (found : Dict.get? es k = some n) : n.Within W (base ++ [k]) :=
  (Entries.within_iff.mp h _ (Dict.mem_of_get? found)).2

theorem Entries.Within.put {es : Entries} (h : es.Within W base) {k : String} {n : Node}
    (hk : W (base ++ [k])) (hn : n.Within W (base ++ [k])) :
    Entries.Within W base (Dict.put es k n) := by
  refine Entries.within_iff.mpr fun e he => ?_
  rcases Dict.eq_or_mem_of_mem_put he with rfl | old
  · exact ⟨hk, hn⟩
  · exact Entries.within_iff.mp h e old

theorem Entries.Within.putLast {es last last' : Entries} {before : List Entries} {k : String}
    (h : es.Within W base) (found : Dict.get? es k = some (.tables (last :: before)))
    (hk : W (base ++ [k])) (hlast : last'.Within W (base ++ [k])) :
    Entries.Within W base (Dict.put es k (.tables (last' :: before))) :=
  h.put hk (List.forall_mem_cons.mpr ⟨hlast, (List.forall_mem_cons.mp (h.of_get? found)).2⟩)

theorem Entries.Within.of_last {es last : Entries} {before : List Entries} {k : String}
    (h : es.Within W base) (found : Dict.get? es k = some (.tables (last :: before))) :
    last.Within W (base ++ [k]) :=
  h.of_get? found last List.mem_cons_self

theorem Entries.Within.erase {es : Entries} (h : es.Within W base) (k : String) :
    Entries.Within W base (Dict.erase es k) :=
  Entries.within_iff.mpr fun e he => Entries.within_iff.mp h e (Dict.mem_of_mem_erase he)

def Begins (W : List String → Prop) (base path : List String) : Prop :=
  ∀ keys, keys ≠ [] → keys <+: path → W (base ++ keys)

theorem Begins.head {k : String} {path : List String} (h : Begins W base (k :: path)) :
    W (base ++ [k]) :=
  h [k] (List.cons_ne_nil k []) (List.prefix_append [k] path)

theorem Begins.tail {k : String} {path : List String} (h : Begins W base (k :: path)) :
    Begins W (base ++ [k]) path := by
  intro keys _ start
  rw [List.append_assoc]
  exact h (k :: keys) (List.cons_ne_nil k keys) ((List.prefix_cons_inj k).mpr start)

theorem Begins.front {path rest : List String} (h : Begins W base (path ++ rest)) :
    Begins W base path :=
  fun keys ne start => h keys ne (start.trans (List.prefix_append path rest))

theorem Begins.all {path : List String} (h : Begins W base path) (ne : path ≠ []) :
    W (base ++ path) :=
  h path ne List.prefix_rfl

theorem Entries.Within.putDotted {es es' : Entries} {key : String} {v : Value} {path : List String}
    {isOpen : Bool} (h : es.Within W base) (begins : Begins W base (path ++ [key]))
    (hv : v.Within W (base ++ (path ++ [key]))) (put : es.putDotted key v path isOpen = some es') :
    es'.Within W base := by
  induction path generalizing base es es' isOpen with
  | nil =>
    rw [Entries.putDotted] at put
    split at put
    · cases put
      exact h.put begins.head hv
    · cases put
  | cons p path ih =>
    have deeper : v.Within W (base ++ [p] ++ (path ++ [key])) := by
      rw [List.append_assoc]
      exact hv
    rw [Entries.putDotted] at put
    split at put
    · obtain ⟨inner, hput, rfl⟩ := Option.map_eq_some_iff.mp put
      exact h.put begins.head (ih Entries.within_nil begins.tail deeper hput)
    · next kind inner found =>
      split at put
      · cases put
      · obtain ⟨inner', hput, rfl⟩ := Option.map_eq_some_iff.mp put
        exact h.put begins.head (ih (h.of_get? found) begins.tail deeper hput)
    · next last before found =>
      obtain ⟨last', hput, rfl⟩ := Option.map_eq_some_iff.mp put
      exact h.putLast found begins.head (ih (h.of_last found) begins.tail deeper hput)
    · cases put

/-- A change that keeps the entries at a path within the given paths keeps the whole table so. -/
theorem Entries.Within.modify {α : Type} {change : Entries → Option (Entries × α)} {P : α → Prop}
    {es es' : Entries} {path : List String} {a : α} (h : es.Within W base)
    (begins : Begins W base path)
    (keeps : ∀ es es' a, change es = some (es', a) → es.Within W (base ++ path) →
      es'.Within W (base ++ path) ∧ P a)
    (changed : es.modify change path = some (es', a)) : es'.Within W base ∧ P a := by
  induction path generalizing base es es' with
  | nil =>
    rw [List.append_nil] at keeps
    exact keeps es es' a changed h
  | cons p path ih =>
    have deeper : ∀ es es' a, change es = some (es', a) → es.Within W (base ++ [p] ++ path) →
        es'.Within W (base ++ [p] ++ path) ∧ P a := by
      rw [List.append_assoc]
      exact keeps
    rw [Entries.modify] at changed
    split at changed
    · obtain ⟨⟨inner, b⟩, hchange, same⟩ := Option.map_eq_some_iff.mp changed
      cases same
      obtain ⟨within, holds⟩ := ih Entries.within_nil begins.tail deeper hchange
      exact ⟨h.put begins.head within, holds⟩
    · next kind inner found =>
      obtain ⟨⟨inner', b⟩, hchange, same⟩ := Option.map_eq_some_iff.mp changed
      cases same
      obtain ⟨within, holds⟩ := ih (h.of_get? found) begins.tail deeper hchange
      exact ⟨h.put begins.head within, holds⟩
    · next last before found =>
      obtain ⟨⟨last', b⟩, hchange, same⟩ := Option.map_eq_some_iff.mp changed
      cases same
      obtain ⟨within, holds⟩ := ih (h.of_last found) begins.tail deeper hchange
      exact ⟨h.putLast found begins.head within, holds⟩
    · cases changed

theorem splitLast_eq_none_iff {path : List String} : splitLast path = none ↔ path = [] := by
  induction path with
  | nil => simp [splitLast]
  | cons p path ih =>
    cases path with
    | nil => simp [splitLast]
    | cons q path => simpa [splitLast] using ih

theorem eq_of_splitLast {path above : List String} {key : String}
    (h : splitLast path = some (above, key)) : path = above ++ [key] := by
  induction path generalizing above with
  | nil => cases h
  | cons p path ih =>
    cases path with
    | nil =>
      cases h
      rfl
    | cons q path =>
      obtain ⟨⟨above', key'⟩, last, same⟩ := Option.map_eq_some_iff.mp h
      cases same
      rw [ih last, List.cons_append]

section Changes

variable {es es' table : Entries} {key : String} {u : Unit}

theorem Entries.Within.putTable (h : es.Within W base) (hk : W (base ++ [key]))
    (ht : table.Within W (base ++ [key])) (put : Entries.putTable key table es = some (es', u)) :
    es'.Within W base := by
  cases put
  exact h.put hk ht

theorem Entries.Within.pushTable (h : es.Within W base) (hk : W (base ++ [key]))
    (ht : table.Within W (base ++ [key])) (push : Entries.pushTable key table es = some (es', u)) :
    es'.Within W base := by
  unfold Entries.pushTable at push
  split at push
  · cases push
    exact h.put hk fun item mem => List.mem_singleton.mp mem ▸ ht
  · next items found =>
    cases push
    exact h.put hk (List.forall_mem_cons.mpr ⟨ht, h.of_get? found⟩)
  · cases push

theorem Entries.Within.takeParent (h : es.Within W base)
    (take : Entries.takeParent key es = some (es', table)) :
    es'.Within W base ∧ table.Within W (base ++ [key]) := by
  unfold Entries.takeParent at take
  split at take
  · cases take
    exact ⟨h, Entries.within_nil⟩
  · next found =>
    cases take
    exact ⟨h.erase key, h.of_get? found⟩
  · cases take

theorem Entries.Within.checkArray (h : es.Within W base)
    (check : Entries.checkArray key es = some (es', table)) :
    es'.Within W base ∧ table.Within W (base ++ [key]) := by
  unfold Entries.checkArray at check
  split at check
  · cases check
    exact ⟨h, Entries.within_nil⟩
  · cases check
    exact ⟨h, Entries.within_nil⟩
  · cases check

end Changes

structure Draft.Within (W : List String → Prop) (d : Draft) : Prop where
  root : d.root.Within W []
  current : d.current.Within W d.path
  begins : Begins W [] d.path

variable {d d' : Draft}

theorem Draft.within_empty : Draft.empty.Within W :=
  ⟨Entries.within_nil, Entries.within_nil, fun _ ne start => absurd (List.prefix_nil.mp start) ne⟩

theorem Draft.Within.close {es : Entries} (h : d.Within W) (closed : d.close = some es) :
    es.Within W [] := by
  unfold Draft.close at closed
  split at closed
  · next root =>
    cases closed
    exact splitLast_eq_none_iff.mp root ▸ h.current
  · next above key last =>
    have path := eq_of_splitLast last
    have begins : Begins W [] (above ++ [key]) := path ▸ h.begins
    have own : W (above ++ [key]) := begins.all (List.concat_ne_nil key above)
    have current : d.current.Within W (above ++ [key]) := path ▸ h.current
    obtain ⟨⟨es', u⟩, hmodify, rfl⟩ := Option.map_eq_some_iff.mp closed
    refine (h.root.modify (P := fun _ => True) begins.front ?_ hmodify).1
    intro inner inner' _ put within
    split at put
    · exact ⟨within.pushTable own current put, trivial⟩
    · exact ⟨within.putTable own current put, trivial⟩

theorem Draft.Within.start {path : List String} {isArray : Bool} (h : d.Within W)
    (begins : Begins W [] path) (started : d.start path isArray = some d') : d'.Within W := by
  simp only [Draft.start, Option.bind_eq_bind, Option.bind_eq_some_iff] at started
  obtain ⟨root, closed, ⟨above, key⟩, last, ⟨root', current⟩, hmodify, same⟩ := started
  cases same
  obtain rfl := eq_of_splitLast last
  have kept : root'.Within W [] ∧ current.Within W (above ++ [key]) := by
    refine (h.close closed).modify begins.front ?_ hmodify
    intro inner inner' table take within
    split at take
    · exact within.checkArray take
    · exact within.takeParent take
  exact ⟨kept.1, kept.2, begins⟩

theorem Draft.Within.add {path : List String} {v : Value} (h : d.Within W)
    (begins : Begins W d.path path) (hv : v.Within W (d.path ++ path))
    (added : d.add path v = some d') : d'.Within W := by
  simp only [Draft.add, Option.bind_eq_bind, Option.bind_eq_some_iff] at added
  obtain ⟨⟨above, key⟩, last, current, put, same⟩ := added
  cases same
  obtain rfl := eq_of_splitLast last
  exact ⟨h.root, h.current.putDotted begins hv put, h.begins⟩

end Within

end SitePublish.Toml
