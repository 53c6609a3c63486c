import Mathlib.Data.String.Basic
import SitePublish.Dict
import SitePublish.Site.Path

/-!
# Entries and keys of dictionaries

What a dictionary finds under a key is one of its entries, and it finds something under every key
that it has. Every operation that is used to build a dictionary keeps the keys ascending, so that
each key is there once, for any strict total order of them; paths are ordered like their texts.
-/

set_option autoImplicit false

namespace SitePublish

instance : IsStrictTotalOrder SitePath (· < ·) where
  trichotomous p q h k := by
    obtain ⟨s, hs⟩ := p
    obtain ⟨t, ht⟩ := q
    have : s = t := le_antisymm (not_lt.mp k) (not_lt.mp h)
    subst this
    rfl
  irrefl p := lt_irrefl p.text
  trans p q r h k := lt_trans (a := p.text) (b := q.text) (c := r.text) h k

namespace Dict

variable {κ α β : Type}

def mapValues (f : α → β) (d : Dict κ α) : Dict κ β := d.map fun e => (e.1, f e.2)

theorem keys_map_entries (f : κ → α → β) (d : Dict κ α) :
    keys (d.map fun e => (e.1, f e.1 e.2)) = keys d := by
  simp [keys]

theorem keys_mapValues (f : α → β) (d : Dict κ α) : keys (mapValues f d) = keys d :=
  keys_map_entries (fun _ => f) d

section Lookup

variable [DecidableEq κ]

theorem mem_of_get? {d : Dict κ α} {k : κ} {v : α} (h : get? d k = some v) : (k, v) ∈ d := by
  induction d with
  | nil => simp [get?] at h
  | cons e rest ih =>
    obtain ⟨j, w⟩ := e
    simp only [get?] at h
    split at h
    · next hj =>
      cases h
      simp [hj]
    · exact List.mem_cons_of_mem _ (ih h)

theorem get?_of_mem {d : Dict κ α} (distinct : (keys d).Nodup) {e : κ × α} (h : e ∈ d) :
    get? d e.1 = some e.2 := by
  induction d with
  | nil => cases h
  | cons first rest ih =>
    obtain ⟨fresh, distinct⟩ := List.nodup_cons.mp distinct
    rcases List.mem_cons.mp h with rfl | h
    · exact if_pos rfl
    · have ne : first.1 ≠ e.1 := fun same => fresh (same ▸ List.mem_map_of_mem h)
      rw [get?, if_neg ne, ih distinct h]

theorem get?_append (d e : Dict κ α) (k : κ) : get? (d ++ e) k = (get? d k).or (get? e k) := by
  induction d with
  | nil => rfl
  | cons first d ih =>
    obtain ⟨j, v⟩ := first
    simp only [List.cons_append, get?]
    split
    · rfl
    · exact ih

theorem get?_map_key (key : α → κ) (vs : List α) (k : κ) :
    get? (vs.map fun v => (key v, v)) k = vs.find? fun v => key v = k := by
  induction vs with
  | nil => rfl
  | cons v vs ih => by_cases same : key v = k <;> simp [get?, same, ih]

theorem get?_eq_none_iff {d : Dict κ α} {k : κ} : get? d k = none ↔ k ∉ keys d := by
  induction d with
  | nil => simp [get?, keys]
  | cons e rest ih =>
    obtain ⟨j, w⟩ := e
    simp only [keys, List.map_cons, List.mem_cons, not_or] at ih ⊢
    by_cases hj : j = k
    · simp [get?, hj]
    · simp [get?, hj, ih, Ne.symm hj]

theorem mem_keys_iff {d : Dict κ α} {k : κ} : k ∈ keys d ↔ ∃ v, get? d k = some v := by
  rw [← Option.isSome_iff_exists, ← not_iff_not, ← get?_eq_none_iff]
  simp

theorem get?_perm {d e : Dict κ α} (perm : d.Perm e) (distinct : (keys d).Nodup) (k : κ) :
    get? d k = get? e k := by
  have keys_perm : (keys d).Perm (keys e) := perm.map Prod.fst
  cases found : get? d k with
  | none =>
    have missing := get?_eq_none_iff.mp found
    exact (get?_eq_none_iff.mpr fun there => missing (keys_perm.mem_iff.mpr there)).symm
  | some v =>
    have there : (k, v) ∈ e := perm.mem_iff.mp (mem_of_get? found)
    exact (get?_of_mem (keys_perm.nodup_iff.mp distinct) there).symm

theorem get?_map_entries (f : κ → α → β) (d : Dict κ α) (k : κ) :
    get? (d.map fun e => (e.1, f e.1 e.2)) k = (get? d k).map (f k) := by
  induction d with
  | nil => rfl
  | cons e rest ih =>
    obtain ⟨j, w⟩ := e
    rw [List.map_cons, get?, get?]
    by_cases same : j = k
    · rw [if_pos same, if_pos same, same]
      rfl
    · rw [if_neg same, if_neg same, ih]

theorem get?_mapValues (f : α → β) (d : Dict κ α) (k : κ) :
    get? (mapValues f d) k = (get? d k).map f :=
  get?_map_entries (fun _ => f) d k

theorem mapValues_erase (f : α → β) (d : Dict κ α) (k : κ) :
    mapValues f (erase d k) = erase (mapValues f d) k := by
  simp [mapValues, erase, List.filter_map, Function.comp_def]

theorem put_of_not_mem {d : Dict κ α} {k : κ} (fresh : k ∉ keys d) (v : α) :
    put d k v = d ++ [(k, v)] := by
  induction d with
  | nil => rfl
  | cons e rest ih =>
    obtain ⟨j, w⟩ := e
    obtain ⟨ne, fresh⟩ := not_or.mp (mt List.mem_cons.mpr fresh)
    rw [put, if_neg (Ne.symm ne), ih fresh]
    rfl

theorem keys_put_of_mem {d : Dict κ α} {k : κ} (present : k ∈ keys d) (v : α) :
    keys (put d k v) = keys d := by
  induction d with
  | nil => exact absurd present List.not_mem_nil
  | cons e rest ih =>
    obtain ⟨j, w⟩ := e
    rw [put]
    split
    · rfl
    · next ne =>
      have more := ih ((List.mem_cons.mp present).resolve_left (Ne.symm ne))
      exact congrArg (j :: ·) more

theorem nodup_put {d : Dict κ α} (h : (keys d).Nodup) (k : κ) (v : α) :
    (keys (put d k v)).Nodup := by
  by_cases present : k ∈ keys d
  · rwa [keys_put_of_mem present]
  · rw [put_of_not_mem present, keys, List.map_append]
    refine List.nodup_append.mpr ⟨h, List.pairwise_singleton _ _, fun a ha b hb he => ?_⟩
    rw [he, List.mem_singleton.mp hb] at ha
    exact present ha

theorem eq_or_mem_of_mem_put {d : Dict κ α} {k : κ} {v : α} {e : κ × α} (h : e ∈ put d k v) :
    e = (k, v) ∨ e ∈ d := by
  induction d with
  | nil => exact Or.inl (List.mem_singleton.mp h)
  | cons e' rest ih =>
    obtain ⟨j, w⟩ := e'
    rw [put] at h
    split at h
    · next same =>
      subst same
      exact (List.mem_cons.mp h).imp_right (List.mem_cons_of_mem _)
    · rcases List.mem_cons.mp h with he | hm
      · exact Or.inr (he ▸ List.mem_cons_self)
      · exact (ih hm).imp_right (List.mem_cons_of_mem _)

theorem foldl_put_of_nodup {d entries : Dict κ α} (distinct : (keys (d ++ entries)).Nodup) :
    entries.foldl (fun d e => put d e.1 e.2) d = d ++ entries := by
  induction entries generalizing d with
  | nil => rw [List.foldl_nil, List.append_nil]
  | cons e entries ih =>
    have fresh : e.1 ∉ keys d := by
      rw [keys, List.map_append, List.map_cons, List.nodup_append] at distinct
      exact fun h => distinct.2.2 _ h _ List.mem_cons_self rfl
    rw [List.append_cons] at distinct ⊢
    rw [List.foldl_cons, put_of_not_mem fresh, ih distinct]

theorem nodup_foldl_put {d : Dict κ α} (h : (keys d).Nodup) (entries : List (κ × α)) :
    (keys (entries.foldl (fun d e => put d e.1 e.2) d)).Nodup := by
  induction entries generalizing d with
  | nil => exact h
  | cons e entries ih => exact ih (nodup_put h e.1 e.2)

theorem mem_or_mem_of_mem_foldl_put {d entries : Dict κ α} {e : κ × α}
    (h : e ∈ entries.foldl (fun d e => put d e.1 e.2) d) : e ∈ d ∨ e ∈ entries := by
  induction entries generalizing d with
  | nil => exact Or.inl h
  | cons e' entries ih =>
    rcases ih h with there | later
    · rcases eq_or_mem_of_mem_put there with rfl | old
      · exact Or.inr List.mem_cons_self
      · exact Or.inl old
    · exact Or.inr (List.mem_cons_of_mem _ later)

theorem mem_of_mem_erase {d : Dict κ α} {k : κ} {e : κ × α} (h : e ∈ erase d k) : e ∈ d :=
  (List.mem_filter.mp h).1

end Lookup

section Order

variable [LT κ]

instance [DecidableLT κ] (d : Dict κ α) : Decidable (SortedKeys d) :=
  inferInstanceAs (Decidable (List.Pairwise _ _))

theorem sortedKeys_nil : SortedKeys ([] : Dict κ α) := List.Pairwise.nil

theorem SortedKeys.erase [DecidableEq κ] {d : Dict κ α} (h : SortedKeys d) (k : κ) :
    SortedKeys (d.erase k) :=
  List.Pairwise.sublist (List.filter_sublist.map Prod.fst) h

theorem SortedKeys.nodup [IsStrictTotalOrder κ (· < ·)] {d : Dict κ α} (h : SortedKeys d) :
    (keys d).Nodup :=
  h.imp fun hlt => ne_of_irrefl hlt

variable [DecidableEq κ] [DecidableLT κ]

theorem mapValues_insert (f : α → β) (d : Dict κ α) (k : κ) (v : α) :
    mapValues f (insert d k v) = insert (mapValues f d) k (f v) := by
  induction d with
  | nil => rfl
  | cons e rest ih =>
    obtain ⟨j, w⟩ := e
    simp only [mapValues, List.map_cons, insert] at ih ⊢
    split
    · rfl
    · split
      · rfl
      · simp [ih]

theorem eq_or_mem_of_mem_insert {d : Dict κ α} {k : κ} {v : α} {e : κ × α}
    (h : e ∈ insert d k v) : e = (k, v) ∨ e ∈ d := by
  induction d with
  | nil => exact Or.inl (List.mem_singleton.mp h)
  | cons e' rest ih =>
    obtain ⟨j, w⟩ := e'
    simp only [insert] at h
    split at h
    · rcases List.mem_cons.mp h with he | hm
      · exact Or.inl he
      · exact Or.inr (List.mem_cons_of_mem _ hm)
    · split at h
      · exact List.mem_cons.mp h
      · rcases List.mem_cons.mp h with he | hm
        · exact Or.inr (he ▸ List.mem_cons_self)
        · exact (ih hm).imp_right (List.mem_cons_of_mem _)

theorem get?_insertAll_eq (d : Dict κ α) (entries : List (κ × α)) (k : κ) :
    get? (insertAll d entries) k = (get? entries.reverse k).or (get? d k) := by
  induction entries generalizing d with
  | nil => rfl
  | cons e rest ih =>
    have first : get? (insert d e.1 e.2) k = (get? [e] k).or (get? d k) := by
      rw [get?_insert]
      by_cases same : e.1 = k
      · simp [get?, same]
      · simp [get?, same, Ne.symm same]
    rw [insertAll, List.foldl_cons, ← insertAll, ih, first, List.reverse_cons, get?_append,
      Option.or_assoc]

theorem get?_ofList (entries : List (κ × α)) (k : κ) :
    get? (ofList entries) k = get? entries.reverse k := by
  rw [ofList, get?_insertAll_eq]
  exact Option.or_none

theorem get?_ofList_of_nodup {entries : Dict κ α} (distinct : (keys entries).Nodup) (k : κ) :
    get? (ofList entries) k = get? entries k := by
  rw [get?_ofList]
  exact (get?_perm entries.reverse_perm.symm distinct k).symm

theorem mem_keys_ofList {entries : List (κ × α)} {k : κ} :
    k ∈ keys (ofList entries) ↔ k ∈ keys entries := by
  rw [mem_keys_iff, get?_ofList, ← mem_keys_iff, keys, List.map_reverse, List.mem_reverse, ← keys]

theorem mem_keys_insert {d : Dict κ α} {k j : κ} {v : α} :
    j ∈ keys (insert d k v) ↔ j = k ∨ j ∈ keys d := by
  rw [mem_keys_iff, mem_keys_iff, get?_insert]
  split <;> simp [*]

variable [IsStrictTotalOrder κ (· < ·)]

theorem SortedKeys.insert {d : Dict κ α} (h : SortedKeys d) (k : κ) (v : α) :
    SortedKeys (d.insert k v) := by
  induction d with
  | nil => exact List.pairwise_singleton _ _
  | cons e rest ih =>
    obtain ⟨j, w⟩ := e
    obtain ⟨hj, hrest⟩ := List.pairwise_cons.mp h
    simp only [Dict.insert]
    split
    · next he => exact he ▸ h
    · next hne =>
      split
      · next hlt =>
        refine List.pairwise_cons.mpr ⟨fun i hi => ?_, h⟩
        rcases List.mem_cons.mp hi with rfl | hi
        · exact hlt
        · exact trans_of (· < ·) hlt (hj i hi)
      · next hnlt =>
        refine List.pairwise_cons.mpr ⟨fun i hi => ?_, ih hrest⟩
        rcases mem_keys_insert.mp hi with rfl | hi
        · exact (trichotomous_of (· < ·) j i).resolve_right (not_or.mpr ⟨hne, hnlt⟩)
        · exact hj i hi

theorem sortedKeys_insertAll {d : Dict κ α} (h : SortedKeys d) (entries : List (κ × α)) :
    SortedKeys (d.insertAll entries) := by
  induction entries generalizing d with
  | nil => exact h
  | cons e rest ih => exact ih (h.insert e.1 e.2)

theorem sortedKeys_ofList (entries : List (κ × α)) : SortedKeys (ofList entries) :=
  sortedKeys_insertAll sortedKeys_nil entries

omit [DecidableLT κ] [IsStrictTotalOrder κ (· < ·)] in
theorem SortedKeys.head_lt {j : κ} {w : α} {d : Dict κ α} (h : SortedKeys ((j, w) :: d)) {k : κ}
    (found : (get? d k).isSome = true) : j < k := by
  obtain ⟨v, hv⟩ := Option.isSome_iff_exists.mp found
  exact (List.pairwise_cons.mp h).1 k (mem_keys_iff.mpr ⟨v, hv⟩)

omit [DecidableLT κ] in
theorem SortedKeys.get?_head {j : κ} {w : α} {d : Dict κ α} (h : SortedKeys ((j, w) :: d)) :
    get? d j = none := by
  rw [get?_eq_none_iff]
  exact (List.nodup_cons.mp h.nodup).1

omit [DecidableLT κ] in
theorem SortedKeys.ext {d e : Dict κ α} (hd : SortedKeys d) (he : SortedKeys e)
    (h : ∀ k, get? d k = get? e k) : d = e := by
  induction d generalizing e with
  | nil =>
    cases e with
    | nil => rfl
    | cons x e => cases (h x.1).trans (if_pos rfl)
  | cons x d ih =>
    obtain ⟨i, v⟩ := x
    cases e with
    | nil => cases (h i).symm.trans (if_pos rfl)
    | cons y e =>
      obtain ⟨j, w⟩ := y
      simp only [get?] at h
      -- Each first key is found in the other dictionary, so neither is less.
      have hij : i = j := by
        by_contra ne
        have hi := h i
        have hj := h j
        rw [if_pos rfl, if_neg (Ne.symm ne)] at hi
        rw [if_pos rfl, if_neg ne] at hj
        exact asymm_of (· < ·) (he.head_lt (by rw [← hi]; rfl)) (hd.head_lt (by rw [hj]; rfl))
      subst hij
      have hv := h i
      rw [if_pos rfl, if_pos rfl] at hv
      cases hv
      rw [ih (List.pairwise_cons.mp hd).2 (List.pairwise_cons.mp he).2 fun k => ?_]
      by_cases hk : i = k
      · subst hk
        rw [hd.get?_head, he.get?_head]
      · simpa [hk] using h k

theorem SortedKeys.insert_of_get? {d : Dict κ α} (h : SortedKeys d) {k : κ} {v : α}
    (found : get? d k = some v) : d.insert k v = d :=
  (h.insert k v).ext h fun j => by
    rw [get?_insert]
    split
    · next hj => rw [hj, found]
    · rfl

omit [IsStrictTotalOrder κ (· < ·)] in
theorem mem_of_mem_insertAll {d : Dict κ α} {entries : List (κ × α)} {e : κ × α}
    (h : e ∈ d.insertAll entries) : e ∈ d ∨ e ∈ entries := by
  induction entries generalizing d with
  | nil => exact Or.inl h
  | cons e' rest ih =>
    rcases ih (d := d.insert e'.1 e'.2) h with hd | hr
    · rcases eq_or_mem_of_mem_insert hd with rfl | hd
      · exact Or.inr List.mem_cons_self
      · exact Or.inl hd
    · exact Or.inr (List.mem_cons_of_mem _ hr)

omit [IsStrictTotalOrder κ (· < ·)] in
theorem mem_of_mem_ofList {entries : List (κ × α)} {e : κ × α} (h : e ∈ ofList entries) :
    e ∈ entries :=
  (mem_of_mem_insertAll h).resolve_left (List.not_mem_nil)

omit [IsStrictTotalOrder κ (· < ·)] in
theorem get?_insertAll (d : Dict κ α) {entries : Dict κ α} (distinct : (keys entries).Nodup)
    (k : κ) : get? (insertAll d entries) k = (get? entries k).or (get? d k) := by
  induction entries generalizing d with
  | nil => rfl
  | cons e rest ih =>
    obtain ⟨j, v⟩ := e
    obtain ⟨fresh, hrest⟩ := List.nodup_cons.mp distinct
    rw [insertAll, List.foldl_cons, ← insertAll, ih _ hrest, get?_insert, get?]
    by_cases hj : j = k
    · subst hj
      have hn : get? rest j = none := get?_eq_none_iff.mpr fresh
      simp [hn]
    · simp [hj, Ne.symm hj]

theorem insertAll_of_subset {d entries : Dict κ α} (hd : SortedKeys d) (he : SortedKeys entries)
    (subset : ∀ k ∈ keys d, k ∈ keys entries) : insertAll d entries = entries := by
  refine (sortedKeys_insertAll hd entries).ext he fun k => ?_
  rw [get?_insertAll d he.nodup]
  cases found : get? entries k with
  | some v => rfl
  | none =>
    have missing : get? d k = none :=
      get?_eq_none_iff.mpr fun hk => get?_eq_none_iff.mp found (subset k hk)
    rw [missing]
    rfl

theorem SortedKeys.ofList_eq {d : Dict κ α} (h : SortedKeys d) : ofList d = d :=
  insertAll_of_subset sortedKeys_nil h fun _ hk => absurd hk List.not_mem_nil

end Order

end Dict

end SitePublish
