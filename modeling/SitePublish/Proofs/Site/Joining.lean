import SitePublish.Proofs.Site.Path

/-!
# Paths below a directory

What a text denotes that is a directory, a slash and the name of a file. Blanks in front of the whole
text are dropped, so a directory that begins with blanks leads somewhere else: never below itself. The
way is the same for every file, and a directory without blanks in front leads to itself.
-/

set_option autoImplicit false

namespace SitePublish

namespace Text

theorem dropWhile_of_solid {b : List Char} (solid : ∀ c ∈ b, isBlank c = false) :
    b.dropWhile isBlank = b := by
  cases b with
  | nil => rfl
  | cons c b =>
    rw [List.dropWhile_cons_of_neg]
    simp [solid c List.mem_cons_self]

theorem trimChars_append (a : List Char) {b : List Char} (solid : ∀ c ∈ b, isBlank c = false)
    (ne : b ≠ []) : trimChars (a ++ b) = a.dropWhile isBlank ++ b := by
  have front : (a ++ b).dropWhile isBlank = a.dropWhile isBlank ++ b := by
    rw [List.dropWhile_append, dropWhile_of_solid solid]
    split
    · next h => rw [List.isEmpty_iff.mp h, List.nil_append]
    · rfl
  obtain ⟨init, last, rfl⟩ := List.eq_nil_or_concat b |>.resolve_left ne
  have solid_last : isBlank last = false := solid last (by simp)
  rw [trimChars, dropWhileEnds, front, dropWhileEnd]
  simp [solid_last]

end Text

namespace SitePath

/-- A text of segments without blank characters. -/
structure Tidy (s : List Char) : Prop where
  normal : IsNormal s
  solid : ∀ c ∈ s, Text.isBlank c = false

theorem IsNormal.ne_nil {s : List Char} (h : IsNormal s) : s ≠ [] := by
  obtain ⟨segments, ne, proper, rfl⟩ := h
  cases segments with
  | nil => exact absurd rfl ne
  | cons p ps =>
    have hp := (proper p List.mem_cons_self).1
    cases ps with
    | nil => exact hp
    | cons q qs =>
      rw [Text.joinChars_cons (List.cons_ne_nil q qs)]
      simp

theorem IsNormal.backslash_free {s : List Char} (h : IsNormal s) : '\\' ∉ s := by
  obtain ⟨segments, ne, proper, rfl⟩ := h
  exact Text.not_mem_joinChars (by decide) fun p hp => (proper p hp).2.2.2.2

theorem IsNormal.proper {s : List Char} (h : IsNormal s) : ∀ p ∈ Text.splitChars '/' s, IsSegment p := by
  obtain ⟨segments, ne, proper, rfl⟩ := h
  rw [Text.splitChars_joinChars ne fun p hp => (proper p hp).2.2.2.1]
  exact proper

theorem isNormal_iff {s : List Char} : IsNormal s ↔ ∀ p ∈ Text.splitChars '/' s, IsSegment p :=
  ⟨IsNormal.proper, fun h =>
    ⟨_, Text.splitChars_ne_nil '/' s, h, (Text.joinChars_splitChars '/' s).symm⟩⟩

theorem IsNormal.append {a b : List Char} (ha : IsNormal a) (hb : IsNormal b) :
    IsNormal (a ++ '/' :: b) := by
  rw [isNormal_iff, Text.splitChars_append]
  intro p hp
  rcases List.mem_append.mp hp with hp | hp
  · exact ha.proper p hp
  · exact hb.proper p hp

theorem Tidy.append {a b : List Char} (ha : Tidy a) (hb : Tidy b) : Tidy (a ++ '/' :: b) where
  normal := ha.normal.append hb.normal
  solid c hc := by
    rcases List.mem_append.mp hc with hc | hc
    · exact ha.solid c hc
    · rcases List.mem_cons.mp hc with rfl | hc
      · decide
      · exact hb.solid c hc

theorem IsSegment.isKept {s : List Char} (h : IsSegment s) : isKept s = true := by
  simp [SitePath.isKept, h.1, h.2.1]

def entrance (dir : SitePath) : List (List Char) :=
  Text.splitChars '/' (dir.text.toList.dropWhile Text.isBlank)

/-- The directory that a text leads to which begins with this one. -/
def opened (dir : SitePath) : Except PathError SitePath := ofText (dir.text ++ "/")

variable {dir : SitePath} {rest : String}

theorem map_slashed_dropWhile (dir : SitePath) :
    (dir.text.toList.dropWhile Text.isBlank).map slashed =
      dir.text.toList.dropWhile Text.isBlank :=
  map_slashed_of_not_mem fun mem =>
    dir.normal.backslash_free ((List.dropWhile_suffix Text.isBlank).mem mem)

theorem rawSegments_opened (dir : SitePath) : rawSegments (dir.text ++ "/") = dir.entrance ++ [[]] := by
  have solid : ∀ c ∈ ['/'], Text.isBlank c = false := List.forall_mem_singleton.mpr (by decide)
  rw [rawSegments, String.toList_append]
  change Text.splitChars '/' ((Text.trimChars (dir.text.toList ++ ['/'])).map slashed) = _
  rw [Text.trimChars_append _ solid (List.cons_ne_nil _ _), List.map_append, map_slashed_dropWhile]
  exact Text.splitChars_append _ []

theorem rawSegments_below (dir : SitePath) (tidy : Tidy rest.toList) :
    rawSegments (dir.text ++ "/" ++ rest) = dir.entrance ++ Text.splitChars '/' rest.toList := by
  have solid : ∀ c ∈ '/' :: rest.toList, Text.isBlank c = false :=
    List.forall_mem_cons.mpr ⟨by decide, tidy.solid⟩
  rw [rawSegments, String.toList_append, String.toList_append, List.append_assoc]
  change Text.splitChars '/' ((Text.trimChars (dir.text.toList ++ '/' :: rest.toList)).map slashed) = _
  rw [Text.trimChars_append _ solid (List.cons_ne_nil _ _), List.map_append, map_slashed_dropWhile,
    List.map_cons, map_slashed_of_not_mem tidy.normal.backslash_free]
  exact Text.splitChars_append _ _

section Reading

variable {raw : String} {p : SitePath}

theorem ofText_eq_traversal_iff :
    ofText raw = .error .containsTraversal ↔ ['.', '.'] ∈ rawSegments raw := by
  unfold ofText
  split
  · next up => simp [up]
  · next inside =>
    split <;> simp [inside]

theorem ofText_eq_empty_iff : ofText raw = .error .empty ↔
    ['.', '.'] ∉ rawSegments raw ∧ (rawSegments raw).filter isKept = [] := by
  unfold ofText
  split
  · next up => simp [up]
  · next inside =>
    split
    · next none => simp only [inside, none, not_false_eq_true, and_self]
    · next some => simp only [some, reduceCtorEq, and_false]

theorem exists_ofText_of_kept (inside : ['.', '.'] ∉ rawSegments raw)
    (some : (rawSegments raw).filter isKept ≠ []) : ∃ p, ofText raw = .ok p ∧
      p.text.toList = Text.joinChars '/' ((rawSegments raw).filter isKept) := by
  unfold ofText
  rw [dif_neg inside, dif_neg some]
  exact ⟨_, rfl, String.toList_ofList⟩

theorem inside_of_ofText (h : ofText raw = .ok p) : ['.', '.'] ∉ rawSegments raw := by
  intro up
  rw [ofText_eq_traversal_iff.mpr up] at h
  cases h

end Reading

section Tidy

variable (tidy : Tidy rest.toList)
include tidy

theorem up_below_iff : ['.', '.'] ∈ rawSegments (dir.text ++ "/" ++ rest) ↔
    ['.', '.'] ∈ rawSegments (dir.text ++ "/") := by
  have inside : ['.', '.'] ∉ Text.splitChars '/' rest.toList :=
    fun mem => (tidy.normal.proper _ mem).2.2.1 rfl
  rw [rawSegments_below dir tidy, rawSegments_opened, List.mem_append, List.mem_append]
  simp [inside]

theorem kept_below : (rawSegments (dir.text ++ "/" ++ rest)).filter isKept =
    (rawSegments (dir.text ++ "/")).filter isKept ++ Text.splitChars '/' rest.toList := by
  have all : (Text.splitChars '/' rest.toList).filter isKept = Text.splitChars '/' rest.toList :=
    List.filter_eq_self.mpr fun p hp => (tidy.normal.proper p hp).isKept
  have empty : [([] : List Char)].filter isKept = [] := by decide
  rw [rawSegments_below dir tidy, rawSegments_opened, List.filter_append, List.filter_append, all,
    empty, List.append_nil]

theorem below_of_opened {q : SitePath} (h : dir.opened = .ok q) :
    ∃ p, ofText (dir.text ++ "/" ++ rest) = .ok p ∧
      p.text.toList = q.text.toList ++ '/' :: rest.toList := by
  have inside := mt (up_below_iff tidy).mp (inside_of_ofText h)
  obtain ⟨text, some⟩ := toList_of_ofText h
  have kept : (rawSegments (dir.text ++ "/" ++ rest)).filter isKept ≠ [] := by
    rw [kept_below tidy]
    exact List.append_ne_nil_of_left_ne_nil some _
  obtain ⟨p, ok, text_below⟩ := exists_ofText_of_kept inside kept
  refine ⟨p, ok, ?_⟩
  rw [text_below, kept_below tidy, Text.joinChars_append some (Text.splitChars_ne_nil _ _), ← text,
    Text.joinChars_splitChars]

theorem below_of_empty (h : dir.opened = .error .empty) :
    ∃ p, ofText (dir.text ++ "/" ++ rest) = .ok p ∧ p.text.toList = rest.toList := by
  obtain ⟨inside, none⟩ := ofText_eq_empty_iff.mp h
  have kept : (rawSegments (dir.text ++ "/" ++ rest)).filter isKept =
      Text.splitChars '/' rest.toList := by
    rw [kept_below tidy, none, List.nil_append]
  obtain ⟨p, ok, text⟩ := exists_ofText_of_kept (mt (up_below_iff tidy).mp inside)
    (kept ▸ Text.splitChars_ne_nil _ _)
  exact ⟨p, ok, by rw [text, kept, Text.joinChars_splitChars]⟩

theorem below_of_traversal (h : dir.opened = .error .containsTraversal) :
    ofText (dir.text ++ "/" ++ rest) = .error .containsTraversal :=
  ofText_eq_traversal_iff.mpr ((up_below_iff tidy).mpr (ofText_eq_traversal_iff.mp h))

end Tidy

theorem IsNormal.getLast?_ne {s : List Char} (h : IsNormal s) : s.getLast? ≠ some '/' := by
  obtain ⟨segments, ne, proper, rfl⟩ := h
  induction segments with
  | nil => exact absurd rfl ne
  | cons p ps ih =>
    obtain ⟨first, others⟩ := List.forall_mem_cons.mp proper
    cases ps with
    | nil => exact fun last => first.2.2.2.1 (List.mem_of_getLast? last)
    | cons q qs =>
      have ne : Text.joinChars '/' (q :: qs) ≠ [] :=
        IsNormal.ne_nil ⟨q :: qs, List.cons_ne_nil q qs, others, rfl⟩
      rw [Text.joinChars_cons (List.cons_ne_nil q qs), List.append_cons, List.getLast?_append_of_ne_nil _ ne]
      exact ih (List.cons_ne_nil q qs) others

/-- There are no slashes at the end of a path that would not count. -/
theorem bare (p : SitePath) : Text.dropWhileEnd (· = '/') p.text.toList = p.text.toList := by
  have last := p.normal.getLast?_ne
  generalize p.text.toList = s at last ⊢
  rcases List.eq_nil_or_concat s with rfl | ⟨init, c, rfl⟩
  · rfl
  · have ne : c ≠ '/' := by simpa using last
    simp [Text.dropWhileEnd, ne]

theorem within_append {p q : SitePath} {rest : List Char}
    (h : p.text.toList = q.text.toList ++ '/' :: rest) : p.isUnder q.text = true :=
  (isUnder_iff p q.text q.bare).mpr (inside_segmentsOf_iff.mpr ⟨rest, h⟩).1

/-- A directory that begins with no blank. -/
def IsFlush (dir : SitePath) : Prop := ∀ c ∈ dir.text.toList.head?, Text.isBlank c = false

instance (dir : SitePath) : Decidable dir.IsFlush :=
  inferInstanceAs (Decidable (∀ c ∈ dir.text.toList.head?, _))

theorem ofText_of_pieces {raw : String} {p : SitePath} {front back : List (List Char)}
    (pieces : rawSegments raw = front ++ Text.splitChars '/' p.text.toList ++ back)
    (empty_front : ∀ s ∈ front, s = []) (empty_back : ∀ s ∈ back, s = []) : ofText raw = .ok p := by
  have all : ∀ s ∈ Text.splitChars '/' p.text.toList, IsSegment s := p.normal.proper
  have dropped {empties : List (List Char)} (h : ∀ s ∈ empties, s = []) :
      empties.filter isKept = [] :=
    List.filter_eq_nil_iff.mpr fun s hs => by simp [isKept, h s hs]
  have kept : (rawSegments raw).filter isKept = Text.splitChars '/' p.text.toList := by
    rw [pieces, List.filter_append, List.filter_append, dropped empty_front, dropped empty_back,
      List.nil_append, List.append_nil]
    exact List.filter_eq_self.mpr fun s hs => (all s hs).isKept
  have inside : ['.', '.'] ∉ rawSegments raw := by
    rw [pieces, List.mem_append, List.mem_append]
    rintro ((mem | mem) | mem)
    · cases empty_front _ mem
    · exact (all _ mem).2.2.1 rfl
    · cases empty_back _ mem
  obtain ⟨q, ok, text⟩ := exists_ofText_of_kept inside (kept ▸ Text.splitChars_ne_nil _ _)
  rw [kept, Text.joinChars_splitChars] at text
  rw [ok, text_injective (String.toList_injective text)]

theorem opened_of_flush (h : dir.IsFlush) : dir.opened = .ok dir := by
  have front : dir.text.toList.dropWhile Text.isBlank = dir.text.toList := by
    unfold IsFlush at h
    cases hs : dir.text.toList with
    | nil => rfl
    | cons c s =>
      rw [hs] at h
      rw [List.dropWhile_cons_of_neg]
      simpa using h
  have pieces : rawSegments (dir.text ++ "/") =
      [] ++ Text.splitChars '/' dir.text.toList ++ [[]] := by
    rw [rawSegments_opened, entrance, front, List.nil_append]
  exact ofText_of_pieces pieces nofun (List.forall_mem_singleton.mpr rfl)

/-- Every path is denoted by a text, one that begins with a blank behind a slash. -/
theorem exists_ofText (p : SitePath) : ∃ raw, ofText raw = .ok p := by
  have solid : ∀ c ∈ ['/'], Text.isBlank c = false := List.forall_mem_singleton.mpr (by decide)
  have front : ('/' :: p.text.toList).dropWhile Text.isBlank = '/' :: p.text.toList :=
    List.dropWhile_cons_of_neg (by decide)
  have plain : (('/' :: p.text.toList) ++ ['/']).map slashed = ('/' :: p.text.toList) ++ ['/'] :=
    map_slashed_of_not_mem (by simp [p.normal.backslash_free])
  have pieces : rawSegments ("/" ++ p.text ++ "/") =
      [[]] ++ Text.splitChars '/' p.text.toList ++ [[]] := by
    rw [rawSegments, String.toList_append, String.toList_append]
    change Text.splitChars '/' ((Text.trimChars (('/' :: p.text.toList) ++ ['/'])).map slashed) = _
    rw [Text.trimChars_append _ solid (List.cons_ne_nil _ _), front, plain, Text.splitChars_append]
    exact congrArg (· ++ _) (Text.splitChars_append [] p.text.toList)
  have ends : ∀ s ∈ [([] : List Char)], s = [] := List.forall_mem_singleton.mpr rfl
  exact ⟨_, ofText_of_pieces pieces ends ends⟩

theorem isBlank_slashed (c : Char) : Text.isBlank (slashed c) = Text.isBlank c := by
  unfold slashed
  split
  · next h =>
    subst h
    decide
  · rfl

theorem countP_isBlank_le {raw : String} {p : SitePath} (h : ofText raw = .ok p) :
    p.text.toList.countP Text.isBlank ≤ (Text.trimChars raw.toList).countP Text.isBlank := by
  have pieces : p.text.toList.Sublist ((Text.trimChars raw.toList).map slashed) := by
    rw [(toList_of_ofText h).1]
    conv => rhs; rw [← Text.joinChars_splitChars '/' ((Text.trimChars raw.toList).map slashed)]
    exact Text.joinChars_filter_sublist isKept _
  calc p.text.toList.countP Text.isBlank
      ≤ ((Text.trimChars raw.toList).map slashed).countP Text.isBlank := pieces.countP_le
    _ = (Text.trimChars raw.toList).countP Text.isBlank := by
        rw [List.countP_map]
        exact List.countP_congr fun c _ => by rw [Function.comp_apply, isBlank_slashed]

/-- The blanks in front of a directory get lost, so what is written below it is not. -/
theorem not_isUnder_of_not_flush {p : SitePath} (tidy : Tidy rest.toList) (blank : ¬ dir.IsFlush)
    (h : ofText (dir.text ++ "/" ++ rest) = .ok p) : p.isUnder dir.text = false := by
  have solid : ∀ c ∈ '/' :: rest.toList, Text.isBlank c = false :=
    List.forall_mem_cons.mpr ⟨by decide, tidy.solid⟩
  have none : ('/' :: rest.toList).countP Text.isBlank = 0 :=
    List.countP_eq_zero.mpr fun c hc => by simp [solid c hc]
  have fewer : (dir.text.toList.dropWhile Text.isBlank).countP Text.isBlank <
      dir.text.toList.countP Text.isBlank := by
    unfold IsFlush at blank
    cases hs : dir.text.toList with
    | nil => exact absurd (by simp [hs]) blank
    | cons c s =>
      have first : Text.isBlank c = true := by simpa [hs] using blank
      rw [List.dropWhile_cons_of_pos first, List.countP_cons_of_pos first]
      exact Nat.lt_succ_of_le (List.dropWhile_suffix Text.isBlank).sublist.countP_le
  have count : p.text.toList.countP Text.isBlank < dir.text.toList.countP Text.isBlank := by
    refine Nat.lt_of_le_of_lt (countP_isBlank_le h) ?_
    rw [String.toList_append, String.toList_append, List.append_assoc]
    change (Text.trimChars (dir.text.toList ++ '/' :: rest.toList)).countP Text.isBlank < _
    rwa [Text.trimChars_append _ solid (List.cons_ne_nil _ _), List.countP_append, none, Nat.add_zero]
  rw [← Bool.not_eq_true]
  intro under
  rw [isUnder_iff_text, dir.bare] at under
  rcases under with same | ⟨rest, found⟩
  · rw [same] at count
    exact Nat.lt_irrefl _ count
  · rw [found, List.countP_append] at count
    omega

end SitePath

end SitePublish
