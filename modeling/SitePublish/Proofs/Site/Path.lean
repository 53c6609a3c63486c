import SitePublish.Proofs.Text.Split
import SitePublish.Site.Path

/-!
# Directories of a path

A path lies in a directory when its segments begin with those of the directory. Comparing texts up to
a slash comes to the same, so no directory holds a path whose segment only begins like it.
-/

set_option autoImplicit false

namespace SitePublish

/-- The directory itself or something in it, by the segments of a path. -/
def Within (dir : String) (segments : List String) : Prop := Text.splitOn '/' dir <+: segments

/-- Something in the directory. -/
def Inside (dir : String) (segments : List String) : Prop :=
  Within dir segments ∧ Text.splitOn '/' dir ≠ segments

instance (dir : String) (segments : List String) : Decidable (Within dir segments) :=
  inferInstanceAs (Decidable (_ <+: _))

instance (dir : String) (segments : List String) : Decidable (Inside dir segments) :=
  inferInstanceAs (Decidable (_ ∧ _))

theorem inside_iff {dir : String} {segments : List String} :
    Inside dir segments ↔ ∃ rest, rest ≠ [] ∧ segments = Text.splitOn '/' dir ++ rest := by
  constructor
  · rintro ⟨⟨rest, rfl⟩, ne⟩
    exact ⟨rest, fun h => ne (by rw [h, List.append_nil]), rfl⟩
  · rintro ⟨rest, ne, rfl⟩
    exact ⟨List.prefix_append _ _, fun h => ne (List.append_right_eq_self.mp h.symm)⟩

namespace SitePath

theorem text_injective : Function.Injective SitePath.text := by
  rintro ⟨s, _⟩ ⟨t, _⟩ h
  cases h
  rfl

def segmentsOf (path : List Char) : List String := (Text.splitChars '/' path).map String.ofList

theorem ofList_injective : Function.Injective String.ofList := fun _ _ => String.ofList_injective

theorem inside_segmentsOf_iff {dir : String} {path : List Char} :
    Inside dir (segmentsOf path) ↔ ∃ rest, path = dir.toList ++ '/' :: rest := by
  rw [inside_iff, Text.exists_append_sep_iff]
  constructor
  · rintro ⟨rest, ne, h⟩
    obtain ⟨front, back, hs, hf, rfl⟩ := List.map_eq_append_iff.mp h
    refine ⟨back, fun hb => ne (by rw [hb, List.map_nil]), ?_⟩
    rw [hs, List.map_injective_iff.mpr ofList_injective hf]
  · rintro ⟨pieces, ne, h⟩
    refine ⟨pieces.map String.ofList, fun hb => ne (List.map_eq_nil_iff.mp hb), ?_⟩
    rw [segmentsOf, h, List.map_append]
    rfl

theorem segments_eq (p : SitePath) : p.segments = segmentsOf p.text.toList := rfl

theorem segmentsOf_append (front path : List Char) :
    segmentsOf (front ++ '/' :: path) = segmentsOf front ++ segmentsOf path := by
  rw [segmentsOf, Text.splitChars_append, List.map_append]
  rfl

theorem segmentsOf_cons {c : List Char} (free : '/' ∉ c) (path : List Char) :
    segmentsOf (c ++ '/' :: path) = String.ofList c :: segmentsOf path := by
  rw [segmentsOf, Text.splitChars_append, Text.splitChars_of_not_mem free]
  rfl

theorem segmentsOf_of_not_mem {path : List Char} (free : '/' ∉ path) :
    segmentsOf path = [String.ofList path] := by
  rw [segmentsOf, Text.splitChars_of_not_mem free]
  rfl

theorem isUnder_iff_text (p : SitePath) (dir : String) :
    p.isUnder dir = true ↔ p.text.toList = Text.dropWhileEnd (· = '/') dir.toList ∨
      ∃ rest, p.text.toList = Text.dropWhileEnd (· = '/') dir.toList ++ '/' :: rest := by
  rw [isUnder]
  constructor
  · intro h
    split at h
    · next hs =>
      rw [Text.stripPrefix_eq_some_iff, List.append_nil] at hs
      exact Or.inl hs
    · next c rest hs =>
      rw [Text.stripPrefix_eq_some_iff] at hs
      exact Or.inr ⟨rest, by rw [hs, decide_eq_true_iff.mp h]⟩
    · cases h
  · rintro (h | ⟨rest, h⟩)
    · have hs := Text.stripPrefix_append p.text.toList []
      rw [List.append_nil] at hs
      rw [← h, hs]
    · rw [h, Text.stripPrefix_append]
      rfl

theorem isUnder_iff (p : SitePath) (dir : String)
    (bare : Text.dropWhileEnd (· = '/') dir.toList = dir.toList) :
    p.isUnder dir = true ↔ Within dir p.segments := by
  have hin : Inside dir p.segments ↔ ∃ rest, p.text.toList = dir.toList ++ '/' :: rest :=
    inside_segmentsOf_iff
  have hself : Text.splitOn '/' dir = p.segments ↔ p.text.toList = dir.toList := by
    rw [segments_eq, segmentsOf, Text.splitOn,
      (List.map_injective_iff.mpr ofList_injective).eq_iff, Text.splitChars_injective.eq_iff,
      eq_comm]
  have hsplit : Within dir p.segments ↔
      Text.splitOn '/' dir = p.segments ∨ Inside dir p.segments := by
    constructor
    · intro h
      by_cases he : Text.splitOn '/' dir = p.segments
      · exact Or.inl he
      · exact Or.inr ⟨h, he⟩
    · rintro (h | h)
      · exact h ▸ List.prefix_rfl
      · exact h.1
  rw [hsplit, hin, hself, isUnder_iff_text, bare]

theorem isRootFile_iff (p : SitePath) : p.isRootFile = true ↔ ∃ name, p.segments = [name] := by
  rw [isRootFile, Bool.not_eq_true', List.contains_eq_mem, decide_eq_false_iff_not]
  constructor
  · intro free
    exact ⟨_, segmentsOf_of_not_mem free⟩
  · rintro ⟨name, h⟩ slash
    obtain ⟨a, b, hab⟩ := List.append_of_mem slash
    obtain ⟨pieces, ne, hp⟩ := Text.exists_append_sep_iff.mp ⟨b, hab⟩
    rw [segments_eq, segmentsOf, hp, List.map_append] at h
    have hl := congrArg List.length h
    have ha := List.length_pos_of_ne_nil (Text.splitChars_ne_nil '/' a)
    have hb := List.length_pos_of_ne_nil ne
    simp only [List.length_append, List.length_map, List.length_singleton] at hl
    omega

theorem segments_ne_nil (p : SitePath) : p.segments ≠ [] := fun h =>
  Text.splitChars_ne_nil '/' p.text.toList (List.map_eq_nil_iff.mp h)

theorem fileName_of_segments {p : SitePath} {name : String} (h : p.segments = [name]) :
    p.fileName = name := by
  have free : '/' ∉ p.text.toList := by
    have hr := (isRootFile_iff p).mpr ⟨name, h⟩
    rwa [isRootFile, Bool.not_eq_true', List.contains_eq_mem, decide_eq_false_iff_not] at hr
  have hc : Text.cutLast '/' p.text.toList = none := by
    rw [Text.cutLast, Text.cutFirst_of_not_mem (by simpa using free), Option.map_none]
  rw [segments_eq, segmentsOf_of_not_mem free, List.cons.injEq] at h
  rw [fileName, lastSegment, hc]
  exact h.1

theorem lastSegment_append (front : List Char) (path : List Char) :
    lastSegment (front ++ '/' :: path) = lastSegment path := by
  have hr : (front ++ '/' :: path).reverse = path.reverse ++ '/' :: front.reverse := by simp
  by_cases h : '/' ∈ path.reverse
  · obtain ⟨name, before, hp, free⟩ := List.eq_append_cons_of_mem h
    rw [lastSegment, lastSegment, Text.cutLast, Text.cutLast, hr, hp,
      Text.cutFirst_append_sep free, List.append_assoc, List.cons_append,
      Text.cutFirst_append_sep free]
    rfl
  · have hn : Text.cutLast '/' path = none := by
      rw [Text.cutLast, Text.cutFirst_of_not_mem h, Option.map_none]
    rw [lastSegment, lastSegment, hn, Text.cutLast, hr, Text.cutFirst_append_sep h]
    simp

def inSource (p : SitePath) : SitePath where
  text := "src/" ++ p.text
  normal := by
    obtain ⟨segments, ne, proper, h⟩ := p.normal
    refine ⟨"src".toList :: segments, List.cons_ne_nil _ _, ?_, ?_⟩
    · rw [List.forall_mem_cons]
      exact ⟨by unfold IsSegment; decide, proper⟩
    · rw [Text.joinChars_cons ne, ← h, String.toList_append]
      rfl

theorem inSource_text (p : SitePath) :
    p.inSource.text.toList = "src".toList ++ '/' :: p.text.toList := by
  rw [inSource, String.toList_append]
  rfl

theorem fileStem_inSource (p : SitePath) : p.inSource.fileStem = p.fileStem := by
  rw [fileStem, fileStem, inSource_text, lastSegment_append]

/-- A text that is a path as it stands. -/
def Written (raw : String) : Prop :=
  '\\' ∉ raw.toList ∧ Text.trimChars raw.toList = raw.toList ∧
    ∀ s ∈ Text.splitChars '/' raw.toList, isKept s = true

instance (raw : String) : Decidable (Written raw) := inferInstanceAs (Decidable (_ ∧ _ ∧ _))

theorem trimChars_sublist (s : List Char) : (Text.trimChars s).Sublist s := by
  have front := (List.dropWhile_suffix (l := s) Text.isBlank).sublist
  let rest := (s.dropWhile Text.isBlank).reverse
  have back := (List.dropWhile_suffix (l := rest) Text.isBlank).sublist
  rw [← List.reverse_sublist, List.reverse_reverse] at back
  exact back.trans front

theorem map_slashed_of_not_mem {s : List Char} (free : '\\' ∉ s) : s.map slashed = s := by
  conv => rhs; rw [← List.map_id s]
  refine List.map_congr_left fun c hc => if_neg ?_
  rintro rfl
  exact free hc

variable {raw : String} {p : SitePath}

theorem toList_of_ofText (h : ofText raw = .ok p) :
    p.text.toList = Text.joinChars '/' ((rawSegments raw).filter isKept) ∧
      (rawSegments raw).filter isKept ≠ [] := by
  unfold ofText at h
  split at h
  · cases h
  · split at h
    · cases h
    · next kept =>
      obtain rfl := Except.ok.inj h
      exact ⟨String.toList_ofList, kept⟩

/-- What a path is made of is the path, unless it has a backslash, blank characters around it, or
segments that are dropped. -/
theorem text_eq_iff (h : ofText raw = .ok p) : p.text = raw ↔ Written raw := by
  obtain ⟨text, kept⟩ := toList_of_ofText h
  constructor
  · intro same
    rw [same] at text
    -- No character gets lost between the text and the path.
    have pieces : (Text.joinChars '/' ((rawSegments raw).filter isKept)).Sublist
        ((Text.trimChars raw.toList).map slashed) := by
      conv => rhs; rw [← Text.joinChars_splitChars '/' ((Text.trimChars raw.toList).map slashed)]
      exact Text.joinChars_filter_sublist isKept _
    rw [← text] at pieces
    have trim : Text.trimChars raw.toList = raw.toList :=
      (trimChars_sublist _).eq_of_length_le (by simpa using pieces.length_le)
    rw [trim] at pieces
    have slashes : raw.toList = raw.toList.map slashed := pieces.eq_of_length (by simp)
    refine ⟨fun mem => ?_, trim, fun s hs => ?_⟩
    · rw [slashes, List.mem_map] at mem
      obtain ⟨c, -, hc⟩ := mem
      unfold slashed at hc
      split at hc
      · cases hc
      · next plain => exact plain hc
    · have free : ∀ q ∈ (rawSegments raw).filter isKept, '/' ∉ q :=
        fun q hq => not_mem_of_mem_splitChars (List.mem_filter.mp hq).1
      rw [text, Text.splitChars_joinChars kept free] at hs
      exact (List.mem_filter.mp hs).2
  · rintro ⟨plain, trim, whole⟩
    have segments : rawSegments raw = Text.splitChars '/' raw.toList := by
      rw [rawSegments, trim, map_slashed_of_not_mem plain]
    rw [segments, List.filter_eq_self.mpr whole, Text.joinChars_splitChars] at text
    exact String.toList_injective text

end SitePath

end SitePublish
