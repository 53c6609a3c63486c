import SitePublish.Proofs.Except
import SitePublish.Proofs.Site.Joining
import SitePublish.Proofs.Text.Trimming
import SitePublish.Text.Bytes

/-!
# Normal forms and containment

Between the blanks around it a text is cut at its slashes, of either kind. It denotes a path if none of
the pieces leads up and some piece is a name, and the names are the segments of the path. One path lies
in another when its segments begin with those of the other. The bytes of the two texts tell that as
well, up to a slash behind the shorter one: no text of characters begins in the midst of another one's.
-/

set_option autoImplicit false

namespace SitePublish

namespace Text

theorem utf8_prefix_iff {s t : String} : utf8 s <+: utf8 t ↔ s.toList <+: t.toList := by
  constructor
  · rintro ⟨bytes, same⟩
    refine List.isPrefix_of_utf8Encode_append_eq_utf8Encode ⟨bytes.toArray⟩ ?_
    rw [String.utf8Encode_toList, String.utf8Encode_toList]
    apply ByteArray.ext
    apply Array.toList_inj.mp
    simpa [utf8, String.toUTF8] using same
  · rintro ⟨rest, same⟩
    have joined : t = s ++ String.ofList rest := String.toList_injective (by simpa using same.symm)
    rw [joined, utf8_append]
    exact List.prefix_append _ _

theorem utf8_injective : Function.Injective utf8 := by
  intro s t same
  have both := congrArg ofUtf8? same
  rw [ofUtf8?_utf8, ofUtf8?_utf8] at both
  exact Option.some.inj both

end Text

namespace SitePath

/-- The pieces of a text between slashes of either kind, without the blanks around the text. -/
structure Pieces (raw : String) (pieces : List String) : Prop where
  ne_nil : pieces ≠ []
  free : ∀ s ∈ pieces, '/' ∉ s.toList
  joined : ∃ front core back, raw.toList = front ++ core ++ back ∧
    (∀ c ∈ front, Text.isBlank c = true) ∧ (∀ c ∈ back, Text.isBlank c = true) ∧
    Text.Solid Text.isBlank core ∧ (Text.joinWith '/' pieces).toList = core.map slashed

/-- What a text with these pieces denotes: nothing if a piece leads up or none is a name, else the path
of the names. -/
structure Denotes (raw : String) (pieces : List String) : Prop where
  up : ofText raw = .error .containsTraversal ↔ ".." ∈ pieces
  empty : ofText raw = .error .empty ↔ ∀ s ∈ pieces, s = "" ∨ s = "."
  path : ".." ∉ pieces → (∃ s ∈ pieces, s ≠ "" ∧ s ≠ ".") →
    ∃ p, ofText raw = .ok p ∧ p.segments = pieces.filter fun s => s ≠ "" ∧ s ≠ "."

section Pieces

variable {raw : String} {pieces : List String}

theorem pieces_iff : Pieces raw pieces ↔ pieces = (rawSegments raw).map String.ofList := by
  constructor
  · rintro ⟨ne, free, front, core, back, text, hf, hb, solid, joined⟩
    have trimmed : Text.trimChars raw.toList = core := by
      rw [text, Text.trimChars, Text.dropWhileEnds_append core hf hb, solid.dropWhileEnds_eq]
    rw [← Text.splitOn_joinWith ne free, Text.splitOn, joined, rawSegments, trimmed]
  · rintro rfl
    obtain ⟨front, back, text, hf, hb⟩ := Text.exists_dropWhileEnds Text.isBlank raw.toList
    refine ⟨?_, ?_, front, _, back, text, hf, hb, Text.solid_dropWhileEnds _ _, ?_⟩
    · exact mt List.map_eq_nil_iff.mp (Text.splitChars_ne_nil '/' _)
    · intro s hs
      obtain ⟨piece, hp, rfl⟩ := List.mem_map.mp hs
      rw [String.toList_ofList]
      exact not_mem_of_mem_splitChars hp
    · have back_again : ((rawSegments raw).map String.ofList).map String.toList = rawSegments raw := by
        simp [Function.comp_def]
      rw [Text.joinWith, String.toList_ofList, back_again, rawSegments, Text.joinChars_splitChars]
      rfl

theorem mem_map_ofList_iff {ps : List (List Char)} {s : String} :
    s ∈ ps.map String.ofList ↔ s.toList ∈ ps := by
  rw [← List.mem_map_of_injective ofList_injective, String.ofList_toList]

theorem isKept_toList (s : String) : isKept s.toList = decide (s ≠ "" ∧ s ≠ ".") := by
  have dot : s.toList = ".".toList ↔ s = "." := String.toList_inj
  simp [isKept, ← dot]

theorem filter_map_ofList (ps : List (List Char)) :
    (ps.map String.ofList).filter (fun s => s ≠ "" ∧ s ≠ ".") = (ps.filter isKept).map String.ofList := by
  rw [List.filter_map]
  congr 1
  refine List.filter_congr fun p _ => ?_
  rw [Function.comp_apply, ← isKept_toList, String.toList_ofList]

theorem denotes_of_pieces (h : Pieces raw pieces) : Denotes raw pieces := by
  obtain rfl := pieces_iff.mp h
  have up : ".." ∈ (rawSegments raw).map String.ofList ↔ ['.', '.'] ∈ rawSegments raw :=
    mem_map_ofList_iff
  have none : (∀ s ∈ (rawSegments raw).map String.ofList, s = "" ∨ s = ".") ↔
      (rawSegments raw).filter isKept = [] := by
    rw [← List.map_eq_nil_iff (f := String.ofList), ← filter_map_ofList, List.filter_eq_nil_iff]
    refine forall₂_congr fun s _ => ?_
    simp [or_iff_not_imp_left]
  refine ⟨by rw [ofText_eq_traversal_iff, up], ?_, fun inside some => ?_⟩
  · rw [ofText_eq_empty_iff, none, and_iff_right_iff_imp]
    intro empty mem
    rcases none.mpr empty _ (up.mpr mem) with same | same
    · exact absurd same (by decide)
    · exact absurd same (by decide)
  · have kept : (rawSegments raw).filter isKept ≠ [] := fun empty => by
      obtain ⟨s, mem, named, proper⟩ := some
      exact (none.mpr empty s mem).elim named proper
    obtain ⟨p, ok, text⟩ := exists_ofText_of_kept (mt up.mpr inside) kept
    have free : ∀ q ∈ (rawSegments raw).filter isKept, '/' ∉ q :=
      fun q hq => not_mem_of_mem_splitChars (List.mem_filter.mp hq).1
    refine ⟨p, ok, ?_⟩
    rw [segments_eq, segmentsOf, text, Text.splitChars_joinChars kept free, filter_map_ofList]

end Pieces

theorem proper_of_mem_segments (p : SitePath) : ∀ s ∈ p.segments,
    s ≠ "" ∧ s ≠ "." ∧ s ≠ ".." ∧ '/' ∉ s.toList ∧ '\\' ∉ s.toList := by
  intro s hs
  have proper := p.normal.proper _ (mem_map_ofList_iff.mp hs)
  refine ⟨?_, ?_, ?_, proper.2.2.2⟩
  · rintro rfl
    exact proper.1 rfl
  · rintro rfl
    exact proper.2.1 rfl
  · rintro rfl
    exact proper.2.2.1 rfl

def UnderBytes (path dir : List UInt8) : Prop :=
  path = dir ∨ dir <+: path ∧ path[dir.length]? = some 0x2F

section Containment

variable {p q : SitePath} {dir : String}

theorem getElem?_length_iff {dir path : List UInt8} {b : UInt8} :
    dir <+: path ∧ path[dir.length]? = some b ↔ dir ++ [b] <+: path := by
  constructor
  · rintro ⟨⟨rest, rfl⟩, there⟩
    rw [List.getElem?_append_right (Nat.le_refl _), Nat.sub_self] at there
    obtain ⟨rest, rfl⟩ := List.head?_eq_some_iff.mp (List.head?_eq_getElem? ▸ there)
    exact ⟨rest, by simp⟩
  · rintro ⟨rest, rfl⟩
    exact ⟨⟨b :: rest, by simp⟩, by simp⟩

theorem isUnder_iff_bytes (q : SitePath) (dir : String) : q.isUnder dir = true ↔
    UnderBytes (Text.utf8 q.text)
      (Text.utf8 (String.ofList (Text.dropWhileEnd (· = '/') dir.toList))) := by
  rw [isUnder_iff_text]
  generalize Text.dropWhileEnd (· = '/') dir.toList = bare
  have slash : Text.utf8 (String.ofList bare) ++ [0x2F] = Text.utf8 (String.ofList bare ++ "/") := by
    rw [Text.utf8_append]
    rfl
  have same : q.text = String.ofList bare ↔ q.text.toList = bare := by
    rw [← String.toList_inj, String.toList_ofList]
  have longer : (String.ofList bare ++ "/").toList <+: q.text.toList ↔
      ∃ rest, q.text.toList = bare ++ '/' :: rest :=
    exists_congr fun rest => by simp [eq_comm]
  rw [UnderBytes, getElem?_length_iff, slash, Text.utf8_prefix_iff, Text.utf8_injective.eq_iff, same,
    longer]

theorem isUnder_append_slashes (q : SitePath) (dir : String) (n : Nat) :
    q.isUnder (dir ++ String.ofList (List.replicate n '/')) = q.isUnder dir := by
  have slashes : ∀ c ∈ List.replicate n '/', decide (c = '/') = true := fun c hc => by
    simpa using (List.mem_replicate.mp hc).2
  rw [isUnder, isUnder, String.toList_append, String.toList_ofList,
    Text.dropWhileEnd_append _ slashes]

theorem isUnder_text_iff (p q : SitePath) : q.isUnder p.text = true ↔ p.segments <+: q.segments :=
  isUnder_iff q p.text p.bare

/-- What begins with the text of a directory and goes on with no slash is not in it. -/
theorem isUnder_of_longer {c : Char} (ne : c ≠ '/') {rest : List Char}
    (text : q.text.toList = p.text.toList ++ c :: rest) : q.isUnder p.text = false := by
  rw [isUnder, p.bare, text, Text.stripPrefix_append]
  exact decide_eq_false ne

end Containment

/-- A text denotes the path of its names, if it has any and none of its pieces leads up. One path lies
in another, slashes behind that one or not, when its segments begin with the segments of the other; so
each lies in itself and in whatever its directories lie in, and no segment counts in part. -/
theorem normal_form_and_containment :
    (∀ raw, ∃! pieces, Pieces raw pieces) ∧
    (∀ raw pieces, Pieces raw pieces → Denotes raw pieces) ∧
    (∀ p : SitePath, ∀ s ∈ p.segments,
      s ≠ "" ∧ s ≠ "." ∧ s ≠ ".." ∧ '/' ∉ s.toList ∧ '\\' ∉ s.toList) ∧
    (∀ (p q : SitePath) (n : Nat),
      (q.isUnder (p.text ++ String.ofList (List.replicate n '/')) = true ↔
        p.segments <+: q.segments) ∧
      (UnderBytes (Text.utf8 q.text) (Text.utf8 p.text) ↔ p.segments <+: q.segments)) ∧
    (∀ p : SitePath, p.isUnder p.text = true) ∧
    (∀ p q r : SitePath, q.isUnder p.text = true → r.isUnder q.text = true →
      r.isUnder p.text = true) ∧
    ∀ (p q : SitePath) (c : Char) (rest : List Char), c ≠ '/' →
      q.text.toList = p.text.toList ++ c :: rest → q.isUnder p.text = false := by
  refine ⟨fun raw => ?_, fun raw pieces => denotes_of_pieces, proper_of_mem_segments,
    fun p q n => ⟨?_, ?_⟩, fun p => ?_, fun p q r => ?_,
    fun p q c rest ne text => isUnder_of_longer ne text⟩
  · exact ⟨_, pieces_iff.mpr rfl, fun _ => pieces_iff.mp⟩
  · rw [isUnder_append_slashes, isUnder_text_iff]
  · rw [← isUnder_text_iff, isUnder_iff_bytes, p.bare, String.ofList_toList]
  · exact (isUnder_text_iff p p).mpr List.prefix_rfl
  · rw [isUnder_text_iff, isUnder_text_iff, isUnder_text_iff]
    exact List.IsPrefix.trans

theorem api_normal_and_contained : ∃ api chat other,
    ofText " ./src\\app//api/ " = .ok api ∧ api.segments = ["src", "app", "api"] ∧
    ofText "src/app/api/chat" = .ok chat ∧ chat.isUnder (api.text ++ "//") = true ∧
    ofText "src/app/apis/x.ts" = .ok other ∧ other.isUnder api.text = false ∧
    ofText "src/../../etc" = .error .containsTraversal := by
  obtain ⟨cut, denotes, -, contained, -, -, apart⟩ := normal_form_and_containment
  have api_text : (ofText " ./src\\app//api/ ").map SitePath.text = .ok "src/app/api" := by
    decide
  have chat_text : (ofText "src/app/api/chat").map SitePath.text = .ok "src/app/api/chat" := by
    decide
  have other_text : (ofText "src/app/apis/x.ts").map SitePath.text = .ok "src/app/apis/x.ts" := by
    decide
  obtain ⟨api, api_ok, api_text⟩ := exists_of_map_eq_ok api_text
  obtain ⟨chat, chat_ok, chat_text⟩ := exists_of_map_eq_ok chat_text
  obtain ⟨other, other_ok, other_text⟩ := exists_of_map_eq_ok other_text
  have api_segments : api.segments = ["src", "app", "api"] := by
    rw [segments, api_text]
    decide
  have inside : api.segments <+: chat.segments := by
    rw [api_segments, segments, chat_text]
    decide
  refine ⟨api, chat, other, api_ok, api_segments, chat_ok, (contained api chat 2).1.mpr inside,
    other_ok, apart api other 's' "/x.ts".toList (by decide) ?_, ?_⟩
  · rw [api_text, other_text]
    rfl
  · obtain ⟨pieces, up, -⟩ := cut "src/../../etc"
    rw [(denotes _ _ up).up, pieces_iff.mp up]
    decide

end SitePath

end SitePublish
