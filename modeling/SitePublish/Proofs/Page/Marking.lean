import SitePublish.Proofs.Filter.Rules
import SitePublish.Proofs.Page.Import
import SitePublish.Proofs.Text.Occurrence

/-!
# The editor's mark in generated files

A file that has the editor's mark in its first lines does not ship, and generated files hold
whatever texts a document has. These come too late to be looked at. The first lines of a file are its
frame, its route and its key, none of which has an at sign, and specifiers, which have the mark only
where the layout has it. So no text of a document makes one of its files be taken for one of the
editor.
-/

set_option autoImplicit false

namespace SitePublish

namespace Text

theorem not_at_of_isNameChar {c : Char} (h : isNameChar c = true ∨ c = '/') : c ≠ '@' := by
  rintro rfl
  exact absurd h (by decide)

theorem mem_dropWhile {p : Char → Bool} {c : Char} {s : List Char} (h : c ∈ s)
    (stays : p c = false) : c ∈ s.dropWhile p := by
  induction s with
  | nil => cases h
  | cons d s ih =>
    rw [List.dropWhile_cons]
    split
    · next drop =>
      rcases List.mem_cons.mp h with rfl | h
      · rw [stays] at drop
        cases drop
      · exact ih h
    · exact h

theorem mem_dropWhileEnds {p : Char → Bool} {c : Char} {s : List Char} (h : c ∈ s)
    (stays : p c = false) : c ∈ dropWhileEnds p s := by
  rw [dropWhileEnds, dropWhileEnd, List.mem_reverse]
  exact mem_dropWhile (List.mem_reverse.mpr (mem_dropWhile h stays)) stays

theorem at_mem_lowerFrom {s : List Char} (before : List Char) (h : '@' ∈ s) :
    '@' ∈ lowerFrom before s := by
  induction s generalizing before with
  | nil => cases h
  | cons c s ih =>
    have later (mem : '@' ∈ s) := ih (c :: before) mem
    rw [lowerFrom]
    rcases List.mem_cons.mp h with rfl | mem
    · have same : lowerChar '@' = '@' := by decide
      rw [if_neg (by decide), if_neg (by decide), same]
      exact List.mem_cons_self
    · split
      · exact List.mem_cons_of_mem _ (later mem)
      · split
        · exact List.mem_cons_of_mem _ (List.mem_cons_of_mem _ (later mem))
        · exact List.mem_cons_of_mem _ (later mem)

end Text

namespace Route

theorem at_free_of_dashed {pending : Bool} {s t : List Char} (h : dashed pending s = .ok t) :
    '@' ∉ s := by
  induction s generalizing pending t with
  | nil => exact List.not_mem_nil
  | cons c s ih =>
    rw [dashed] at h
    have apart : '@' ≠ c ∧ '@' ∉ s := by
      split at h
      · next blank => exact ⟨by rintro rfl; exact absurd blank (by decide), ih h⟩
      · split at h
        · next good =>
          split at h
          · next rest => exact ⟨by rintro rfl; exact absurd good (by decide), ih rest⟩
          · cases h
        · cases h
    rw [List.mem_cons, not_or]
    exact apart

theorem at_free_of_ofKey {key : String} {r : Route} (h : ofKey key = .ok r) : '@' ∉ key.toList := by
  intro mem
  have trimmed : '@' ∈ trimKey key.toList :=
    Text.mem_dropWhileEnds (Text.mem_dropWhileEnds (Text.mem_dropWhileEnds mem (by decide))
      (by decide)) (by decide)
  have lowered : '@' ∈ Text.lowerChars (trimKey key.toList) := Text.at_mem_lowerFrom [] trimmed
  unfold ofKey at h
  dsimp only at h
  generalize Text.lowerChars (trimKey key.toList) = s at h lowered
  split at h
  · next short =>
    rw [Bool.or_eq_true, List.isEmpty_iff, List.contains_iff_mem] at short
    rcases short with rfl | short
    · cases lowered
    · have names : ∀ name ∈ rootKeys, '@' ∉ name.toList := by decide
      have free := names _ short
      rw [String.toList_ofList] at free
      exact free lowered
  · split at h
    · cases h
    · next dashed => exact at_free_of_dashed dashed lowered

end Route

namespace ProductionFilter

open Text (LinesLack)

def Clean (s : List Char) : Prop := ¬ marker.toList <:+: s

theorem clean_of_free {s : List Char} (free : '@' ∉ s) : Clean s :=
  fun mark => free (mark.mem at_mem_marker)

theorem Clean.within {s t : List Char} (h : Clean t) (inside : s <:+: t) : Clean s :=
  fun mark => h (mark.trans inside)

/-- The mark has no slash and no quote, so it does not come about where they join texts. -/
theorem Clean.append_sep {sep : Char} {a b : List Char} (ha : Clean a) (hb : Clean b)
    (apart : sep ∉ marker.toList) : Clean (a ++ sep :: b) :=
  fun mark => (Text.infix_append_sep apart mark).elim ha hb

theorem clean_joinChars {sep : Char} {ps : List (List Char)} (apart : sep ∉ marker.toList)
    (h : ∀ p ∈ ps, Clean p) : Clean (Text.joinChars sep ps) := by
  intro mark
  obtain ⟨p, hp, inside⟩ := Text.infix_joinChars (by decide) apart mark
  exact h p hp inside

theorem not_marked_of_front {s : String} {front back : List Char} (text : s.toList = front ++ back)
    (enough : markerLines ≤ front.count '\n') (clean : Clean front) : ¬ Marked (some s) := by
  rintro ⟨_, ⟨⟩, line, first, mark⟩
  rw [Text.lines, ← List.map_take, text, Text.take_linesOf_append enough] at first
  obtain ⟨chars, mem, rfl⟩ := List.mem_map.mp first
  rw [Text.contains_iff, String.toList_ofList] at mark
  exact clean (mark.trans (Text.infix_of_mem_linesOf (List.mem_of_mem_take mem)))

theorem not_marked_of_linesLack {s : String} (h : LinesLack '@' markerLines s.toList) :
    ¬ Marked (some s) := by
  obtain ⟨front, back, text, lacks, enough⟩ := h
  exact not_marked_of_front text enough (clean_of_free lacks)

end ProductionFilter

namespace Json

open Text (LinesLack)

variable {level n : Nat} {k : String} {v : Json} {m : String × Json} {rest : List (String × Json)}

theorem eq_at_of_mem_escapeChar {c : Char} (h : '@' ∈ escapeChar c) : c = '@' := by
  by_cases small : c.toNat < 128
  · revert h
    exact Text.of_ascii (P := fun c => '@' ∈ escapeChar c → c = '@') (by decide) small
  · have other (d : Char) (low : d.toNat < 128) : c ≠ d := fun same => small (same ▸ low)
    have plain : escapeChar c = [c] := by
      rw [escapeChar, if_neg (other _ (by decide)), if_neg (other _ (by decide)),
        if_neg (other _ (by decide)), if_neg (other _ (by decide)), if_neg (other _ (by decide)),
        if_neg (other _ (by decide)), if_neg (other _ (by decide)), if_neg (by omega)]
    rw [plain, List.mem_singleton] at h
    exact h.symm

theorem at_free_quoted {s : String} (free : '@' ∉ s.toList) : '@' ∉ quoted s := by
  rw [quoted, List.cons_append, List.mem_cons, List.mem_append, List.mem_flatMap]
  rintro (quote | ⟨c, mem, inside⟩ | quote)
  · exact absurd quote (by decide)
  · exact free (eq_at_of_mem_escapeChar inside ▸ mem)
  · exact absurd quote (by decide)

theorem linesLack_newline {s : List Char} (h : LinesLack '@' n s) (level : Nat) :
    LinesLack '@' (n + 1) (newline level ++ s) := by
  refine h.append ?_ ?_
  · simp [newline]
  · rw [newline, List.count_cons_self]
    omega

theorem linesLack_prettyMembers (level : Nat) (m : String × Json) (rest : List (String × Json)) :
    LinesLack '@' 1 (prettyMembers level (m :: rest)) := by
  have first (s : List Char) := linesLack_newline (LinesLack.zero '@' s) level
  obtain ⟨k, v⟩ := m
  cases rest with
  | nil =>
    rw [prettyMembers, List.append_assoc, List.append_assoc, List.append_assoc]
    exact first _
  | cons m rest =>
    rw [prettyMembers, List.append_assoc, List.append_assoc]
    exact first _

theorem linesLack_prettyMembers_cons (free : '@' ∉ k.toList)
    (h : LinesLack '@' n (prettyChars level v ++ ',' :: prettyMembers level (m :: rest))) :
    LinesLack '@' (n + 1) (prettyMembers level ((k, v) :: m :: rest)) := by
  have valued : LinesLack '@' n
      ([':', ' '] ++ (prettyChars level v ++ ',' :: prettyMembers level (m :: rest))) :=
    h.append (by decide) (by simp)
  have named := valued.append (m := n) (at_free_quoted free) (by omega)
  have whole := linesLack_newline named level
  rw [prettyMembers]
  simpa using whole

theorem linesLack_prettyChars_obj (level : Nat) (m : String × Json) (rest : List (String × Json)) :
    LinesLack '@' 1 (prettyChars level (.obj (m :: rest))) := by
  rw [prettyChars]
  exact (linesLack_prettyMembers (level + 1) m rest).append (a := ['\x7b']) (by decide) (by simp)

theorem linesLack_prettyChars_arr {items : List Json}
    (h : LinesLack '@' n (prettyChars (level + 1) v)) :
    LinesLack '@' (n + 1) (prettyChars level (.arr (v :: items))) := by
  have first (s : List Char) := linesLack_newline (h.extend s) (level + 1)
  have listed : LinesLack '@' (n + 1) (prettyItems (level + 1) (v :: items)) := by
    cases items with
    | nil =>
      rw [prettyItems, List.append_assoc, List.append_assoc]
      exact first _
    | cons w items =>
      rw [prettyItems, List.append_assoc]
      exact first _
  rw [prettyChars]
  exact listed.append (a := ['[']) (by decide) (by simp)

end Json

namespace Generator

open Text (LinesLack)
open ProductionFilter (Clean Marked marker clean_of_free)

section Frames

variable {name literal : String}

theorem at_free_header : '@' ∉ header.toList := by
  rw [header, String.toList_ofList]
  decide

theorem linesLack_exporting (free : '@' ∉ name.toList) (h : LinesLack '@' 3 literal.toList) :
    LinesLack '@' ProductionFilter.markerLines (exporting name literal).toList := by
  have text : (exporting name literal).toList = header.toList ++ ("\n\nexport const ".toList ++
      (name.toList ++ (" = ".toList ++ (literal.toList ++
        (" as const;\n\nexport default " ++ name ++ ";\n").toList)))) := by
    simp only [exporting, String.toList_append, List.append_assoc, -String.reduceToList]
  have value := (h.extend (" as const;\n\nexport default " ++ name ++ ";\n").toList).append
    (m := 3) (a := " = ".toList) (by decide) (by omega)
  rw [text]
  have named := value.append (m := 3) free (by omega)
  exact (named.append (a := "\n\nexport const ".toList) (m := 5) (by decide) (by decide)).append
    at_free_header (Nat.le_add_left 5 _)

theorem linesLack_pretty_obj {n : Nat} {m : String × Json} {rest : List (String × Json)}
    (h : LinesLack '@' n (Json.prettyMembers 1 (m :: rest))) :
    LinesLack '@' n (Json.pretty (.obj (m :: rest))).toList := by
  rw [Json.pretty, String.toList_ofList, Json.prettyChars]
  exact h.append (a := ['\x7b']) (by decide) (by omega)

theorem not_marked_componentModule {c : PlacedComponent} (free : '@' ∉ c.id.toList) :
    ¬ Marked (some (componentModule c)) := by
  have props : LinesLack '@' 1 (Json.prettyChars 1 (.obj c.props) ++
      ',' :: Json.prettyMembers 1 [("type", .str c.type)]) := by
    cases c.props with
    | nil =>
      rw [Json.prettyChars]
      exact (Json.linesLack_prettyMembers 1 ("type", .str c.type) []).append
        (a := ['\x7b', '\x7d', ',']) (by decide) (by simp)
    | cons m rest => exact (Json.linesLack_prettyChars_obj 1 m rest).extend _
  have id : LinesLack '@' 2 (Json.prettyChars 1 (.str c.id) ++
      ',' :: Json.prettyMembers 1 [("props", .obj c.props), ("type", .str c.type)]) := by
    have rest := (Json.linesLack_prettyMembers_cons (k := "props") (by decide) props).append
      (m := 2) (a := [',']) (by decide) (by simp)
    exact rest.append (Json.at_free_quoted free) (by omega)
  rw [componentModule_eq, placed_toJson]
  apply ProductionFilter.not_marked_of_linesLack
  apply linesLack_exporting (by decide)
  exact linesLack_pretty_obj (Json.linesLack_prettyMembers_cons (by decide) id)

theorem not_marked_dataFile {key : String} (free : '@' ∉ key.toList) (r : Route) (seo : SeoBlock)
    (placed : List PlacedComponent) : ¬ Marked (some (dataFile key r seo placed)) := by
  have keyed : LinesLack '@' 2 (Json.prettyMembers 1 [("key", .str key), ("route", .str r.text),
      ("seo", seo.toJson)]) := by
    have route := (Json.linesLack_prettyMembers 1 ("route", .str r.text)
      [("seo", seo.toJson)]).append (m := 1) (a := [',']) (by decide) (by simp)
    apply Json.linesLack_prettyMembers_cons (by decide)
    exact route.append (Json.at_free_quoted free) (by omega)
  have components : LinesLack '@' 2
      (Json.prettyChars 1 (.arr (placed.map PlacedComponent.toJson)) ++ ',' ::
        Json.prettyMembers 1 [("key", .str key), ("route", .str r.text), ("seo", seo.toJson)]) := by
    cases placed with
    | nil =>
      rw [List.map_nil, Json.prettyChars]
      exact keyed.append (a := ['[', ']', ',']) (by decide) (by simp)
    | cons c rest =>
      rw [List.map_cons, placed_toJson]
      exact (Json.linesLack_prettyChars_arr (Json.linesLack_prettyChars_obj 2 _ _)).extend _
  rw [dataFile_eq, pageData]
  apply ProductionFilter.not_marked_of_linesLack
  apply linesLack_exporting (by decide)
  exact linesLack_pretty_obj (Json.linesLack_prettyMembers_cons (by decide) components)

def importOpening : String :=
  header ++ "\n\n" ++ "import type \x7b Metadata \x7d from \"next\";\n" ++
    "import PageRenderer from \""

def importMiddle : String := "\";\n" ++ "import pageData from \""

def importEnding : String := "\";\n\n"

theorem routing_eq (renderer data literal : String) : routing renderer data literal =
    importOpening ++ renderer ++ importMiddle ++ data ++ importEnding ++
      ("export const metadata: Metadata = " ++ literal ++ ";\n\n" ++
        "export default function Page() \x7b\n" ++
        "  return <PageRenderer components=\x7bpageData.components\x7d />;\n" ++ "\x7d\n") := by
  simp only [routing, importOpening, importMiddle, importEnding, String.append_assoc,
    -String.reduceAppend]

theorem exists_importOpening_eq :
    ∃ front, importOpening.toList = front ++ ['"'] ∧ '@' ∉ front ∧ front.count '\n' = 3 := by
  refine ⟨importOpening.toList.dropLast, ?_⟩
  rw [importOpening, String.toList_append, String.toList_append, String.toList_append, header,
    String.toList_ofList, String.toList_ofList, String.toList_ofList, String.toList_ofList]
  decide

theorem not_marked_routing {renderer data : String} (renderer_clean : Clean renderer.toList)
    (data_clean : Clean data.toList) (literal : String) :
    ¬ Marked (some (routing renderer data literal)) := by
  have quote : '"' ∉ marker.toList := by decide
  obtain ⟨front, opening, free, three⟩ := exists_importOpening_eq
  have middle : importMiddle.toList = '"' :: (importMiddle.toList.drop 1).dropLast ++ ['"'] := by
    decide
  have ending : importEnding.toList = '"' :: importEnding.toList.drop 1 := by decide
  have lines : importMiddle.toList.count '\n' = 1 ∧ importEnding.toList.count '\n' = 2 := by
    decide
  have text := congrArg String.toList (routing_eq renderer data literal)
  rw [String.toList_append] at text
  refine ProductionFilter.not_marked_of_front text ?_ ?_
  · simp only [String.toList_append, List.count_append, opening, ProductionFilter.markerLines]
    omega
  · have behind : Clean (data.toList ++ '"' :: importEnding.toList.drop 1) :=
      data_clean.append_sep (clean_of_free (by decide)) quote
    have between : Clean ((importMiddle.toList.drop 1).dropLast ++
        '"' :: (data.toList ++ '"' :: importEnding.toList.drop 1)) :=
      (clean_of_free (by decide)).append_sep behind quote
    have whole := (clean_of_free free).append_sep (renderer_clean.append_sep between quote) quote
    simp only [String.toList_append]
    rw [opening, middle, ending]
    simpa using whole

end Frames

section Specifiers

variable {source target : SitePath}

theorem infix_of_mem_segments {p : SitePath} {name : String} (h : name ∈ p.segments) :
    name.toList <:+: p.text.toList := by
  obtain ⟨piece, hp, rfl⟩ := List.mem_map.mp h
  rw [String.toList_ofList]
  exact Text.infix_of_mem_splitChars hp

theorem infix_withoutExtension (name : String) :
    (withoutExtension name).toList <:+: name.toList := by
  unfold withoutExtension
  split
  · next stem ext cut =>
    rw [String.toList_ofList, Text.eq_of_cutLast cut]
    exact (List.prefix_append stem _).isInfix
  · exact List.infix_rfl

theorem cases_of_mem_importPieces {piece : String} (h : piece ∈ importPieces source target) :
    piece = ".." ∨ piece.toList <:+: target.text.toList := by
  unfold importPieces at h
  dsimp only at h
  rw [List.mem_append, List.mem_append] at h
  rcases h with (up | down) | last
  · exact Or.inl (List.eq_of_mem_replicate up)
  · have mem := List.mem_of_mem_drop ((List.dropLast_sublist _).mem down)
    exact Or.inr (infix_of_mem_segments mem)
  · obtain ⟨name, found, rfl⟩ := Option.map_eq_some_iff.mp (Option.mem_toList.mp last)
    have mem := List.mem_of_mem_drop (List.mem_of_getLast? found)
    exact Or.inr ((infix_withoutExtension name).trans (infix_of_mem_segments mem))

theorem clean_relativeImport (clean : Clean target.text.toList) :
    Clean (relativeImport source target).toList := by
  have joined : Clean (Text.joinWith '/' (importPieces source target)).toList := by
    rw [Text.joinWith, String.toList_ofList]
    apply ProductionFilter.clean_joinChars (by decide)
    intro chars mem
    obtain ⟨piece, hp, rfl⟩ := List.mem_map.mp mem
    rcases cases_of_mem_importPieces hp with rfl | inside
    · exact clean_of_free (by decide)
    · exact clean.within inside
  rw [relativeImport_eq, prefixed]
  split
  · exact joined
  · rw [String.toList_append]
    exact (clean_of_free (s := ['.']) (by decide)).append_sep joined (by decide)

theorem clean_of_join {dir p : SitePath} {rest : String} (tidy : SitePath.Tidy rest.toList)
    (h : join dir rest = .ok p) (dir_clean : Clean dir.text.toList) (free : '@' ∉ rest.toList) :
    Clean p.text.toList := by
  obtain ⟨text, -⟩ := SitePath.toList_of_ofText (join_eq_ok_iff.mp h)
  rw [text, SitePath.rawSegments_below dir tidy]
  apply ProductionFilter.clean_joinChars (by decide)
  intro piece mem
  rcases List.mem_append.mp (List.mem_filter.mp mem).1 with above | below
  · have inside := Text.infix_of_mem_splitChars above
    exact dir_clean.within (inside.trans (List.dropWhile_suffix Text.isBlank).isInfix)
  · exact (clean_of_free free).within (Text.infix_of_mem_splitChars below)

end Specifiers

end Generator

/-- The mark does not occur in what the layout puts into files. No specifier has anything of the
directory of the route modules. -/
structure Layout.Unmarked (l : Layout) : Prop where
  data : Text.contains ProductionFilter.marker l.dataDir.text = false
  renderer : Text.contains ProductionFilter.marker l.rendererImport = false

namespace Generator

open ProductionFilter (Clean Marked marker)

section Files

variable {g : Generator} {reg : Registry} {l : Layout} {key : String} {r : Route} {index : SitePath}

theorem at_free_of_names {s : List Char} (names : ∀ c ∈ s, Text.isNameChar c = true ∨ c = '/') :
    '@' ∉ s :=
  fun mem => Text.not_at_of_isNameChar (names '@' mem) rfl

theorem at_free_digits (n : Nat) : '@' ∉ (toString n).toList :=
  at_free_of_names fun c mem => Or.inl (isNameChar_of_mem_digits n c mem)

theorem at_free_idStem (route : Route.ofKey key = .ok r) : '@' ∉ (idStem r).toList := by
  have free := at_free_of_names (Route.isNameChar_of_mem_fileStem route)
  rw [idStem, String.toList_ofList]
  intro mem
  obtain ⟨c, hc, same⟩ := List.mem_map.mp mem
  split at same
  · cases same
  · exact free (same ▸ hc)

theorem at_free_of_places (route : Route.ofKey key = .ok r) {located : List (Component × Nat)}
    {placed : List PlacedComponent} (h : List.Forall₂ (Places reg r) located placed) :
    ∀ c ∈ placed, '@' ∉ c.id.toList := by
  induction h with
  | nil => exact nofun
  | cons first _ ih =>
    refine List.forall_mem_cons.mpr ⟨?_, ih⟩
    cases first with
    | @intro c index design props known resolved =>
      simp only [String.toList_append, List.mem_append, not_or]
      exact ⟨⟨at_free_idStem route, by decide⟩, at_free_digits index⟩

theorem not_marked_of_moduled {ps : List (PlacedComponent × Nat)} {modules : List GeneratedFile}
    (h : List.Forall₂ (Moduled l r) ps modules) (free : ∀ p ∈ ps, '@' ∉ p.1.id.toList) :
    ∀ f ∈ modules, ¬ Marked (some f.content) := by
  induction h with
  | nil => exact nofun
  | cons first _ ih =>
    obtain ⟨here, free⟩ := List.forall_mem_cons.mp free
    refine List.forall_mem_cons.mpr ⟨?_, ih free⟩
    cases first with
    | intro path => exact not_marked_componentModule here

theorem not_marked_of_made {w : PageWork} (made : w.Made g) (unmarked : g.layout.Unmarked)
    (overrides : SeoOverrides) : ∀ f ∈ w.files g overrides, ¬ Marked (some f.content) := by
  have clean {s : String} (h : Text.contains marker s = false) : Clean s.toList := by
    rw [← Bool.not_eq_true, Text.contains_iff] at h
    exact h
  have ids := at_free_of_places made.route made.placed
  have dataName : '@' ∉ (w.route.fileStem ++ ".ts").toList := by
    rw [String.toList_append, List.mem_append, not_or]
    exact ⟨at_free_of_names (Route.isNameChar_of_mem_fileStem made.route), by decide⟩
  have place := clean_of_join (tidy_dataName made.route) made.data (clean unmarked.data) dataName
  rw [PageWork.files, List.forall_mem_cons, List.forall_mem_cons]
  refine ⟨not_marked_dataFile (Route.at_free_of_ofKey made.route) _ _ _,
    not_marked_routing (clean unmarked.renderer) (clean_relativeImport place) _, ?_⟩
  have modules := made.modules
  split at modules
  · exact not_marked_of_moduled modules fun p hp => ids p.1 (List.fst_mem_of_mem_zipIdx hp)
  · rw [modules]
    exact nofun

section Index

variable {works : List PageWork} (made : ∀ w ∈ works, w.Made g)
include made

theorem at_free_indexRows (n : Nat) : '@' ∉ (indexRows n (works.map PageWork.entry)).toList := by
  induction works generalizing n with
  | nil => exact List.not_mem_nil
  | cons w works ih =>
    obtain ⟨here, made⟩ := List.forall_mem_cons.mp made
    have route := at_free_of_names (Route.isNameChar_of_mem_text here.route)
    simp only [List.map_cons, PageWork.entry, indexRows, String.toList_append, List.mem_append,
      not_or]
    exact ⟨⟨⟨⟨⟨by decide, route⟩, by decide⟩, at_free_digits n⟩, by decide⟩, ih made (n + 1)⟩

theorem at_free_indexImports (index_eq : join g.layout.dataDir Layout.indexFile = .ok index)
    (n : Nat) : '@' ∉ (indexImports index n (works.map PageWork.entry)).toList := by
  induction works generalizing n with
  | nil => exact List.not_mem_nil
  | cons w works ih =>
    obtain ⟨here, made⟩ := List.forall_mem_cons.mp made
    have stem := at_free_of_names (Route.isNameChar_of_mem_fileStem here.route)
    have specifier : '@' ∉ (relativeImport index w.dataPath).toList := by
      rw [(imports_of_join here.route index_eq here.data).1, String.toList_append, List.mem_append,
        not_or]
      exact ⟨by decide, stem⟩
    simp only [List.map_cons, PageWork.entry, indexImports_cons, String.toList_append, List.mem_append,
      not_or]
    exact ⟨⟨⟨⟨⟨by decide, at_free_digits n⟩, by decide⟩, specifier⟩, by decide⟩, ih made (n + 1)⟩

theorem not_marked_indexModule (index_eq : join g.layout.dataDir Layout.indexFile = .ok index) :
    ¬ Marked (some (indexModule index (works.map PageWork.entry))) := by
  have gap : '@' ∉ (if (works.map PageWork.entry).isEmpty then "" else "\n").toList := by
    split <;> decide
  apply ProductionFilter.not_marked_of_free
  simp only [indexModule, String.toList_append, List.mem_append, not_or]
  exact ⟨⟨⟨⟨⟨⟨at_free_header, by decide⟩, at_free_indexImports made index_eq 0⟩, gap⟩, by decide⟩,
    at_free_indexRows made 0⟩, by decide⟩

end Index

theorem not_marked_of_generate {d : Document} {overrides : SeoOverrides}
    {files : List GeneratedFile} (unmarked : g.layout.Unmarked)
    (h : g.generate d overrides = .ok files) : ∀ f ∈ files, ¬ Marked (some f.content) := by
  obtain ⟨works, index, composed⟩ := composed_of_generate h
  rw [composed.files_eq]
  intro f mem
  rcases List.mem_append.mp mem with page | last
  · obtain ⟨w, hw, hf⟩ := List.mem_flatMap.mp page
    exact not_marked_of_made (composed.made w hw) unmarked overrides f hf
  · rw [List.mem_singleton.mp last]
    exact not_marked_indexModule composed.made composed.index_eq

end Files

end Generator

end SitePublish
