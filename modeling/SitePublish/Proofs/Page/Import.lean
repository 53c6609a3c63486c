import Mathlib.Data.List.Induction
import SitePublish.Proofs.Page.Content
import SitePublish.Proofs.Page.Layout

/-!
# Imports between generated modules

A module imports another one by the way that leads from its directory to the file: up to where the two
part, and down from there. The way is followed piece by piece, apart from how the specifier was made.
The index always reaches the data of its pages. A route module reaches the data of its page unless its
own directory lies below that file, the way begins with a name that begins with two dots, or a name on
the way cannot stand between quotes.
-/

set_option autoImplicit false

namespace SitePublish

namespace SitePath

theorem isSegment_of_mem_segmentsOf {s : List Char} (normal : IsNormal s) :
    ∀ name ∈ segmentsOf s, IsSegment name.toList := by
  refine List.forall_mem_map.mpr fun p hp => ?_
  rw [String.toList_ofList]
  exact normal.proper p hp

theorem isSegment_of_mem_segments {p : SitePath} {name : String} (h : name ∈ p.segments) :
    IsSegment name.toList :=
  isSegment_of_mem_segmentsOf p.normal name h

end SitePath

namespace Generator

/-- Where the pieces of a specifier lead from a directory: a dot stays, two dots go up, and a name goes
down. -/
def follow : List String → List String → Option (List String)
  | dir, [] => some dir
  | dir, piece :: rest =>
    if piece = "" ∨ piece = "." then follow dir rest
    else if piece = ".." then
      if dir = [] then none else follow dir.dropLast rest
    else follow (dir ++ [piece]) rest

def directory (p : SitePath) : List String := p.segments.dropLast

/-- Whether a text is the same between quotes. -/
def Quotable (s : String) : Prop := ∀ c ∈ ['"', '\\', '\n', '\r'], c ∉ s.toList

def IsRelative (specifier : String) : Prop :=
  Text.startsWith "./" specifier = true ∨ Text.startsWith "../" specifier = true

instance (s : String) : Decidable (Quotable s) := List.decidableBAll (fun c => c ∉ s.toList) _

instance (s : String) : Decidable (IsRelative s) := inferInstanceAs (Decidable (_ ∨ _))

/-- A module that imports the specifier imports the target. -/
structure Reaches (source : SitePath) (specifier : String) (target : SitePath) : Prop where
  quotable : Quotable specifier
  relative : IsRelative specifier
  named : (follow (directory source) (Text.splitOn '/' specifier)).map
    (fun way => Text.joinWith '/' way ++ ".ts") = some target.text

theorem reaches_iff {source target : SitePath} {specifier : String} :
    Reaches source specifier target ↔ Quotable specifier ∧ IsRelative specifier ∧
      (follow (directory source) (Text.splitOn '/' specifier)).map
        (fun way => Text.joinWith '/' way ++ ".ts") = some target.text :=
  ⟨fun h => ⟨h.quotable, h.relative, h.named⟩, fun h => ⟨h.1, h.2.1, h.2.2⟩⟩

instance (source : SitePath) (specifier : String) (target : SitePath) :
    Decidable (Reaches source specifier target) := decidable_of_iff _ reaches_iff.symm

/-- Nothing keeps a module from reaching the target: it does not lie below the target, no name that
begins with two dots comes first on a way straight down, and no name on the way needs escapes. -/
structure Passable (source target : SitePath) : Prop where
  outside : ¬ target.segments <+: directory source
  plain : ∀ name rest, target.segments = directory source ++ name :: rest →
    Text.startsWith ".." name = false
  quotable : ∀ name ∈ target.segments.drop (commonLength (directory source) target.segments),
    Quotable name

theorem follow_names (dir : List String) {names : List String}
    (proper : ∀ s ∈ names, SitePath.IsSegment s.toList) :
    follow dir names = some (dir ++ names) := by
  induction names generalizing dir with
  | nil => rw [follow, List.append_nil]
  | cons s rest ih =>
    obtain ⟨first, others⟩ := List.forall_mem_cons.mp proper
    have stays : ¬ (s = "" ∨ s = ".") := by
      rintro (rfl | rfl)
      · exact first.1 rfl
      · exact first.2.1 rfl
    have up : s ≠ ".." := by
      rintro rfl
      exact first.2.2.1 rfl
    rw [follow, if_neg stays, if_neg up, ih _ others, List.append_assoc]
    rfl

theorem follow_ups (dir ups rest : List String) :
    follow (dir ++ ups) (List.replicate ups.length ".." ++ rest) = follow dir rest := by
  -- Two dots take off the last directory, so the induction does.
  induction ups using List.reverseRecOn with
  | nil => rw [List.append_nil]; rfl
  | append_singleton ups last ih =>
    have ne : dir ++ (ups ++ [last]) ≠ [] := by simp
    rw [List.length_append, List.length_singleton, List.replicate_succ, List.cons_append, follow,
      if_neg (by decide), if_pos rfl, if_neg ne, ← List.append_assoc, List.dropLast_concat, ih]

/-- A specifier gets a dot in front unless it begins with two dots. -/
def prefixed (joined : String) : String :=
  if Text.startsWith ".." joined then joined else "./" ++ joined

section Specifier

variable {pieces : List String}

theorem follow_prefixed (dir : List String) (free : ∀ p ∈ pieces, '/' ∉ p.toList) :
    follow dir (Text.splitOn '/' (prefixed (Text.joinWith '/' pieces))) = follow dir pieces := by
  cases pieces with
  | nil =>
    have split : Text.splitOn '/' (prefixed (Text.joinWith '/' [])) = [".", ""] := by decide
    simp [split, follow]
  | cons p rest =>
    have ne : p :: rest ≠ [] := List.cons_ne_nil p rest
    unfold prefixed
    split
    · rw [Text.splitOn_joinWith ne free]
    · have dot : Text.splitOn '/' ("./" ++ Text.joinWith '/' (p :: rest)) =
          "." :: Text.splitOn '/' (Text.joinWith '/' (p :: rest)) := by
        rw [Text.splitOn, String.toList_append]
        exact congrArg (List.map String.ofList) (Text.splitChars_append ['.'] _)
      rw [dot, Text.splitOn_joinWith ne free, follow, if_pos (by simp)]

theorem quotable_dot_iff {s : String} : Quotable ("./" ++ s) ↔ Quotable s := by
  simp [Quotable]

theorem quotable_ts_iff {s : String} : Quotable (s ++ ".ts") ↔ Quotable s := by
  simp [Quotable]

theorem quotable_prefixed_iff :
    Quotable (prefixed (Text.joinWith '/' pieces)) ↔ ∀ p ∈ pieces, Quotable p := by
  have dotted (s : String) : Quotable (prefixed s) ↔ Quotable s := by
    unfold prefixed
    split
    · exact Iff.rfl
    · exact quotable_dot_iff
  rw [dotted]
  constructor
  · intro whole p hp c hc mem
    refine whole c hc ?_
    rw [Text.joinWith, String.toList_ofList]
    exact Text.mem_joinChars_of_mem (List.mem_map_of_mem hp) mem
  · intro parts c hc
    have apart : c ≠ '/' := by
      rintro rfl
      exact absurd hc (by decide)
    rw [Text.joinWith, String.toList_ofList]
    exact Text.not_mem_joinChars apart (List.forall_mem_map.mpr fun p hp => parts p hp c hc)

theorem isRelative_prefixed_iff {p : String} {rest : List String} (free : '/' ∉ p.toList) :
    IsRelative (prefixed (Text.joinWith '/' (p :: rest))) ↔
      (Text.startsWith ".." p = true → p = ".." ∧ rest ≠ []) := by
  obtain ⟨tail, whole, ended, slash⟩ := Text.toList_joinWith_cons '/' p rest
  have same : Text.startsWith ".." (Text.joinWith '/' (p :: rest)) = Text.startsWith ".." p := by
    rw [Text.startsWith, Text.startsWith, whole]
    rcases p.toList with _ | ⟨a, _ | ⟨b, q⟩⟩ <;> rcases tail with _ | ⟨c, tail⟩ <;>
      simp_all [List.isPrefixOf]
  unfold prefixed
  rw [same]
  split
  · next dots =>
    obtain ⟨q, chars⟩ : ∃ q, p.toList = '.' :: '.' :: q := by
      obtain ⟨q, chars⟩ := List.isPrefixOf_iff_prefix.mp dots
      exact ⟨q, chars.symm⟩
    have up : p = ".." ↔ q = [] := by
      rw [← String.toList_inj, chars]
      simp
    have here : Text.startsWith "./" (Text.joinWith '/' (p :: rest)) = false := by
      rw [Text.startsWith, whole, chars]
      simp [List.isPrefixOf]
    have above : Text.startsWith "../" (Text.joinWith '/' (p :: rest)) = true ↔
        q = [] ∧ tail ≠ [] := by
      rw [chars] at free
      rw [Text.startsWith, whole, chars]
      rcases q with _ | ⟨a, q⟩
      · rcases tail with _ | ⟨c, tail⟩ <;> simp_all [List.isPrefixOf]
      · simp_all [List.isPrefixOf]
    simp [IsRelative, here, above, dots, up, ended]
  · next plain =>
    refine iff_of_true (Or.inl ?_) fun dots => absurd dots plain
    simp [Text.startsWith, List.isPrefixOf]

end Specifier

def importPieces (source target : SitePath) : List String :=
  let shared := commonLength (directory source) target.segments
  let down := target.segments.drop shared
  List.replicate ((directory source).length - shared) ".." ++ down.dropLast ++
    (down.getLast?.map withoutExtension).toList

theorem relativeImport_eq (source target : SitePath) : relativeImport source target =
    prefixed (Text.joinWith '/' (importPieces source target)) := rfl

theorem startsWith_ts {stem : String} (segment : SitePath.IsSegment stem.toList) :
    Text.startsWith ".." (stem ++ ".ts") = Text.startsWith ".." stem := by
  rw [Text.startsWith, Text.startsWith, String.toList_append]
  obtain ⟨ne, dot, -⟩ := segment
  generalize stem.toList = s at ne dot
  rcases s with _ | ⟨a, _ | ⟨b, rest⟩⟩
  · exact absurd rfl ne
  · have other : '.' ≠ a := fun h => dot (h ▸ rfl)
    simp [List.isPrefixOf, other]
  · rfl

/-- Where the way to the target parts from the directory of the source. -/
structure Parting (source target : SitePath) (shared up down : List String) : Prop where
  source_eq : directory source = shared ++ up
  target_eq : target.segments = shared ++ down
  length : commonLength (directory source) target.segments = shared.length
  parted : up ≠ [] → down ≠ [] → up.head? ≠ down.head?

theorem exists_common (as bs : List String) : ∃ shared up down, as = shared ++ up ∧
    bs = shared ++ down ∧ commonLength as bs = shared.length ∧
      (up ≠ [] → down ≠ [] → up.head? ≠ down.head?) := by
  induction as generalizing bs with
  | nil => exact ⟨[], [], bs, rfl, rfl, by cases bs <;> rfl, fun h => absurd rfl h⟩
  | cons a as ih =>
    cases bs with
    | nil => exact ⟨[], a :: as, [], rfl, rfl, rfl, fun _ h => absurd rfl h⟩
    | cons b bs =>
      by_cases same : a = b
      · subst same
        obtain ⟨shared, up, down, rfl, rfl, length, parted⟩ := ih bs
        exact ⟨a :: shared, up, down, rfl, rfl, by rw [commonLength, if_pos rfl, length]; rfl, parted⟩
      · exact ⟨[], a :: as, b :: bs, rfl, rfl, by rw [commonLength, if_neg same]; rfl,
          fun _ _ h => same (Option.some.inj h)⟩

theorem exists_parting (source target : SitePath) :
    ∃ shared up down, Parting source target shared up down := by
  obtain ⟨shared, up, down, source_eq, target_eq, length, parted⟩ :=
    exists_common (directory source) target.segments
  exact ⟨shared, up, down, source_eq, target_eq, length, parted⟩

namespace Parting

variable {source target : SitePath} {shared up down init : List String} {stem : String}

theorem pieces (h : Parting source target shared up down) : importPieces source target =
    List.replicate up.length ".." ++ down.dropLast ++ (down.getLast?.map withoutExtension).toList := by
  rw [importPieces, h.length, h.target_eq, h.source_eq, List.drop_left, List.length_append,
    Nat.add_sub_cancel_left]

theorem not_named (h : Parting source target shared up []) :
    (follow (directory source) (Text.splitOn '/' (relativeImport source target))).map
      (fun way => Text.joinWith '/' way ++ ".ts") ≠ some target.text := by
  have pieces : importPieces source target = List.replicate up.length ".." ++ [] := by
    rw [h.pieces]
    simp
  have free : ∀ p ∈ importPieces source target, '/' ∉ p.toList := by
    intro p hp
    rw [pieces, List.append_nil] at hp
    rw [List.eq_of_mem_replicate hp]
    decide
  have all : shared = Text.splitOn '/' target.text := by
    rw [← List.append_nil shared, ← h.target_eq]
    rfl
  rw [relativeImport_eq, follow_prefixed _ free, pieces, h.source_eq, follow_ups, follow, all,
    Option.map_some, Text.joinWith_splitOn]
  intro same
  have length := congrArg String.length (Option.some.inj same)
  simp at length

variable (h : Parting source target shared up (init ++ [stem ++ ".ts"]))
include h

theorem pieces_concat :
    importPieces source target = List.replicate up.length ".." ++ (init ++ [stem]) := by
  rw [h.pieces, List.dropLast_concat, List.getLast?_concat, Option.map_some, withoutExtension_ts,
    Option.toList_some, List.append_assoc]

theorem outside : ¬ target.segments <+: directory source := by
  rw [h.source_eq, h.target_eq, List.prefix_append_right_inj]
  rintro ⟨rest, rfl⟩
  refine h.parted (by simp) (by simp) ?_
  rw [List.head?_append_of_ne_nil _ (by simp)]

theorem quotable_iff : Quotable (relativeImport source target) ↔
    ∀ name ∈ target.segments.drop (commonLength (directory source) target.segments),
      Quotable name := by
  have ups : ∀ p ∈ List.replicate up.length "..", Quotable p := by
    intro p hp
    rw [List.eq_of_mem_replicate hp]
    exact Text.forall_of_all rfl
  rw [relativeImport_eq, quotable_prefixed_iff, h.pieces_concat, h.length, h.target_eq,
    List.drop_left]
  simp only [List.forall_mem_append, List.forall_mem_singleton, quotable_ts_iff]
  exact and_iff_right ups

variable (proper : ∀ s ∈ init ++ [stem], SitePath.IsSegment s.toList)
include proper

theorem named : (follow (directory source) (Text.splitOn '/' (relativeImport source target))).map
    (fun way => Text.joinWith '/' way ++ ".ts") = some target.text := by
  have free : ∀ p ∈ importPieces source target, '/' ∉ p.toList := by
    rw [h.pieces_concat]
    refine List.forall_mem_append.mpr ⟨fun p hp => ?_, fun p hp => (proper p hp).2.2.2.1⟩
    rw [List.eq_of_mem_replicate hp]
    decide
  rw [relativeImport_eq, follow_prefixed _ free, h.pieces_concat, h.source_eq, follow_ups,
    follow_names shared proper, Option.map_some, ← List.append_assoc, Text.joinWith_concat_append,
    List.append_assoc, ← h.target_eq, SitePath.segments, Text.joinWith_splitOn]

theorem relative_iff : IsRelative (relativeImport source target) ↔
    ∀ name rest, target.segments = directory source ++ name :: rest →
      Text.startsWith ".." name = false := by
  rw [relativeImport_eq, h.pieces_concat, h.source_eq, h.target_eq]
  cases up with
  | cons u up =>
    rw [List.length_cons, List.replicate_succ, List.cons_append,
      isRelative_prefixed_iff (by decide)]
    refine iff_of_true (fun _ => ⟨rfl, by simp⟩) fun name rest same => ?_
    rw [List.append_assoc, List.append_cancel_left_eq] at same
    exact absurd (by rw [same]; rfl) (h.parted (List.cons_ne_nil u up) (by simp))
  | nil =>
    have plain {p : String} {rest : List String} (first : SitePath.IsSegment p.toList) :
        IsRelative (prefixed (Text.joinWith '/' (p :: rest))) ↔ Text.startsWith ".." p = false := by
      have up : p ≠ ".." := by
        rintro rfl
        exact first.2.2.1 rfl
      rw [isRelative_prefixed_iff first.2.2.2.1]
      simp [up]
    cases init with
    | nil =>
      have last := proper stem (by simp)
      simp [plain last, startsWith_ts last]
    | cons p init => simp [plain (proper p (by simp))]

end Parting

/-- The import of a module with a name of its own reaches it just when nothing is in the way. -/
theorem reaches_relativeImport_iff {source target : SitePath} {front : List String} {stem : String}
    (name : target.segments = front ++ [stem ++ ".ts"]) (segment : SitePath.IsSegment stem.toList) :
    Reaches source (relativeImport source target) target ↔ Passable source target := by
  obtain ⟨shared, up, down, parting⟩ := exists_parting source target
  rcases List.eq_nil_or_concat down with rfl | ⟨init, last, rfl⟩
  -- Nothing is left of the target, its name included.
  · refine iff_of_false (fun reaches => parting.not_named reaches.named) fun passable => ?_
    refine passable.outside ?_
    rw [parting.source_eq, parting.target_eq, List.append_nil]
    exact List.prefix_append shared up
  · rw [List.concat_eq_append] at parting
    have both := parting.target_eq.symm.trans name
    rw [← List.append_assoc] at both
    obtain ⟨rfl, same⟩ := List.append_inj' both rfl
    obtain rfl := List.singleton_inj.mp same
    have proper : ∀ s ∈ init ++ [stem], SitePath.IsSegment s.toList := by
      refine List.forall_mem_append.mpr ⟨fun s hs => ?_, List.forall_mem_singleton.mpr segment⟩
      have mem : s ∈ target.segments := by
        rw [name]
        simp [hs]
      exact SitePath.isSegment_of_mem_segments mem
    constructor
    · rintro ⟨quotable, relative, -⟩
      exact ⟨parting.outside, (parting.relative_iff proper).mp relative,
        parting.quotable_iff.mp quotable⟩
    · rintro ⟨-, plain, quotable⟩
      exact ⟨parting.quotable_iff.mpr quotable, (parting.relative_iff proper).mpr plain,
        parting.named proper⟩

theorem quotable_of_name {s : String} (name : ∀ c ∈ s.toList, Text.isNameChar c = true ∨ c = '/') :
    Quotable s := by
  have foreign : ∀ c ∈ ['"', '\\', '\n', '\r'], ¬ (Text.isNameChar c = true ∨ c = '/') :=
    Text.forall_of_all rfl
  exact fun c hc mem => foreign c hc (name c mem)

section Pages

variable {g : Generator} {w : PageWork} {index : SitePath}

theorem reaches_of_made_iff (made : w.Made g) :
    Reaches w.modulePath (relativeImport w.modulePath w.dataPath) w.dataPath ↔
      Passable w.modulePath w.dataPath := by
  have tidy := tidy_dataName made.route
  obtain ⟨dir, front, place⟩ := exists_place_of_join tidy made.data
  obtain ⟨-, segments⟩ := place tidy made.data
  obtain ⟨dirs, last, split, split_ts⟩ := exists_segments_ts w.route.fileStem
  rw [split_ts, ← List.append_assoc] at segments
  have proper := SitePath.isSegment_of_mem_segmentsOf (Route.tidy_fileStem made.route).normal
  exact reaches_relativeImport_iff segments (proper last (by simp [split]))

theorem index_reaches (made : w.Made g)
    (index_eq : join g.layout.dataDir Layout.indexFile = .ok index) :
    Reaches index (relativeImport index w.dataPath) w.dataPath := by
  obtain ⟨specifier, -⟩ := imports_of_join made.route index_eq made.data
  obtain ⟨dir, front, place⟩ := exists_place_of_join tidy_indexName index_eq
  obtain ⟨-, index_segments⟩ := place tidy_indexName index_eq
  obtain ⟨-, data_segments⟩ := place (tidy_dataName made.route) made.data
  obtain ⟨dirs, last, split, split_ts⟩ := exists_segments_ts w.route.fileStem
  rw [split_ts] at data_segments
  have beside : directory index = front := by
    rw [directory, index_segments, SitePath.segmentsOf_of_not_mem (by decide), List.dropLast_concat]
  have parting : Parting index w.dataPath front [] (dirs ++ [last ++ ".ts"]) :=
    ⟨by rw [beside, List.append_nil], data_segments,
      by rw [beside, data_segments, commonLength_append], fun empty => absurd rfl empty⟩
  have proper := SitePath.isSegment_of_mem_segmentsOf (Route.tidy_fileStem made.route).normal
  refine ⟨?_, Or.inl ?_, parting.named (split ▸ proper)⟩
  · rw [specifier, quotable_dot_iff]
    exact quotable_of_name (Route.isNameChar_of_mem_fileStem made.route)
  · rw [specifier]
    simp [Text.startsWith, List.isPrefixOf]

end Pages

/-- The binding of a page imports its data. -/
def Bound (index : SitePath) (w : PageWork) (b : Binding) : Prop :=
  b.specifier = "\"" ++ relativeImport index w.dataPath ++ "\"" ∧
    Reaches index (relativeImport index w.dataPath) w.dataPath

theorem bound_indexModule {g : Generator} {index : SitePath} {works : List PageWork}
    (made : ∀ w ∈ works, w.Made g)
    (index_eq : join g.layout.dataDir Layout.indexFile = .ok index) :
    ∃ bs, indexModule index (works.map PageWork.entry) = indexing bs ∧
      List.Forall₂ (Bound index) works bs := by
  refine ⟨_, indexModule_eq index _, ?_⟩
  generalize 0 = n
  induction works generalizing n with
  | nil => exact .nil
  | cons w works ih =>
    obtain ⟨here, made⟩ := List.forall_mem_cons.mp made
    exact .cons ⟨rfl, index_reaches here index_eq⟩ (ih made (n + 1))

end Generator

namespace Layout

open Generator

/-- Names that are no trouble for imports: the data directory has none that begins with two dots or
that needs escapes, and the application directory none like those of data files. -/
structure Plain (l : Layout) : Prop where
  data_flush : l.dataDir.IsFlush
  app_flush : l.appDir.IsFlush
  data : ∀ name ∈ l.dataDir.segments, Text.startsWith ".." name = false ∧ Quotable name
  app : ∀ name ∈ l.appDir.segments, ¬ ".ts".toList <:+ name.toList

theorem segments_of_join {dir p : SitePath} {rest : String} (flush : dir.IsFlush)
    (tidy : SitePath.Tidy rest.toList) (h : join dir rest = .ok p) :
    p.segments = dir.segments ++ SitePath.segmentsOf rest.toList := by
  obtain ⟨q, ok, text⟩ := join_of_opened tidy (SitePath.opened_of_flush flush)
  cases ok.symm.trans h
  rw [SitePath.segments_eq, text, SitePath.segmentsOf_append]
  rfl

theorem exists_segments_moduleName {key : String} {r : Route} (route : Route.ofKey key = .ok r) :
    ∃ ways, SitePath.segmentsOf (moduleName r).toList = ways ++ [routeModuleFile] ∧
      ∀ name ∈ ways, '.' ∉ name.toList := by
  have last : SitePath.segmentsOf routeModuleFile.toList = [routeModuleFile] :=
    SitePath.segmentsOf_of_not_mem (by decide)
  unfold moduleName
  split
  · exact ⟨[], last, nofun⟩
  · next below =>
    have chars := Route.isNameChar_of_mem_fileStem route
    rw [Route.fileStem, if_neg below] at chars
    refine ⟨SitePath.segmentsOf r.relative.toList, ?_, List.forall_mem_map.mpr fun p hp dot => ?_⟩
    · rw [← last, ← SitePath.segmentsOf_append, String.toList_append, String.toList_append,
        List.append_assoc]
      rfl
    · rw [String.toList_ofList] at dot
      exact absurd (chars '.' (SitePath.subset_of_mem_splitChars hp '.' dot)) (by decide)

theorem plain_of_mem_dataName {key : String} {r : Route} (route : Route.ofKey key = .ok r) :
    ∀ name ∈ SitePath.segmentsOf (r.fileStem ++ ".ts").toList,
      Text.startsWith ".." name = false ∧ Quotable name := by
  have chars : ∀ name ∈ SitePath.segmentsOf r.fileStem.toList,
      ∀ c ∈ name.toList, Text.isNameChar c = true ∨ c = '/' := by
    refine List.forall_mem_map.mpr fun p hp c hc => ?_
    rw [String.toList_ofList] at hc
    exact Route.isNameChar_of_mem_fileStem route c (SitePath.subset_of_mem_splitChars hp c hc)
  have plain : ∀ name ∈ SitePath.segmentsOf r.fileStem.toList,
      Text.startsWith ".." name = false := by
    intro name hname
    have dotless : '.' ∉ name.toList := fun dot => absurd (chars name hname '.' dot) (by decide)
    rw [Text.startsWith, Bool.eq_false_iff]
    exact fun dots => dotless ((List.isPrefixOf_iff_prefix.mp dots).mem (by simp))
  have proper := SitePath.isSegment_of_mem_segmentsOf (Route.tidy_fileStem route).normal
  obtain ⟨dirs, last, split, split_ts⟩ := exists_segments_ts r.fileStem
  rw [split] at chars plain proper
  rw [split_ts]
  obtain ⟨chars_dirs, chars_last⟩ := List.forall_mem_append.mp chars
  obtain ⟨plain_dirs, plain_last⟩ := List.forall_mem_append.mp plain
  refine List.forall_mem_append.mpr
    ⟨fun name hname => ⟨plain_dirs name hname, quotable_of_name (chars_dirs name hname)⟩,
      List.forall_mem_singleton.mpr ⟨?_, quotable_ts_iff.mpr (quotable_of_name ?_)⟩⟩
  · rw [startsWith_ts (proper last (by simp))]
    exact plain_last last (List.mem_singleton_self last)
  · exact chars_last last (List.mem_singleton_self last)

namespace Plain

variable {g : Generator} (plain : g.layout.Plain) {w : PageWork} (made : w.Made g)
include plain made

theorem passable : Passable w.modulePath w.dataPath := by
  obtain ⟨dirs, last, -, split⟩ := exists_segments_ts w.route.fileStem
  obtain ⟨ways, module_split, dotless⟩ := exists_segments_moduleName made.route
  have data_segments := segments_of_join plain.data_flush (tidy_dataName made.route) made.data
  have module_eq := made.module
  rw [routeModulePath_eq] at module_eq
  have module_segments := segments_of_join plain.app_flush (tidy_moduleName made.route) module_eq
  have dir : directory w.modulePath = g.layout.appDir.segments ++ ways := by
    rw [directory, module_segments, module_split, ← List.append_assoc, List.dropLast_concat]
  have names : ∀ name ∈ w.dataPath.segments, Text.startsWith ".." name = false ∧ Quotable name := by
    rw [data_segments]
    exact List.forall_mem_append.mpr ⟨plain.data, plain_of_mem_dataName made.route⟩
  refine ⟨fun above => ?_, fun name rest whole => ?_, fun name hname => ?_⟩
  · have mem : last ++ ".ts" ∈ directory w.modulePath :=
      above.mem (by rw [data_segments, split]; simp)
    rw [dir, List.mem_append] at mem
    rcases mem with mem | mem
    · exact plain.app _ mem (by simp)
    · exact dotless _ mem (by simp)
  · exact (names name (by rw [whole]; simp)).1
  · exact (names name (List.mem_of_mem_drop hname)).2

end Plain

end Layout

namespace Generator

/-- Of everything that a generation writes, the imports that the index makes reach their data, and
one of a route module does just when nothing is in its way. -/
theorem imports_reach_iff {g : Generator} {d : Document} {overrides : SeoOverrides}
    {files : List GeneratedFile} (h : g.generate d overrides = .ok files) :
    ∃ works index, Composed g d overrides works index files ∧
      (∃ bs, indexModule index (works.map PageWork.entry) = indexing bs ∧
        List.Forall₂ (Bound index) works bs) ∧
      ∀ w ∈ works,
        (∃ literal, (w.routeFile g overrides).content = routing g.layout.rendererImport
          (relativeImport w.modulePath w.dataPath) literal) ∧
        (Reaches w.modulePath (relativeImport w.modulePath w.dataPath) w.dataPath ↔
          Passable w.modulePath w.dataPath) := by
  obtain ⟨works, index, composed⟩ := composed_of_generate h
  exact ⟨works, index, composed, bound_indexModule composed.made composed.index_eq,
    fun w hw => ⟨⟨_, rfl⟩, reaches_of_made_iff (composed.made w hw)⟩⟩

theorem card_imports_reach : ∃ files, cardGenerator.generate cardDocument [] = .ok files ∧
    ∃ works index, Composed cardGenerator cardDocument [] works index files ∧ works.length = 2 ∧
      ∀ w ∈ works, Reaches w.modulePath (relativeImport w.modulePath w.dataPath) w.dataPath := by
  have front {p : SitePath} (h : p.text.toList.head? = some 's') : p.IsFlush := by
    intro c hc
    obtain rfl := Option.some.inj (h.symm.trans hc)
    decide
  have plain : cardGenerator.layout.Plain :=
    ⟨front (by decide), front (by decide), by decide +kernel, by decide⟩
  obtain ⟨files, ok, -⟩ := card_generates
  obtain ⟨works, index, composed, -, imports⟩ := imports_reach_iff ok
  have pages : works.length = 2 := by
    rw [← List.length_map PageWork.source, composed.pages]
    rfl
  exact ⟨files, ok, works, index, composed, pages, fun w hw =>
    (imports w hw).2.mpr (plain.passable (composed.made w hw))⟩

end Generator

namespace Layout

open Generator

def pathOf (names : List String) (ne : names ≠ [])
    (proper : ∀ s ∈ names, SitePath.IsSegment s.toList) : SitePath where
  text := Text.joinWith '/' names
  normal := ⟨names.map String.toList, by simpa using ne, List.forall_mem_map.mpr proper,
    String.toList_ofList⟩

def hidden : Layout :=
  ⟨pathOf ["src", "..data"] (by simp) (by simp [SitePath.IsSegment]),
    pathOf ["src"] (by simp) (by simp [SitePath.IsSegment]), "@/components/PageRenderer", false⟩

def nested : Layout :=
  ⟨pathOf ["src"] (by simp) (by simp [SitePath.IsSegment]),
    pathOf ["src", "index.ts"] (by simp) (by simp [SitePath.IsSegment]),
    "@/components/PageRenderer", false⟩

def quoted : Layout :=
  ⟨pathOf ["a\"b"] (by simp) (by simp [SitePath.IsSegment]),
    pathOf ["src"] (by simp) (by simp [SitePath.IsSegment]), "@/components/PageRenderer", false⟩

/-- The front page is generated with an import that leads astray. -/
def Astray (l : Layout) (specifier : String) : Prop :=
  ∃ files works index, generate ⟨⟨[]⟩, l⟩ (lone "index") [] = .ok files ∧
    Composed ⟨⟨[]⟩, l⟩ (lone "index") [] works index files ∧ ∃ w ∈ works,
      relativeImport w.modulePath w.dataPath = specifier ∧ ¬ Reaches w.modulePath specifier w.dataPath

def strays (l : Layout) (specifier : String) : Except GenerationError Bool := do
  let data ← dataPath l Route.root
  let module ← routeModulePath l Route.root
  return decide (relativeImport module data = specifier ∧ ¬ Reaches module specifier data)

theorem astray_of_strays {l : Layout} {specifier : String}
    (generated : (generate ⟨⟨[]⟩, l⟩ (lone "index") []).map List.length = .ok 3)
    (lost : l.strays specifier = .ok true) : l.Astray specifier := by
  obtain ⟨files, ok, -⟩ := exists_of_map_eq_ok generated
  obtain ⟨data, data_eq, lost⟩ := exists_of_bind_eq_ok lost
  obtain ⟨module, module_eq, lost⟩ := exists_of_bind_eq_ok lost
  obtain ⟨works, index, composed⟩ := composed_of_generate ok
  obtain ⟨w, hw, source⟩ : ∃ w ∈ works, w.source = ("index", ⟨[], none⟩) :=
    List.mem_map.mp (composed.pages ▸ List.mem_singleton_self _)
  have made := composed.made w hw
  have root : w.route = Route.root := by
    have route := made.route
    rw [(Prod.mk.inj source).1] at route
    exact Except.ok.inj (route.symm.trans (by decide))
  have data_same : w.dataPath = data :=
    Except.ok.inj (made.data.symm.trans (root ▸ data_eq))
  have module_same : w.modulePath = module :=
    Except.ok.inj (made.module.symm.trans (root ▸ module_eq))
  refine ⟨files, works, index, ok, composed, w, hw, ?_⟩
  rw [data_same, module_same]
  exact of_decide_eq_true (Except.ok.inj lost)

/-- Imports that are taken for a package, that stop at a directory, and that break off. -/
theorem imports_astray :
    (SitePath.ofText "src/..data" = .ok hidden.dataDir ∧ hidden.Astray "..data/index") ∧
      (SitePath.ofText "src/index.ts" = .ok nested.appDir ∧ nested.Astray "./") ∧
      SitePath.ofText "a\"b" = .ok quoted.dataDir ∧ quoted.Astray "../a\"b/index" :=
  ⟨⟨by decide, astray_of_strays (by decide +kernel) (by decide +kernel)⟩,
    ⟨by rfl, astray_of_strays (by decide +kernel) (by decide +kernel)⟩,
    by decide, astray_of_strays (by decide +kernel) (by decide +kernel)⟩

end Layout

end SitePublish
