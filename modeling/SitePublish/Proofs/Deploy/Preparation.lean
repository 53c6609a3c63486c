import Mathlib.Data.List.Nodup
import SitePublish.Deploy.Preparation
import SitePublish.Proofs.Dict
import SitePublish.Proofs.Site.Path

/-!
# The files that ship

Merging keeps one file for a path, the last one of the upper list or else of the lower one, and what
is retained is the merged files that the filter includes for production, all of them for a preview.
What the filter saw of a file is what the bytes of the file say, as far as the project reads its
files from their bytes.
-/

set_option autoImplicit false

namespace SitePublish

/-- The text of a content is the one its bytes are read as. -/
def FileContent.Faithful (c : FileContent) : Prop := c.text? = Text.ofUtf8? c.bytes

namespace FileContent

theorem text?_ofBytes (bytes : List UInt8) : (ofBytes bytes).text? = Text.ofUtf8? bytes := by
  unfold ofBytes
  split
  · next s h => rw [h, text?]
  · next h => rw [h, text?]

theorem faithful_ofBytes (bytes : List UInt8) : (ofBytes bytes).Faithful := by
  rw [Faithful, text?_ofBytes, bytes_ofBytes]

theorem faithful_text (s : String) : (text s).Faithful := (Text.ofUtf8?_utf8 s).symm

end FileContent

structure ListedFile where
  path : SitePath
  bytes : List UInt8
  origin : FileOrigin
deriving DecidableEq

def ListedFile.candidate (f : ListedFile) : Candidate :=
  ⟨f.path, FileContent.ofBytes f.bytes, f.origin⟩

abbrev Listing := Except ProjectError (List ListedFile)

def Listing.candidates (l : Listing) : Except ProjectError (List Candidate) :=
  l.map fun files => files.map ListedFile.candidate

theorem Listing.faithful_candidates {l : Listing} {files : List Candidate}
    (h : l.candidates = .ok files) : ∀ c ∈ files, c.content.Faithful := by
  cases l with
  | error e => cases h
  | ok listed =>
    cases h
    intro c hc
    obtain ⟨f, -, rfl⟩ := List.mem_map.mp hc
    exact FileContent.faithful_ofBytes f.bytes

def ProductionFilter.Includes (f : ProductionFilter) (p : SitePath) (bytes : List UInt8) : Prop :=
  (f.classify p.text (Text.ofUtf8? bytes)).included = true

theorem mem_of_mem_mergeCandidates {project generated : List Candidate} {c : Candidate}
    (h : c ∈ mergeCandidates project generated) : c ∈ project ∨ c ∈ generated := by
  obtain ⟨e, he, rfl⟩ := List.mem_map.mp h
  obtain ⟨c, hc, rfl⟩ := List.mem_map.mp (Dict.mem_of_mem_ofList he)
  exact List.mem_append.mp hc

theorem mergeCandidates_paths (project generated : List Candidate) :
    (mergeCandidates project generated).map Candidate.path =
      Dict.keys (Dict.ofList ((project ++ generated).map fun c => (c.path, c))) := by
  simp only [mergeCandidates, Dict.values, Dict.keys, List.map_map]
  apply List.map_congr_left
  intro e he
  obtain ⟨c, -, rfl⟩ := List.mem_map.mp (Dict.mem_of_mem_ofList he)
  rfl

theorem mergeCandidates_sorted (project generated : List Candidate) :
    ((mergeCandidates project generated).map Candidate.path).Pairwise (· < ·) := by
  rw [mergeCandidates_paths]
  exact Dict.sortedKeys_ofList _

theorem mergeCandidates_nodup (project generated : List Candidate) :
    ((mergeCandidates project generated).map Candidate.path).Nodup :=
  (mergeCandidates_sorted project generated).imp fun hlt => ne_of_irrefl hlt

theorem mem_mergeCandidates_paths {project generated : List Candidate} {p : SitePath} :
    p ∈ (mergeCandidates project generated).map Candidate.path ↔
      p ∈ project.map Candidate.path ∨ p ∈ generated.map Candidate.path := by
  rw [mergeCandidates_paths, Dict.mem_keys_ofList, Dict.keys, List.map_map, ← List.mem_append,
    ← List.map_append]
  rfl

/-- A member of the list with none of its path behind it. -/
def Candidate.LastIn (files : List Candidate) (c : Candidate) : Prop :=
  ∃ before after, files = before ++ c :: after ∧ ∀ later ∈ after, later.path ≠ c.path

theorem Candidate.lastIn_of_mem {files : List Candidate}
    (distinct : (files.map Candidate.path).Nodup) {c : Candidate} (mem : c ∈ files) :
    c.LastIn files := by
  obtain ⟨before, after, rfl⟩ := List.append_of_mem mem
  rw [List.map_append, List.map_cons] at distinct
  have fresh := (List.nodup_cons.mp (List.nodup_append.mp distinct).2.1).1
  exact ⟨before, after, rfl, fun later h same => fresh (same ▸ List.mem_map_of_mem h)⟩

def lastAt? (files : List Candidate) (p : SitePath) : Option Candidate :=
  files.reverse.find? (·.path = p)

theorem lastAt?_path_iff {files : List Candidate} {c : Candidate} :
    lastAt? files c.path = some c ↔ c.LastIn files := by
  rw [lastAt?, List.find?_eq_some_iff_append]
  constructor
  · rintro ⟨-, after, before, split, others⟩
    refine ⟨before.reverse, after.reverse, ?_, ?_⟩
    · simpa using congrArg List.reverse split
    · simpa using others
  · rintro ⟨before, after, split, others⟩
    exact ⟨by simp, after.reverse, before.reverse, by simp [split], by simpa using others⟩

theorem lastAt?_eq_none_iff {files : List Candidate} {p : SitePath} :
    lastAt? files p = none ↔ p ∉ files.map Candidate.path := by
  simp [lastAt?]

theorem lastAt?_perm {files files' : List Candidate} (perm : files.Perm files')
    (distinct : (files.map Candidate.path).Nodup) (p : SitePath) :
    lastAt? files p = lastAt? files' p := by
  have both : files.reverse.Perm files'.reverse :=
    (List.reverse_perm files).trans (perm.trans (List.reverse_perm files').symm)
  rw [lastAt?, lastAt?, ← Dict.get?_map_key, ← Dict.get?_map_key]
  refine Dict.get?_perm (both.map fun c => (c.path, c)) ?_ p
  rwa [Dict.keys, List.map_map, List.map_reverse, List.nodup_reverse]

/-- At a path stands the last file of the upper list, or else of the lower one. -/
theorem get?_layers (project generated : List Candidate) (p : SitePath) :
    Dict.get? (Dict.ofList ((project ++ generated).map fun c => (c.path, c))) p =
      (lastAt? generated p).or (lastAt? project p) := by
  rw [Dict.get?_ofList, ← List.map_reverse, Dict.get?_map_key, List.reverse_append,
    List.find?_append]
  rfl

theorem mergeCandidates_congr {project project' generated generated' : List Candidate}
    (lower : ∀ p, lastAt? project p = lastAt? project' p)
    (upper : ∀ p, lastAt? generated p = lastAt? generated' p) :
    mergeCandidates project generated = mergeCandidates project' generated' := by
  refine congrArg Dict.values
    ((Dict.sortedKeys_ofList _).ext (Dict.sortedKeys_ofList _) fun p => ?_)
  rw [get?_layers, get?_layers, lower p, upper p]

theorem mem_mergeCandidates_iff {project generated : List Candidate} {c : Candidate} :
    c ∈ mergeCandidates project generated ↔
      c.LastIn generated ∨ c.path ∉ generated.map Candidate.path ∧ c.LastIn project := by
  have own : ∀ e ∈ Dict.ofList ((project ++ generated).map fun c => (c.path, c)),
      e = (e.2.path, e.2) := fun e he => by
    obtain ⟨c, -, rfl⟩ := List.mem_map.mp (Dict.mem_of_mem_ofList he)
    rfl
  have found : c ∈ mergeCandidates project generated ↔
      (lastAt? generated c.path).or (lastAt? project c.path) = some c := by
    rw [← get?_layers]
    constructor
    · intro mem
      obtain ⟨e, he, rfl⟩ := List.mem_map.mp mem
      have there := Dict.get?_of_mem (Dict.sortedKeys_ofList _).nodup he
      rwa [own e he] at there
    · intro there
      exact List.mem_map.mpr ⟨_, Dict.mem_of_get? there, rfl⟩
  rw [found, Option.or_eq_some_iff, lastAt?_path_iff, lastAt?_path_iff, lastAt?_eq_none_iff]

namespace Prepared

theorem retained_perm (target : Target) (b : FilterBatch Candidate) :
    (ofBatch target b).retained.Perm
      ((if target.appliesExclusions then b.included else b.included ++ b.excluded).map
        Classified.file) :=
  List.mergeSort_perm _ _

theorem excluded_ofBatch (target : Target) (b : FilterBatch Candidate) :
    (ofBatch target b).excluded = b.excluded.map .ofClassified := rfl

theorem sortCandidates_pairwise (files : List Candidate) :
    (sortCandidates files).Pairwise fun a b => a.path.text ≤ b.path.text := by
  have le_iff (a b : Candidate) :
      (!decide (b.path.text < a.path.text)) = true ↔ a.path.text ≤ b.path.text := by
    rw [Bool.not_eq_true', decide_eq_false_iff_not, not_lt]
  have sorted : (sortCandidates files).Pairwise fun a b =>
      (!decide (b.path.text < a.path.text)) = true := by
    refine List.pairwise_mergeSort (fun a b c hab hbc => ?_) (fun a b => ?_) files
    · exact (le_iff a c).mpr (((le_iff a b).mp hab).trans ((le_iff b c).mp hbc))
    · rw [Bool.or_eq_true, le_iff, le_iff]
      exact le_total a.path.text b.path.text
  exact sorted.imp fun h => (le_iff _ _).mp h

end Prepared

namespace Pipeline

variable (p : Pipeline) (target : Target) (project : List Candidate)
  (generated : List GeneratedFile)

def merged : List Candidate := mergeCandidates project (generated.map GeneratedFile.toCandidate)

theorem batch_included : (p.batch project generated).included =
    ((merged project generated).map p.filter.classifyCandidate).filter
      fun c => c.decision.included := rfl

theorem batch_excluded : (p.batch project generated).excluded =
    ((merged project generated).map p.filter.classifyCandidate).filter
      fun c => !c.decision.included := rfl

theorem file_classified (files : List Candidate) :
    (files.map p.filter.classifyCandidate).map Classified.file = files := by
  rw [List.map_map]
  exact List.map_id files

theorem retained_preview :
    (Prepared.ofBatch .preview (p.batch project generated)).retained.Perm
      (merged project generated) := by
  refine (Prepared.retained_perm _ _).trans ?_
  rw [if_neg (by decide), batch_included, batch_excluded]
  have hsplit := List.filter_append_perm (fun c : Classified Candidate => c.decision.included)
    ((merged project generated).map p.filter.classifyCandidate)
  have hfile := hsplit.map Classified.file
  rwa [p.file_classified] at hfile

theorem retained_production :
    (Prepared.ofBatch .production (p.batch project generated)).retained.Perm
      ((merged project generated).filter
        fun c => (p.filter.classify c.path.text c.content.text?).included) := by
  refine (Prepared.retained_perm _ _).trans ?_
  rw [if_pos (by decide), batch_included, List.filter_map, List.map_map]
  exact List.Perm.of_eq (List.map_id _)

theorem retained_paths_nodup :
    ((Prepared.ofBatch target (p.batch project generated)).retained.map Candidate.path).Nodup := by
  have hn : ((merged project generated).map Candidate.path).Nodup := mergeCandidates_nodup _ _
  cases target with
  | preview => exact (((p.retained_preview project generated).map _).nodup_iff).mpr hn
  | production =>
    refine (((p.retained_production project generated).map _).nodup_iff).mpr ?_
    exact hn.sublist (List.filter_sublist.map _)

/-- No path is there twice, so the order of the retained files is a strict one. -/
theorem retained_sorted :
    ((Prepared.ofBatch target (p.batch project generated)).retained.map
      fun c => c.path.text).Pairwise (· < ·) := by
  have distinct := List.pairwise_map.mp (p.retained_paths_nodup target project generated)
  rw [List.pairwise_map]
  exact (distinct.and (Prepared.sortCandidates_pairwise _)).imp fun ⟨ne, le⟩ =>
    lt_of_le_of_ne le fun same => ne (SitePath.text_injective same)

theorem retained_preview_eq :
    (Prepared.ofBatch .preview (p.batch project generated)).retained = merged project generated := by
  have sorted := List.pairwise_map.mp (p.retained_sorted .preview project generated)
  have laid := List.pairwise_map.mp
    (mergeCandidates_sorted project (generated.map GeneratedFile.toCandidate))
  exact (p.retained_preview project generated).eq_of_pairwise
    (fun _ _ _ _ before after => absurd before (lt_asymm after)) sorted laid

variable {p target project generated}

theorem mem_retained_iff {c : Candidate} :
    c ∈ (Prepared.ofBatch target (p.batch project generated)).retained ↔
      c ∈ merged project generated ∧ (target = .production →
        (p.filter.classify c.path.text c.content.text?).included = true) := by
  cases target with
  | preview => simp [(p.retained_preview project generated).mem_iff]
  | production => simp [(p.retained_production project generated).mem_iff]

theorem mem_merged_of_mem_retained {c : Candidate}
    (h : c ∈ (Prepared.ofBatch target (p.batch project generated)).retained) :
    c ∈ merged project generated :=
  (mem_retained_iff.mp h).1

theorem included_of_mem_retained {c : Candidate}
    (h : c ∈ (Prepared.ofBatch .production (p.batch project generated)).retained) :
    (p.filter.classify c.path.text c.content.text?).included = true :=
  (mem_retained_iff.mp h).2 rfl

theorem faithful_merged (hp : ∀ c ∈ project, c.content.Faithful) {c : Candidate}
    (h : c ∈ merged project generated) : c.content.Faithful := by
  rcases mem_of_mem_mergeCandidates h with hc | hc
  · exact hp c hc
  · obtain ⟨f, -, rfl⟩ := List.mem_map.mp hc
    exact FileContent.faithful_text f.content

theorem select_eq_ok_iff {prepared : Prepared} :
    p.select target project generated = .ok prepared ↔
      (target = .production → droppedFile (p.batch project generated) = none) ∧
        prepared = .ofBatch target (p.batch project generated) := by
  cases target with
  | preview => simp [select, Target.appliesExclusions, eq_comm]
  | production =>
    simp only [select, Target.appliesExclusions, decide_true, if_true]
    split
    · next found => simp [found]
    · next missing => simp [missing, eq_comm]

theorem select_eq_error_iff {e : DeployFailure} :
    p.select target project generated = .error e ↔
      target = .production ∧ ∃ c, droppedFile (p.batch project generated) = some c ∧
        e = .generatedFileExcluded c.file.path.text c.decision.rule c.decision.reason := by
  cases target with
  | preview => simp [select, Target.appliesExclusions]
  | production =>
    simp only [select, Target.appliesExclusions, decide_true, if_true]
    split
    · next c found => simp [found, eq_comm]
    · next missing => simp [missing]

theorem select_of_prepare_ok {document : Document} {overrides : SeoOverrides}
    {listing : Except ProjectError (List Candidate)} {prepared : Prepared}
    (h : (p.prepare target document overrides listing).1 = .ok prepared) :
    ∃ generated files, p.generator.generate document overrides = .ok generated ∧
      listing = .ok files ∧ p.select target files generated = .ok prepared := by
  unfold prepare at h
  split at h
  · cases h
  · next generated hg =>
    cases listing with
    | error e => cases h
    | ok files =>
      dsimp only at h
      split at h
      · cases h
      · next selected =>
        cases h
        exact ⟨generated, files, hg, rfl, selected⟩

theorem prepare_eq_ok {document : Document} {overrides : SeoOverrides}
    {listing : Except ProjectError (List Candidate)} {prepared : Prepared}
    (h : (p.prepare target document overrides listing).1 = .ok prepared) :
    ∃ generated files, p.generator.generate document overrides = .ok generated ∧
      listing = .ok files ∧ prepared = .ofBatch target (p.batch files generated) := by
  obtain ⟨generated, files, hg, hf, selected⟩ := select_of_prepare_ok h
  exact ⟨generated, files, hg, hf, (select_eq_ok_iff.mp selected).2⟩

/-- A preparation fails over the document while generating, and over the project or a generated file
that is dropped while filtering. -/
theorem prepare_error_cases {document : Document} {overrides : SeoOverrides}
    {listing : Except ProjectError (List Candidate)} {phase : Phase} {e : DeployFailure}
    (h : (p.prepare target document overrides listing).1 = .error (phase, e)) :
    (phase = .generating ∧ ∃ cause, e = .generation cause) ∨
      (phase = .filtering ∧ ((∃ cause, e = .project cause) ∨
        ∃ path rule reason, e = .generatedFileExcluded path rule reason)) := by
  unfold prepare at h
  split at h
  · next cause _ =>
    cases h
    exact Or.inl ⟨rfl, cause, rfl⟩
  · cases listing with
    | error cause =>
      cases h
      exact Or.inr ⟨rfl, Or.inl ⟨cause, rfl⟩⟩
    | ok files =>
      dsimp only at h
      split at h
      · next refused =>
        cases h
        obtain ⟨-, c, -, rfl⟩ := select_eq_error_iff.mp refused
        exact Or.inr ⟨rfl, Or.inr ⟨_, _, _, rfl⟩⟩
      · cases h

theorem select_of_prepare_error {document : Document} {overrides : SeoOverrides}
    {listing : Except ProjectError (List Candidate)} {phase : Phase} {path : String}
    {rule : FilterRule} {reason : String}
    (h : (p.prepare target document overrides listing).1 =
      .error (phase, .generatedFileExcluded path rule reason)) :
    phase = .filtering ∧ ∃ generated files,
      p.generator.generate document overrides = .ok generated ∧ listing = .ok files ∧
        p.select target files generated = .error (.generatedFileExcluded path rule reason) := by
  unfold prepare at h
  split at h
  · cases h
  · next generated hg =>
    cases listing with
    | error cause => cases h
    | ok files =>
      dsimp only at h
      split at h
      · next refused =>
        cases h
        exact ⟨rfl, generated, files, hg, rfl, refused⟩
      · cases h

theorem prepared_paths_nodup {document : Document} {overrides : SeoOverrides}
    {listing : Except ProjectError (List Candidate)} {prepared : Prepared}
    (h : (p.prepare target document overrides listing).1 = .ok prepared) :
    (prepared.retained.map Candidate.path).Nodup := by
  obtain ⟨generated, files, -, -, rfl⟩ := prepare_eq_ok h
  exact p.retained_paths_nodup target files generated

/-- A production deployment retains only what belongs to the site. -/
theorem includes_of_mem_production {document : Document} {overrides : SeoOverrides}
    {listing : Except ProjectError (List Candidate)} {prepared : Prepared}
    (h : (p.prepare .production document overrides listing).1 = .ok prepared)
    (hl : ∀ files, listing = .ok files → ∀ c ∈ files, c.content.Faithful) {c : Candidate}
    (hc : c ∈ prepared.retained) : p.filter.Includes c.path c.content.bytes := by
  obtain ⟨generated, files, -, hfiles, rfl⟩ := prepare_eq_ok h
  have hfaithful := faithful_merged (hl files hfiles) (mem_merged_of_mem_retained hc)
  rw [ProductionFilter.Includes, ← hfaithful]
  exact included_of_mem_retained hc

end Pipeline

end SitePublish
