import Mathlib.Data.List.Perm.Subperm
import SitePublish.Project.Listing
import SitePublish.Proofs.Deploy.Preparation
import SitePublish.Proofs.Except

/-!
# What a project lists

The names in a directory may hold any character but the slash, and the paths of a site may not. A file
whose path can be taken as it stands is listed under it with its bytes. A file whose path no site can
have is left out. As long as no path is taken for another one, no two files meet in one candidate.
-/

set_option autoImplicit false

namespace SitePublish

namespace Project

open SitePath (Written ofText)

def IsRelative (path : String) : Prop :=
  ∀ s ∈ Text.splitChars '/' path.toList, s ≠ [] ∧ s ≠ ['.'] ∧ s ≠ ['.', '.']

instance (path : String) : Decidable (IsRelative path) := inferInstanceAs (Decidable (∀ _ ∈ _, _))

variable {path : String} {files : List (String × List UInt8)} {f : String × List UInt8}
  {c : Candidate}

theorem exists_ofText_of_written (relative : IsRelative path) (written : Written path) :
    ∃ p, ofText path = .ok p ∧ p.text = path := by
  have segments : SitePath.rawSegments path = Text.splitChars '/' path.toList := by
    rw [SitePath.rawSegments, written.2.1, SitePath.map_slashed_of_not_mem written.1]
  have inside : ['.', '.'] ∉ SitePath.rawSegments path := fun up =>
    (relative _ (segments ▸ up)).2.2 rfl
  have kept : (SitePath.rawSegments path).filter SitePath.isKept ≠ [] := by
    rw [segments, List.filter_eq_self.mpr written.2.2]
    exact Text.splitChars_ne_nil '/' path.toList
  have ok : ∃ p, ofText path = .ok p := by
    unfold SitePath.ofText
    rw [dif_neg inside, dif_neg kept]
    exact ⟨_, rfl⟩
  obtain ⟨p, hp⟩ := ok
  exact ⟨p, hp, (SitePath.text_eq_iff hp).mpr written⟩

theorem candidate?_eq_some_iff :
    candidate? f = some c ↔ ∃ p, ofText f.1 = .ok p ∧ c = .ofProject p f.2 := by
  unfold candidate?
  cases ofText f.1 with
  | error e => simp
  | ok p => simp [eq_comm]

def entry (c : Candidate) : String × List UInt8 := (c.path.text, c.content.bytes)

theorem entry_ofProject (p : SitePath) (bytes : List UInt8) :
    entry (.ofProject p bytes) = (p.text, bytes) := by
  rw [entry, Candidate.ofProject, FileContent.bytes_ofBytes]

/-- The path is one as it stands, or there is none that it could be taken for. -/
def IsSettled (path : String) : Prop := Written path ∨ ∃ e, ofText path = .error e

theorem entry_candidate? (relative : IsRelative f.1) (settled : IsSettled f.1) :
    (candidate? f).map entry = Option.guard (fun f => Written f.1) f := by
  rcases settled with written | ⟨e, refused⟩
  · obtain ⟨p, ok, text⟩ := exists_ofText_of_written relative written
    rw [candidate?_eq_some_iff.mpr ⟨p, ok, rfl⟩, Option.map_some, entry_ofProject, text,
      Option.guard, if_pos (decide_eq_true written)]
  · have foreign : ¬ Written f.1 := by
      intro written
      obtain ⟨p, ok, -⟩ := exists_ofText_of_written relative written
      cases refused.symm.trans ok
    rw [candidate?, refused, Option.map_none, Option.guard, if_neg (by simpa using foreign)]

theorem mem_candidates_iff :
    c ∈ candidates files ↔ ∃ f ∈ files, ∃ p, ofText f.1 = .ok p ∧ c = .ofProject p f.2 := by
  simp only [candidates, List.mem_mergeSort, List.mem_filterMap, candidate?_eq_some_iff]

/-- What is listed of the files of a project. -/
structure Lists (files : List (String × List UInt8)) (cs : List Candidate) : Prop where
  /-- One candidate for each file that has a path as it stands. -/
  whole : (cs.map entry).Perm (files.filter fun f => Written f.1)
  ascending : (cs.map Candidate.path).Pairwise (· < ·)
  project : ∀ c ∈ cs, c.origin = .project ∧ c.content = .ofBytes c.content.bytes

section Settled

variable (relative : ∀ f ∈ files, IsRelative f.1) (distinct : (files.map Prod.fst).Nodup)
  (settled : ∀ f ∈ files, IsSettled f.1)
include relative settled

theorem entries_candidates_perm :
    ((candidates files).map entry).Perm (files.filter fun f => Written f.1) := by
  have each : (files.filterMap candidate?).map entry = files.filter fun f => Written f.1 := by
    rw [List.map_filterMap, ← List.filterMap_eq_filter]
    exact List.filterMap_congr fun f hf => entry_candidate? (relative f hf) (settled f hf)
  rw [← each]
  exact (List.mergeSort_perm _ _).map entry

include distinct

theorem nodup_texts_candidates : ((candidates files).map fun c => c.path.text).Nodup := by
  have kept : ((files.filter fun f => Written f.1).map Prod.fst).Nodup :=
    distinct.sublist (List.filter_sublist.map Prod.fst)
  have listed := (entries_candidates_perm relative settled).map Prod.fst
  rw [List.map_map] at listed
  exact listed.nodup_iff.mpr kept

theorem lists_candidates : Lists files (candidates files) where
  whole := entries_candidates_perm relative settled
  ascending := by
    have texts := List.pairwise_map.mp (nodup_texts_candidates relative distinct settled)
    have sorted := Prepared.sortCandidates_pairwise (files.filterMap candidate?)
    exact List.pairwise_map.mpr ((sorted.and texts).imp fun h => lt_of_le_of_ne h.1 h.2)
  project c hc := by
    obtain ⟨f, -, p, -, rfl⟩ := mem_candidates_iff.mp hc
    rw [Candidate.ofProject, FileContent.bytes_ofBytes]
    exact ⟨rfl, rfl⟩

end Settled

theorem Lists.map_entry_eq {cs : List Candidate} {entries : List (String × List UInt8)}
    (h : Lists files cs) (listed : entries.Perm (files.filter fun f => Written f.1))
    (ascending : entries.Pairwise fun e e' => e.1 < e'.1) : cs.map entry = entries := by
  have paths := List.pairwise_map.mp h.ascending
  have sorted : (cs.map entry).Pairwise fun e e' => e.1 < e'.1 :=
    List.pairwise_map.mpr (paths.imp fun less => less)
  refine (h.whole.trans listed.symm).eq_of_pairwise (fun e e' _ _ less more => ?_) sorted ascending
  exact absurd more (lt_asymm less)

theorem Lists.mem_merged {cs generated : List Candidate} (h : Lists files cs) (hc : c ∈ cs)
    (free : c.path ∉ generated.map Candidate.path) : c ∈ mergeCandidates cs generated :=
  mem_mergeCandidates_iff.mpr
    (Or.inr ⟨free, Candidate.lastIn_of_mem (h.ascending.imp fun less => ne_of_irrefl less) hc⟩)

/-- Every file that has a path as it stands is listed under it. If no other path could be taken for one,
nothing else is listed, and merging keeps every file that no generated one replaces. -/
theorem files_listed (relative : ∀ f ∈ files, IsRelative f.1)
    (distinct : (files.map Prod.fst).Nodup) :
    (∀ t root key, FileTree.place t root = .ok (.dir key) → filesBelow t key = files →
      listFiles t root = .ok (candidates files)) ∧
    (∀ f ∈ files, Written f.1 → ∃ c ∈ candidates files, entry c = f) ∧
    ((∀ f ∈ files, IsSettled f.1) → Lists files (candidates files) ∧
      ∀ generated, ∀ c ∈ candidates files, c.path ∉ generated.map Candidate.path →
        c ∈ mergeCandidates (candidates files) generated) := by
  refine ⟨fun t root key found walked => ?_, fun f hf written => ?_, fun settled => ?_⟩
  · rw [listFiles, found, ← walked]
  · obtain ⟨p, ok, text⟩ := exists_ofText_of_written (relative f hf) written
    refine ⟨.ofProject p f.2, mem_candidates_iff.mpr ⟨f, hf, p, ok, rfl⟩, ?_⟩
    rw [entry_ofProject, text]
  · have lists := lists_candidates relative distinct settled
    exact ⟨lists, fun generated c hc => lists.mem_merged hc⟩

/-- A file, a file in a directory of nearly the same name, and one whose name only a path of another
system can have. -/
def shelf : FileTree :=
  ⟨"/work", [(["proj"], .dir), (["proj", "..\\up.ts"], .file (Text.utf8 "u")),
    (["proj", "shop.ts"], .file (Text.utf8 "s")), (["proj", "shop"], .dir),
    (["proj", "shop", "my list.ts"], .file (Text.utf8 "l"))]⟩

/-- The directory is gone through before the file beside it, and is listed behind it. -/
theorem shelf_listed :
    let files := filesBelow shelf ["proj"]
    files.map Prod.fst = ["shop/my list.ts", "shop.ts", "..\\up.ts"] ∧
      (∀ f ∈ files, IsRelative f.1) ∧ (files.map Prod.fst).Nodup ∧ (∀ f ∈ files, IsSettled f.1) ∧
      ∃ cs, listFiles shelf "proj" = .ok cs ∧ Lists files cs ∧
        cs.map entry = [("shop.ts", Text.utf8 "s"), ("shop/my list.ts", Text.utf8 "l")] := by
  intro files
  have found : files = [("shop/my list.ts", Text.utf8 "l"), ("shop.ts", Text.utf8 "s"),
      ("..\\up.ts", Text.utf8 "u")] := by
    decide
  have relative : ∀ f ∈ files, IsRelative f.1 := by
    rw [found]
    decide
  have distinct : (files.map Prod.fst).Nodup := by
    rw [found]
    decide
  have settled : ∀ f ∈ files, IsSettled f.1 := by
    rw [found, List.forall_mem_cons, List.forall_mem_cons, List.forall_mem_singleton]
    exact ⟨Or.inl (by decide), Or.inl (by decide),
      Or.inr ⟨.containsTraversal, by decide⟩⟩
  have written : files.filter (fun f => Written f.1) =
      [("shop/my list.ts", Text.utf8 "l"), ("shop.ts", Text.utf8 "s")] := by
    rw [found]
    decide
  obtain ⟨listed, -, lists⟩ := files_listed relative distinct
  have lists := (lists settled).1
  refine ⟨by rw [found]; rfl, relative, distinct, settled, candidates files,
    listed shelf "proj" ["proj"] rfl rfl, lists, lists.map_entry_eq ?_ ?_⟩
  · rw [written]
    exact List.Perm.swap _ _ []
  · decide

theorem length_merged_le {cs : List Candidate} {text : String} (same : ∀ c ∈ cs, c.path.text = text) :
    (mergeCandidates cs []).length ≤ 1 := by
  have distinct := (mergeCandidates_nodup cs []).map SitePath.text_injective
  have one : ((mergeCandidates cs []).map Candidate.path).map SitePath.text ⊆ [text] := by
    intro t ht
    obtain ⟨p, hp, rfl⟩ := List.mem_map.mp ht
    rcases mem_mergeCandidates_paths.mp hp with listed | none
    · obtain ⟨c, hc, rfl⟩ := List.mem_map.mp listed
      exact List.mem_singleton.mpr (same c hc)
    · cases none
  simpa using (List.subperm_of_subset distinct one).length_le

def crowd : FileTree :=
  ⟨"/work", [(["proj"], .dir), (["proj", "a"], .dir), (["proj", "a", "b.ts"], .file (Text.utf8 "s")),
    (["proj", "a\\b.ts"], .file (Text.utf8 "t"))]⟩

/-- One file of the shelf is not listed. The two files of the crowd are listed under one path, so that
merging drops one of them. -/
theorem files_not_kept :
    (∀ f ∈ filesBelow shelf ["proj"] ++ filesBelow crowd ["proj"], IsRelative f.1) ∧
    ((filesBelow shelf ["proj"]).map Prod.fst).Nodup ∧
    ((filesBelow crowd ["proj"]).map Prod.fst).Nodup ∧
    (∃ cs, listFiles shelf "proj" = .ok cs ∧ cs.length < (filesBelow shelf ["proj"]).length) ∧
    ∃ cs, listFiles crowd "proj" = .ok cs ∧ cs.length = (filesBelow crowd ["proj"]).length ∧
      (∀ c ∈ cs, c.path.text = "a/b.ts") ∧ (mergeCandidates cs []).length < cs.length := by
  have count : (candidates (filesBelow crowd ["proj"])).length = 2 := by
    rw [candidates, List.length_mergeSort]
    decide
  have same : ∀ c ∈ candidates (filesBelow crowd ["proj"]), c.path.text = "a/b.ts" := by
    intro c hc
    have all : ∀ c ∈ (filesBelow crowd ["proj"]).filterMap candidate?, c.path.text = "a/b.ts" := by
      decide
    exact all c (List.mem_mergeSort.mp hc)
  refine ⟨by decide, by decide, by decide +kernel, ?_, ?_⟩
  · refine ⟨candidates (filesBelow shelf ["proj"]), rfl, ?_⟩
    rw [candidates, List.length_mergeSort]
    decide
  · refine ⟨candidates (filesBelow crowd ["proj"]), rfl, count, same, ?_⟩
    rw [count]
    exact Nat.lt_succ_of_le (length_merged_le same)

end Project

end SitePublish
