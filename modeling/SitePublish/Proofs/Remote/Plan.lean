import Mathlib.Data.List.Induction
import Mathlib.Data.List.Nodup
import SitePublish.Proofs.Remote.Memory
import SitePublish.Remote.Plan

/-!
# What a commit plan does to a branch

A path ends as the last write for it says, and as it was if there is none; a plan names every path
once. Applied to the files that it was made for, a plan leaves every retained path with the blob of
its candidate, no other path that is owned, and every other file as it was.
-/

set_option autoImplicit false

namespace SitePublish

def FileChange.bytes? : FileChange → Option (List UInt8)
  | .put content => some content.bytes
  | .delete => none

namespace FileWrite

variable {files : Dict SitePath (List UInt8)} {ws : List FileWrite} {w : FileWrite} {p : SitePath}

theorem get?_applyTo (files : Dict SitePath (List UInt8)) (w : FileWrite) (p : SitePath) :
    (applyTo files w).get? p = if p = w.path then w.change.bytes? else files.get? p := by
  unfold applyTo
  cases w.change with
  | put content => exact Dict.get?_insert files w.path p content.bytes
  | delete => exact Dict.get?_erase files w.path p

def last? (ws : List FileWrite) (p : SitePath) : Option FileWrite :=
  ws.reverse.find? fun w => w.path = p

theorem get?_applyAll (files : Dict SitePath (List UInt8)) (ws : List FileWrite) (p : SitePath) :
    (ws.foldl applyTo files).get? p =
      match last? ws p with
      | some w => w.change.bytes?
      | none => files.get? p := by
  induction ws using List.reverseRecOn with
  | nil => rfl
  | append_singleton ws w ih =>
    rw [List.foldl_concat, get?_applyTo, ih, last?, last?, List.reverse_concat]
    by_cases here : p = w.path
    · rw [if_pos here, List.find?_cons_of_pos (by simp [here])]
    · rw [if_neg here, List.find?_cons_of_neg (by simp [Ne.symm here])]

theorem get?_applyAll_of_unwritten (h : ∀ w ∈ ws, w.path ≠ p) :
    (ws.foldl applyTo files).get? p = files.get? p := by
  have none : last? ws p = none := List.find?_eq_none.mpr (by simpa using h)
  rw [get?_applyAll, none]

theorem get?_applyAll_of_mem (hn : (ws.map path).Nodup) (hw : w ∈ ws) :
    (ws.foldl applyTo files).get? w.path = w.change.bytes? := by
  rw [get?_applyAll]
  cases found : last? ws w.path with
  | none =>
    have missing := List.find?_eq_none.mp found w (List.mem_reverse.mpr hw)
    simp at missing
  | some v =>
    have hv : v ∈ ws := List.mem_reverse.mp (List.mem_of_find?_eq_some found)
    have same : v.path = w.path := by simpa using List.find?_some found
    rw [List.inj_on_of_nodup_map hn hv hw same]

theorem mem_of_mem_applyAll {e : SitePath × List UInt8} (h : e ∈ ws.foldl applyTo files) :
    e ∈ files ∨ ∃ w ∈ ws, w.path = e.1 ∧ w.change.bytes? = some e.2 := by
  induction ws generalizing files with
  | nil => exact Or.inl h
  | cons w ws ih =>
    rcases ih h with he | ⟨v, hv, he⟩
    · unfold applyTo at he
      split at he
      · next content hc =>
        rcases Dict.eq_or_mem_of_mem_insert he with rfl | he
        · exact Or.inr ⟨w, List.mem_cons_self, rfl, by rw [hc, FileChange.bytes?]⟩
        · exact Or.inl he
      · exact Or.inl (Dict.mem_of_mem_erase he)
    · exact Or.inr ⟨v, List.mem_cons_of_mem _ hv, he⟩

end FileWrite

def Candidate.differs (blobs : Dict SitePath BlobId) (c : Candidate) : Bool :=
  blobs.get? c.path ≠ some c.blob

theorem FileAction.ofBlobs_cases (blob : BlobId) (current : Option BlobId) :
    (current = some blob ∧ ofBlobs blob current = .skip) ∨
      (current ≠ some blob ∧ (ofBlobs blob current = .create ∨ ofBlobs blob current = .update)) := by
  cases current with
  | none => exact Or.inr ⟨by simp, Or.inl rfl⟩
  | some b =>
    by_cases h : b = blob
    · exact Or.inl ⟨by rw [h], if_pos h⟩
    · exact Or.inr ⟨by simp [h], Or.inr (if_neg h)⟩

namespace PlannedFile

variable (blobs : Dict SitePath BlobId) (c : Candidate)

theorem isWrite_ofCandidate : (ofCandidate blobs c).isWrite = c.differs blobs := by
  rcases FileAction.ofBlobs_cases c.blob (blobs.get? c.path) with ⟨hb, ha⟩ | ⟨hb, ha | ha⟩ <;>
    simp only [isWrite, ofCandidate, Candidate.differs, ha] <;> simp [hb]

theorem isSkip_ofCandidate : (ofCandidate blobs c).isSkip = !c.differs blobs := by
  rcases FileAction.ofBlobs_cases c.blob (blobs.get? c.path) with ⟨hb, ha⟩ | ⟨hb, ha | ha⟩ <;>
    simp only [isSkip, ofCandidate, Candidate.differs, ha] <;> simp [hb]

end PlannedFile

namespace CommitPlan

section Shape

variable (files : List Candidate) (snapshot : Option Snapshot) (owned : SitePath → Bool)

/-- The blobs of a snapshot; none of a branch that does not exist. -/
def blobsOf : Dict SitePath BlobId := (snapshot.map Snapshot.blobs).getD []

theorem toWrite_ofSnapshot : (ofSnapshot files snapshot owned).toWrite =
    (files.filter (Candidate.differs (blobsOf snapshot))).map
      (PlannedFile.ofCandidate (blobsOf snapshot)) := by
  simp only [toWrite, ofSnapshot, List.filter_map]
  congr 1
  apply List.filter_congr
  intro c _
  exact PlannedFile.isWrite_ofCandidate _ c

theorem deletions_ofSnapshot : (ofSnapshot files snapshot owned).deletions =
    (blobsOf snapshot).keys.filter fun p => !(files.map Candidate.path).contains p && owned p := rfl

theorem writes_ofSnapshot : (ofSnapshot files snapshot owned).writes =
    (files.filter (Candidate.differs (blobsOf snapshot))).map
        (fun c => ⟨c.path, .put c.content⟩) ++
      (ofSnapshot files snapshot owned).deletions.map fun p => ⟨p, .delete⟩ := by
  rw [writes, toWrite_ofSnapshot, List.map_map]
  rfl

theorem puts_ofSnapshot :
    ((ofSnapshot files snapshot owned).writes.filter fun w => !w.isDelete).map FileWrite.path =
      (files.filter (Candidate.differs (blobsOf snapshot))).map Candidate.path := by
  rw [writes_ofSnapshot, List.filter_append, List.filter_map, List.filter_map]
  simp [FileWrite.isDelete, Function.comp_def]

theorem deletes_ofSnapshot :
    ((ofSnapshot files snapshot owned).writes.filter FileWrite.isDelete).map FileWrite.path =
      (ofSnapshot files snapshot owned).deletions := by
  rw [writes_ofSnapshot, List.filter_append, List.filter_map, List.filter_map]
  simp [FileWrite.isDelete, Function.comp_def]

theorem skipCount_ofSnapshot : (ofSnapshot files snapshot owned).skipCount =
    files.countP fun c => !c.differs (blobsOf snapshot) := by
  simp only [skipCount, ofSnapshot, List.countP_map]
  apply List.countP_congr
  intro c _
  rw [Function.comp_apply, PlannedFile.isSkip_ofCandidate, blobsOf]

theorem writes_of_isNoop {plan : CommitPlan} (h : plan.isNoop = true) : plan.writes = [] := by
  simp only [isNoop, changeCount, writeCount, deleteCount, Bool.and_eq_true, decide_eq_true_eq,
    Nat.add_eq_zero_iff, List.length_eq_zero_iff] at h
  rw [writes, h.2.1, h.2.2]
  rfl

theorem isNoop_ofSnapshot : (ofSnapshot files snapshot owned).isNoop = true ↔
    snapshot.isSome = true ∧ files.filter (Candidate.differs (blobsOf snapshot)) = [] ∧
      (ofSnapshot files snapshot owned).deletions = [] := by
  have hbase : (ofSnapshot files snapshot owned).base.isSome = snapshot.isSome := by
    cases snapshot <;> rfl
  simp only [isNoop, changeCount, writeCount, deleteCount, toWrite_ofSnapshot, hbase,
    List.length_map, Bool.and_eq_true, decide_eq_true_eq, Nat.add_eq_zero_iff,
    List.length_eq_zero_iff]

variable {files snapshot owned}

theorem mem_deletions {p : SitePath} : p ∈ (ofSnapshot files snapshot owned).deletions ↔
    p ∈ (blobsOf snapshot).keys ∧ (∀ c ∈ files, c.path ≠ p) ∧ owned p = true := by
  rw [deletions_ofSnapshot, List.mem_filter]
  simp

theorem mem_writes {w : FileWrite} : w ∈ (ofSnapshot files snapshot owned).writes ↔
    (∃ c ∈ files, c.differs (blobsOf snapshot) = true ∧ w = ⟨c.path, .put c.content⟩) ∨
      (w.path ∈ (ofSnapshot files snapshot owned).deletions ∧ w.change = .delete) := by
  rw [writes_ofSnapshot, List.mem_append, List.mem_map, List.mem_map]
  constructor
  · rintro (⟨c, hc, rfl⟩ | ⟨p, hp, rfl⟩)
    · obtain ⟨hc, hd⟩ := List.mem_filter.mp hc
      exact Or.inl ⟨c, hc, hd, rfl⟩
    · exact Or.inr ⟨hp, rfl⟩
  · rintro (⟨c, hc, hd, rfl⟩ | ⟨hp, hw⟩)
    · exact Or.inl ⟨c, List.mem_filter.mpr ⟨hc, hd⟩, rfl⟩
    · obtain ⟨path, change⟩ := w
      subst hw
      exact Or.inr ⟨path, hp, rfl⟩

theorem writes_paths_nodup (hf : (files.map Candidate.path).Nodup)
    (hs : (blobsOf snapshot).keys.Nodup) :
    ((ofSnapshot files snapshot owned).writes.map FileWrite.path).Nodup := by
  rw [writes_ofSnapshot, List.map_append, List.map_map, List.map_map]
  refine List.nodup_append.mpr ⟨?_, ?_, ?_⟩
  · exact hf.sublist (List.filter_sublist.map Candidate.path)
  · rw [deletions_ofSnapshot]
    exact (List.map_id _).symm ▸ hs.sublist List.filter_sublist
  · rintro p hp q hq rfl
    obtain ⟨c, hc, rfl⟩ := List.mem_map.mp hp
    obtain ⟨q, hq, he⟩ := List.mem_map.mp hq
    exact (mem_deletions.mp hq).2.1 c (List.mem_filter.mp hc).1 he.symm

end Shape

section Effect

variable {files : List Candidate} {snapshot : Option Snapshot} {owned : SitePath → Bool}
  {contents : Dict SitePath (List UInt8)}

def applied (plan : CommitPlan) (contents : Dict SitePath (List UInt8)) :
    Dict SitePath (List UInt8) := plan.writes.foldl FileWrite.applyTo contents

theorem get?_applied_claimed (hf : (files.map Candidate.path).Nodup)
    (hs : (blobsOf snapshot).keys.Nodup) {c : Candidate} (hc : c ∈ files) :
    ((ofSnapshot files snapshot owned).applied contents).get? c.path =
      if c.differs (blobsOf snapshot) then some c.content.bytes else contents.get? c.path := by
  split
  · next hd =>
    have hw : (⟨c.path, .put c.content⟩ : FileWrite) ∈ (ofSnapshot files snapshot owned).writes :=
      mem_writes.mpr (Or.inl ⟨c, hc, hd, rfl⟩)
    exact FileWrite.get?_applyAll_of_mem (writes_paths_nodup hf hs) hw
  · next hd =>
    apply FileWrite.get?_applyAll_of_unwritten
    intro w hw he
    rcases mem_writes.mp hw with ⟨c', hc', hd', rfl⟩ | ⟨hp, -⟩
    · have hcc : c' = c := List.inj_on_of_nodup_map hf hc' hc he
      exact hd (hcc ▸ hd')
    · exact (mem_deletions.mp hp).2.1 c hc he.symm

theorem get?_applied_unclaimed (hf : (files.map Candidate.path).Nodup)
    (hs : (blobsOf snapshot).keys.Nodup) (hk : (blobsOf snapshot).keys = contents.keys)
    {p : SitePath} (hp : ∀ c ∈ files, c.path ≠ p) :
    ((ofSnapshot files snapshot owned).applied contents).get? p =
      if owned p then none else contents.get? p := by
  by_cases hd : p ∈ (ofSnapshot files snapshot owned).deletions
  · have hw : (⟨p, .delete⟩ : FileWrite) ∈ (ofSnapshot files snapshot owned).writes :=
      mem_writes.mpr (Or.inr ⟨hd, rfl⟩)
    rw [if_pos (mem_deletions.mp hd).2.2]
    exact FileWrite.get?_applyAll_of_mem (writes_paths_nodup hf hs) hw
  · have hold : ((ofSnapshot files snapshot owned).applied contents).get? p = contents.get? p := by
      apply FileWrite.get?_applyAll_of_unwritten
      intro w hw he
      rcases mem_writes.mp hw with ⟨c, hc, -, rfl⟩ | ⟨hq, -⟩
      · exact hp c hc he
      · exact hd (he ▸ hq)
    rw [hold]
    split
    · next ho =>
      -- an owned path that nobody claims is only kept out of the deletions by not being there
      have hnot : p ∉ contents.keys := fun hin => hd (mem_deletions.mpr ⟨hk ▸ hin, hp, ho⟩)
      exact Dict.get?_eq_none_iff.mpr hnot
    · rfl

theorem mem_of_mem_applied {e : SitePath × List UInt8}
    (h : e ∈ (ofSnapshot files snapshot owned).applied contents) :
    e ∈ contents ∨ ∃ c ∈ files, c.path = e.1 ∧ c.content.bytes = e.2 := by
  rcases FileWrite.mem_of_mem_applyAll h with he | ⟨w, hw, hp, hb⟩
  · exact Or.inl he
  · rcases mem_writes.mp hw with ⟨c, hc, -, rfl⟩ | ⟨-, hd⟩
    · exact Or.inr ⟨c, hc, hp, Option.some.inj hb⟩
    · rw [hd] at hb
      cases hb

end Effect

end CommitPlan

end SitePublish
