import SitePublish.Proofs.Remote.Listing

/-!
# Plans against a listing that is cut short

A listing of a branch can be cut short, and then a plan is made against some of the blobs at the
head only. A path that is missing there is written where it could be skipped and kept where it could
be deleted, so the plan writes no less and skips and deletes no more than the one against the whole
listing. What it leaves of the branch as it really is has every file to publish with its own blob.
-/

set_option autoImplicit false

namespace SitePublish

def FileChange.blob? (c : FileChange) : Option BlobId := c.bytes?.map BlobId.ofBytes

/-- The same head with some of its blobs, each under its own path. -/
structure Snapshot.Truncates (t s : Snapshot) : Prop where
  head : t.head = s.head
  blobs : ∀ p b, t.blobs.get? p = some b → s.blobs.get? p = some b

namespace MemoryBranch

variable {b : MemoryBranch} {ws : List FileWrite} {w : FileWrite} {p : SitePath}

theorem get?_blobs_applyWrite (b : MemoryBranch) (w : FileWrite) (p : SitePath) :
    (b.applyWrite w).blobs.get? p = if p = w.path then w.change.blob? else b.blobs.get? p := by
  unfold applyWrite
  cases w.change with
  | put content => exact Dict.get?_insert b.blobs w.path p _
  | delete => exact Dict.get?_erase b.blobs w.path p

theorem get?_blobs_of_unwritten (h : ∀ w ∈ ws, w.path ≠ p) :
    (ws.foldl applyWrite b).blobs.get? p = b.blobs.get? p := by
  induction ws generalizing b with
  | nil => rfl
  | cons w ws ih =>
    rw [List.foldl_cons, ih fun v hv => h v (List.mem_cons_of_mem _ hv), get?_blobs_applyWrite,
      if_neg (Ne.symm (h w List.mem_cons_self))]

/-- A path that is written more than once, but always the same, ends as each of the writes says. -/
theorem get?_blobs_of_written (hw : w ∈ ws)
    (same : ∀ v ∈ ws, v.path = w.path → v.change = w.change) :
    (ws.foldl applyWrite b).blobs.get? w.path = w.change.blob? := by
  induction ws generalizing b with
  | nil => cases hw
  | cons v ws ih =>
    rw [List.foldl_cons]
    have later : ∀ u ∈ ws, u.path = w.path → u.change = w.change :=
      fun u hu => same u (List.mem_cons_of_mem _ hu)
    by_cases again : ∃ u ∈ ws, u.path = w.path
    · obtain ⟨u, hu, hp⟩ := again
      have hc := later u hu hp
      obtain ⟨path, change⟩ := u
      obtain ⟨rfl, rfl⟩ : path = w.path ∧ change = w.change := ⟨hp, hc⟩
      exact ih hu later
    · have last : ∀ u ∈ ws, u.path ≠ w.path := fun u hu he => again ⟨u, hu, he⟩
      have hv : v = w := by
        rcases List.mem_cons.mp hw with rfl | hw
        · rfl
        · exact absurd rfl (last w hw)
      rw [get?_blobs_of_unwritten last, hv, get?_blobs_applyWrite, if_pos rfl]

end MemoryBranch

theorem Snapshot.truncates_of_mem {t s : Snapshot} (head : t.head = s.head)
    (h : ∀ e ∈ t.blobs, s.blobs.get? e.1 = some e.2) : t.Truncates s :=
  ⟨head, fun _ _ found => h _ (Dict.mem_of_get? found)⟩

namespace Snapshot.Truncates

variable {t s : Snapshot} {p : SitePath} {c : Candidate}

theorem mem_keys (cut : t.Truncates s) (h : p ∈ t.blobs.keys) : p ∈ s.blobs.keys := by
  obtain ⟨b, hb⟩ := Dict.mem_keys_iff.mp h
  exact Dict.mem_keys_iff.mpr ⟨b, cut.blobs p b hb⟩

theorem differs (cut : t.Truncates s) (h : c.differs s.blobs = true) :
    c.differs t.blobs = true := by
  simp only [Candidate.differs, ne_eq, decide_not, Bool.not_eq_true', decide_eq_false_iff_not] at *
  exact fun same => h (cut.blobs c.path c.blob same)

theorem ofCandidate_of_skip (cut : t.Truncates s) (h : c.differs t.blobs = false) :
    PlannedFile.ofCandidate t.blobs c = PlannedFile.ofCandidate s.blobs c := by
  simp only [Candidate.differs, ne_eq, decide_not, Bool.not_eq_false', decide_eq_true_eq] at h
  rw [PlannedFile.ofCandidate, PlannedFile.ofCandidate, h, cut.blobs c.path c.blob h]

end Snapshot.Truncates

namespace CommitPlan

/-- A plan that writes whatever another one writes, and skips and deletes nothing else than it. -/
structure Covers (p q : CommitPlan) : Prop where
  base : p.base = q.base
  writes : (q.toWrite.map PlannedFile.write).Sublist (p.toWrite.map PlannedFile.write)
  skips : (p.files.filter PlannedFile.isSkip).Sublist (q.files.filter PlannedFile.isSkip)
  deletions : p.deletions ⊆ q.deletions

/-- What is left of a listing by a plan for files to publish: the files, and every other path unless
it is owned and deleted. -/
structure Settles (plan : CommitPlan) (files : List Candidate) (owned : SitePath → Bool)
    (old new : Dict SitePath BlobId) : Prop where
  retained : ∀ c ∈ files, new.get? c.path = some c.blob
  deleted : ∀ p ∈ plan.deletions, owned p = true ∧ ∀ c ∈ files, c.path ≠ p
  others : ∀ p, (∀ c ∈ files, c.path ≠ p) →
    new.get? p = if p ∈ plan.deletions then none else old.get? p

section Shape

theorem blobsOf_some (s : Snapshot) : blobsOf (some s) = s.blobs := rfl

variable (files : List Candidate) (snapshot : Option Snapshot) (owned : SitePath → Bool)

theorem putsOf_ofSnapshot : (ofSnapshot files snapshot owned).toWrite.map PlannedFile.write =
    (files.filter (Candidate.differs (blobsOf snapshot))).map
      fun c => ⟨c.path, .put c.content⟩ := by
  rw [toWrite_ofSnapshot, List.map_map]
  rfl

theorem skips_ofSnapshot : (ofSnapshot files snapshot owned).files.filter PlannedFile.isSkip =
    (files.filter fun c => !c.differs (blobsOf snapshot)).map
      (PlannedFile.ofCandidate (blobsOf snapshot)) := by
  simp only [ofSnapshot, List.filter_map]
  congr 1
  apply List.filter_congr
  intro c _
  exact PlannedFile.isSkip_ofCandidate _ c

end Shape

variable {files : List Candidate} {owned : SitePath → Bool} {t s : Snapshot}

theorem covers_of_truncates (cut : t.Truncates s) :
    (ofSnapshot files (some t) owned).Covers (ofSnapshot files (some s) owned) where
  base := congrArg some cut.head
  writes := by
    rw [putsOf_ofSnapshot, putsOf_ofSnapshot, blobsOf_some, blobsOf_some]
    exact (List.monotone_filter_right files fun c hc => cut.differs hc).map _
  skips := by
    have same : (files.filter fun c => !c.differs t.blobs).map (PlannedFile.ofCandidate t.blobs) =
        (files.filter fun c => !c.differs t.blobs).map (PlannedFile.ofCandidate s.blobs) := by
      apply List.map_congr_left
      intro c hc
      exact cut.ofCandidate_of_skip (by simpa using (List.mem_filter.mp hc).2)
    rw [skips_ofSnapshot, skips_ofSnapshot, blobsOf_some, blobsOf_some, same]
    apply List.Sublist.map
    apply List.monotone_filter_right
    intro c hc
    have keeps : c.differs s.blobs ≠ true := fun h => by simp [cut.differs h] at hc
    simpa using keeps
  deletions := fun p hp => by
    obtain ⟨there, free, mine⟩ := mem_deletions.mp hp
    exact mem_deletions.mpr ⟨cut.mem_keys there, free, mine⟩

theorem settles_of_truncates (distinct : (files.map Candidate.path).Nodup) (cut : t.Truncates s)
    {b : MemoryBranch} (whole : b.blobs = s.blobs) :
    (ofSnapshot files (some t) owned).Settles files owned s.blobs
      ((ofSnapshot files (some t) owned).writes.foldl MemoryBranch.applyWrite b).blobs where
  retained := fun c hc => by
    have own : ∀ w ∈ (ofSnapshot files (some t) owned).writes, w.path = c.path →
        w.change = .put c.content := by
      intro w hw hp
      rcases mem_writes.mp hw with ⟨c', hc', -, rfl⟩ | ⟨hd, -⟩
      · rw [List.inj_on_of_nodup_map distinct hc' hc hp]
      · exact absurd hp.symm ((mem_deletions.mp hd).2.1 c hc)
    by_cases hd : c.differs t.blobs = true
    · have put : (⟨c.path, .put c.content⟩ : FileWrite) ∈
          (ofSnapshot files (some t) owned).writes := mem_writes.mpr (Or.inl ⟨c, hc, hd, rfl⟩)
      exact MemoryBranch.get?_blobs_of_written put own
    · have skipped : ∀ w ∈ (ofSnapshot files (some t) owned).writes, w.path ≠ c.path := by
        intro w hw hp
        rcases mem_writes.mp hw with ⟨c', hc', hd', rfl⟩ | ⟨hdel, -⟩
        · exact hd (List.inj_on_of_nodup_map distinct hc' hc hp ▸ hd')
        · exact (mem_deletions.mp hdel).2.1 c hc hp.symm
      rw [MemoryBranch.get?_blobs_of_unwritten skipped, whole]
      apply cut.blobs
      simpa [Candidate.differs] using hd
  deleted := fun p hp => by
    obtain ⟨-, free, mine⟩ := mem_deletions.mp hp
    exact ⟨mine, free⟩
  others := fun p hp => by
    have onlyDeleted : ∀ w ∈ (ofSnapshot files (some t) owned).writes, w.path = p →
        p ∈ (ofSnapshot files (some t) owned).deletions ∧ w.change = .delete := by
      intro w hw he
      rcases mem_writes.mp hw with ⟨c, hc, -, rfl⟩ | ⟨hd, hch⟩
      · exact absurd he (hp c hc)
      · exact ⟨he ▸ hd, hch⟩
    split
    · next hd =>
      have gone : (⟨p, .delete⟩ : FileWrite) ∈ (ofSnapshot files (some t) owned).writes :=
        mem_writes.mpr (Or.inr ⟨hd, rfl⟩)
      exact MemoryBranch.get?_blobs_of_written gone fun w hw he => (onlyDeleted w hw he).2
    · next hd =>
      have untouched : ∀ w ∈ (ofSnapshot files (some t) owned).writes, w.path ≠ p :=
        fun w hw he => hd (onlyDeleted w hw he).1
      rw [MemoryBranch.get?_blobs_of_unwritten untouched, whole]

/-- A plan made against a listing that is cut short never skips or deletes wrongly. -/
theorem truncation_safe (owned : SitePath → Bool) (distinct : (files.map Candidate.path).Nodup)
    (cut : t.Truncates s) :
    (ofSnapshot files (some t) owned).Covers (ofSnapshot files (some s) owned) ∧
    ∀ b : MemoryBranch, b.blobs = s.blobs →
      (ofSnapshot files (some t) owned).Settles files owned s.blobs
        ((ofSnapshot files (some t) owned).writes.foldl MemoryBranch.applyWrite b).blobs :=
  ⟨covers_of_truncates cut, fun _ whole => settles_of_truncates distinct cut whole⟩

end CommitPlan

def readmePath : SitePath :=
  { text := "README.md"
    normal := ⟨["README.md".toList], by simp, by simp [SitePath.IsSegment], rfl⟩ }

/-- A head with a file that is published again, a page that is not, and a file of somebody else. -/
def wholeHead : Snapshot :=
  ⟨"c0", [(readmePath, ⟨"cd"⟩),
    (GitHub.pathOfA, ⟨"c1b0730e0133447badcfd47fd144e254807b06e1"⟩), (GitHub.oldPage, ⟨"ab"⟩)]⟩

def cutHead : Snapshot := ⟨"c0", [(readmePath, ⟨"cd"⟩)]⟩

/-- The plan against the cut listing writes a file that is there already and keeps the old page. -/
theorem cutHead_safe :
    let files : List Candidate := [⟨GitHub.pathOfA, .text "x", .project⟩]
    let whole := CommitPlan.ofSnapshot files (some wholeHead) Layout.standard.owns
    let cut := CommitPlan.ofSnapshot files (some cutHead) Layout.standard.owns
    let left := (cut.writes.foldl MemoryBranch.applyWrite ⟨[], wholeHead.blobs, []⟩).blobs
    (files.map Candidate.path).Nodup ∧ cutHead.Truncates wholeHead ∧ cut.Covers whole ∧
      whole.writes = [⟨GitHub.oldPage, .delete⟩] ∧
      cut.writes = [⟨GitHub.pathOfA, .put (.text "x")⟩] ∧
      left.get? GitHub.pathOfA = wholeHead.blobs.get? GitHub.pathOfA ∧
      left.get? readmePath = some ⟨"cd"⟩ := by
  intro files whole cut left
  have distinct : (files.map Candidate.path).Nodup := by simp [files]
  have truncates : cutHead.Truncates wholeHead := Snapshot.truncates_of_mem rfl (by decide)
  obtain ⟨covers, settles⟩ := CommitPlan.truncation_safe Layout.standard.owns distinct truncates
  have settled := settles ⟨[], wholeHead.blobs, []⟩ rfl
  refine ⟨distinct, truncates, covers, by decide +kernel, by rfl, ?_, ?_⟩
  · exact (settled.retained _ List.mem_cons_self).trans (by decide +kernel)
  · exact (settled.others readmePath (by decide)).trans (by decide)

end SitePublish
