import SitePublish.Proofs.Dict
import SitePublish.Remote.Memory

/-!
# Histories of the remote in memory

Every state of the remote comes from calls on an empty one. Whatever the calls are, a branch has at
least one commit, its blobs are those of its contents, and its commits carry numbers that ascend
along the branch and are on no other branch. A commit grows the history of its own branch only, so a
head that has been passed never is a head again.
-/

set_option autoImplicit false

namespace SitePublish

namespace MemoryRemote

def digitValue (c : Char) : Nat := if c.toNat < 58 then c.toNat - 48 else c.toNat - 87

def readDigit (n : Nat) (c : Char) : Nat := 16 * n + digitValue c

def commitNumber (id : String) : Nat := id.toList.foldl readDigit 0

theorem digitValue_digitChar {d : Nat} (h : d < 16) : digitValue d.digitChar = d := by
  have : ∀ d : Fin 16, digitValue (Nat.digitChar d) = d := by decide
  exact this ⟨d, h⟩

theorem readDigit_toDigits (n : Nat) : (Nat.toDigits 16 n).foldl readDigit 0 = n := by
  induction n using Nat.strongRecOn with
  | ind n ih =>
    rw [Nat.toDigits_eq_if (by decide)]
    split
    · next h => simp [readDigit, digitValue_digitChar h]
    · next h =>
      rw [List.foldl_append, ih (n / 16) (by omega)]
      simp only [List.foldl_cons, List.foldl_nil, readDigit,
        digitValue_digitChar (Nat.mod_lt n (by decide : 0 < 16))]
      omega

theorem readDigit_zeros (k : Nat) : (List.replicate k '0').foldl readDigit 0 = 0 := by
  induction k with
  | zero => rfl
  | succ k ih => simpa [List.replicate_succ, readDigit, digitValue] using ih

theorem commitNumber_commitId (n : Nat) : commitNumber (commitId n) = n := by
  simp only [commitNumber, commitId, String.toList_ofList, List.foldl_append, readDigit_zeros,
    readDigit_toDigits]

theorem commitId_injective : Function.Injective commitId :=
  Function.LeftInverse.injective commitNumber_commitId

inductive Call where
  | seed (branch message : String)
  | snapshot (branch : String)
  | list (branch : String) (count : Nat)
  | write (branch : String) (expected : Option String) (files : List FileWrite) (message : String)
  | failWrite (error : RemoteError)
  | failList (error : RemoteError)

def after (r : MemoryRemote) : Call → MemoryRemote
  | .seed branch message => (r.seed branch message).2
  | .snapshot _ => r
  | .list branch count => (r.listCommits branch count).2
  | .write branch expected files message => (r.write branch expected files message).2
  | .failWrite e => { r with failNextWrite := some e }
  | .failList e => { r with failNextList := some e }

def run : List Call → MemoryRemote → MemoryRemote
  | [], r => r
  | call :: calls, r => run calls (r.after call)

def Reachable (r : MemoryRemote) : Prop := ∃ calls, r = run calls empty

/-- The files at the head of a branch; none if there is no branch. -/
def files (r : MemoryRemote) (name : String) : Dict SitePath (List UInt8) :=
  ((r.branch? name).getD .empty).contents

def blobs (r : MemoryRemote) (name : String) : Dict SitePath BlobId :=
  ((r.branch? name).getD .empty).blobs

def history (r : MemoryRemote) (name : String) : List Commit :=
  ((r.branch? name).getD .empty).history

end MemoryRemote

def FileWrite.applyTo (files : Dict SitePath (List UInt8)) (w : FileWrite) :
    Dict SitePath (List UInt8) :=
  match w.change with
  | .put content => files.insert w.path content.bytes
  | .delete => files.erase w.path

namespace MemoryBranch

/-- Contents and blobs tell of the same files. -/
structure Consistent (b : MemoryBranch) : Prop where
  sorted : b.contents.SortedKeys
  blobs : b.blobs = b.contents.mapValues BlobId.ofBytes

theorem empty_consistent : empty.Consistent := ⟨Dict.sortedKeys_nil, rfl⟩

theorem Consistent.applyWrite {b : MemoryBranch} (h : b.Consistent) (w : FileWrite) :
    (b.applyWrite w).Consistent := by
  unfold MemoryBranch.applyWrite
  split
  · exact ⟨h.sorted.insert _ _, by simp only [h.blobs, Dict.mapValues_insert]⟩
  · exact ⟨h.sorted.erase _, by simp only [h.blobs, Dict.mapValues_erase]⟩

theorem Consistent.applyWrites {b : MemoryBranch} (h : b.Consistent) (ws : List FileWrite) :
    (ws.foldl MemoryBranch.applyWrite b).Consistent := by
  induction ws generalizing b with
  | nil => exact h
  | cons w ws ih => exact ih (h.applyWrite w)

theorem Consistent.push {b : MemoryBranch} (h : b.Consistent) (c : Commit) :
    (b.push c).Consistent := ⟨h.sorted, h.blobs⟩

theorem contents_applyWrites (b : MemoryBranch) (ws : List FileWrite) :
    (ws.foldl applyWrite b).contents = ws.foldl FileWrite.applyTo b.contents := by
  induction ws generalizing b with
  | nil => rfl
  | cons w ws ih =>
    have hw : (b.applyWrite w).contents = FileWrite.applyTo b.contents w := by
      cases hc : w.change <;> simp [applyWrite, FileWrite.applyTo, hc]
    rw [List.foldl_cons, ih, hw, List.foldl_cons]

theorem history_applyWrite (b : MemoryBranch) (w : FileWrite) :
    (b.applyWrite w).history = b.history := by
  unfold applyWrite
  split <;> rfl

theorem history_applyWrites (b : MemoryBranch) (ws : List FileWrite) :
    (ws.foldl applyWrite b).history = b.history := by
  induction ws generalizing b with
  | nil => rfl
  | cons w ws ih => rw [List.foldl_cons, ih, history_applyWrite]

end MemoryBranch

namespace MemoryRemote

variable {r : MemoryRemote}

theorem branch?_commit (r : MemoryRemote) (name message : String) (ws : List FileWrite)
    (other : String) :
    (r.commit name message ws).branch? other =
      if other = name then
        some ((ws.foldl MemoryBranch.applyWrite ((r.branch? name).getD .empty)).push
          (newCommit (r.commits + 1) message))
      else r.branch? other := by
  simp only [branch?, commit, Dict.get?_insert]

theorem branch?_commit_of_ne (r : MemoryRemote) {name other : String} (message : String)
    (ws : List FileWrite) (h : other ≠ name) :
    (r.commit name message ws).branch? other = r.branch? other := by
  rw [branch?_commit, if_neg h]

theorem history_commit (r : MemoryRemote) (name message : String) (ws : List FileWrite)
    (other : String) :
    (r.commit name message ws).history other =
      if other = name then newCommit (r.commits + 1) message :: r.history name
      else r.history other := by
  simp only [history, branch?_commit]
  split
  · simp [MemoryBranch.push, MemoryBranch.history_applyWrites]
  · rfl

theorem files_commit (r : MemoryRemote) (name message : String) (ws : List FileWrite)
    (other : String) :
    (r.commit name message ws).files other =
      if other = name then ws.foldl FileWrite.applyTo (r.files name) else r.files other := by
  simp only [files, branch?_commit]
  split
  · simp [MemoryBranch.push, MemoryBranch.contents_applyWrites]
  · rfl

theorem head?_eq_history (r : MemoryRemote) (name : String) :
    r.head? name = (r.history name).head?.map Commit.id := by
  simp only [head?, history]
  cases r.branch? name with
  | none => rfl
  | some b => rfl

theorem head?_commit (r : MemoryRemote) (name message : String) (ws : List FileWrite)
    (other : String) :
    (r.commit name message ws).head? other =
      if other = name then some (commitId (r.commits + 1)) else r.head? other := by
  simp only [head?_eq_history, history_commit]
  split <;> rfl

theorem write_cases (r : MemoryRemote) (name : String) (expected : Option String)
    (ws : List FileWrite) (message : String) :
    (∃ e, r.failNextWrite = some e ∧
      r.write name expected ws message = (.error e, { r with failNextWrite := none })) ∨
    (r.failNextWrite = none ∧ r.head? name = expected ∧
      r.write name expected ws message =
        (.ok ⟨commitId (r.commits + 1), commitUrl (commitId (r.commits + 1))⟩,
          r.commit name message ws)) ∨
    (r.failNextWrite = none ∧ r.head? name ≠ expected ∧
      r.write name expected ws message =
        (.error (.headMoved name (expected.getD "none")), r)) := by
  unfold write
  cases hf : r.failNextWrite with
  | some e => exact Or.inl ⟨e, rfl, rfl⟩
  | none =>
    by_cases hh : r.head? name = expected
    · exact Or.inr (Or.inl ⟨rfl, hh, if_pos hh⟩)
    · exact Or.inr (Or.inr ⟨rfl, hh, if_neg hh⟩)

/-- What every history of calls keeps. -/
structure Sound (r : MemoryRemote) : Prop where
  consistent : ∀ name b, r.branch? name = some b → b.Consistent
  committed : ∀ name b, r.branch? name = some b → b.history ≠ []
  numbered : ∀ name, ∀ c ∈ r.history name, ∃ n, 0 < n ∧ n ≤ r.commits ∧ c.id = commitId n
  ascending : ∀ name, (r.history name).Pairwise fun c d => commitNumber d.id < commitNumber c.id
  apart : ∀ name other, name ≠ other →
    ∀ c ∈ r.history name, ∀ d ∈ r.history other, c.id ≠ d.id

theorem empty_sound : empty.Sound where
  consistent _ _ h := by cases h
  committed _ _ h := by cases h
  numbered _ _ h := by cases h
  ascending _ := List.Pairwise.nil
  apart _ _ _ _ h := by cases h

theorem Sound.consistent_getD (h : r.Sound) (name : String) :
    ((r.branch? name).getD .empty).Consistent := by
  cases hb : r.branch? name with
  | none => exact MemoryBranch.empty_consistent
  | some b => exact h.consistent name b hb

theorem Sound.blobs_eq (h : r.Sound) (name : String) :
    r.blobs name = (r.files name).mapValues BlobId.ofBytes := (h.consistent_getD name).blobs

theorem Sound.files_sorted (h : r.Sound) (name : String) : (r.files name).SortedKeys :=
  (h.consistent_getD name).sorted

theorem Sound.number_le (h : r.Sound) {name : String} {c : Commit} (hc : c ∈ r.history name) :
    commitNumber c.id ≤ r.commits := by
  obtain ⟨n, -, hn, hid⟩ := h.numbered name c hc
  rwa [hid, commitNumber_commitId]

theorem Sound.fresh (h : r.Sound) {name : String} {c : Commit} (hc : c ∈ r.history name) {n : ℕ}
    (hn : r.commits < n) : c.id ≠ commitId n := by
  intro hid
  have hle := h.number_le hc
  rw [hid, commitNumber_commitId] at hle
  omega

theorem Sound.commit (h : r.Sound) (name message : String) (ws : List FileWrite) :
    (r.commit name message ws).Sound where
  consistent other b hb := by
    rw [branch?_commit] at hb
    split at hb
    · cases hb
      exact ((h.consistent_getD name).applyWrites ws).push _
    · exact h.consistent other b hb
  committed other b hb := by
    rw [branch?_commit] at hb
    split at hb
    · cases hb
      exact List.cons_ne_nil _ _
    · exact h.committed other b hb
  numbered other c hc := by
    have old : ∀ name, c ∈ r.history name → ∃ n, 0 < n ∧ n ≤ r.commits + 1 ∧ c.id = commitId n := by
      intro name hc
      obtain ⟨n, hpos, hle, hid⟩ := h.numbered name c hc
      exact ⟨n, hpos, by omega, hid⟩
    rw [history_commit] at hc
    split at hc
    · rcases List.mem_cons.mp hc with rfl | hc
      · exact ⟨r.commits + 1, by omega, le_refl _, rfl⟩
      · exact old name hc
    · exact old other hc
  ascending other := by
    rw [history_commit]
    split
    · refine List.pairwise_cons.mpr ⟨fun c hc => ?_, h.ascending name⟩
      have hle := h.number_le hc
      rw [newCommit, commitNumber_commitId]
      omega
    · exact h.ascending other
  apart one other hne c hc d hd := by
    rw [history_commit] at hc hd
    split at hc <;> split at hd
    · next h1 h2 => exact absurd (h1.trans h2.symm) hne
    · next h1 h2 =>
      rcases List.mem_cons.mp hc with rfl | hc
      · exact (h.fresh hd (Nat.lt_succ_self _)).symm
      · exact h.apart name other (Ne.symm h2) c hc d hd
    · next h1 h2 =>
      rcases List.mem_cons.mp hd with rfl | hd
      · exact h.fresh hc (Nat.lt_succ_self _)
      · exact h.apart one name h1 c hc d hd
    · exact h.apart one other hne c hc d hd

theorem Sound.write (h : r.Sound) (name : String) (expected : Option String) (ws : List FileWrite)
    (message : String) : (r.write name expected ws message).2.Sound := by
  rcases r.write_cases name expected ws message with ⟨e, -, he⟩ | ⟨-, -, he⟩ | ⟨-, -, he⟩ <;> rw [he]
  · exact ⟨h.consistent, h.committed, h.numbered, h.ascending, h.apart⟩
  · exact h.commit name message ws
  · exact h

theorem Sound.after (h : r.Sound) (call : Call) : (r.after call).Sound := by
  cases call with
  | seed branch message => exact h.commit branch message []
  | snapshot branch => exact h
  | list branch count =>
    simp only [MemoryRemote.after, listCommits]
    split
    · exact ⟨h.consistent, h.committed, h.numbered, h.ascending, h.apart⟩
    · split <;> exact h
  | write branch expected ws message => exact h.write branch expected ws message
  | failWrite e => exact ⟨h.consistent, h.committed, h.numbered, h.ascending, h.apart⟩
  | failList e => exact ⟨h.consistent, h.committed, h.numbered, h.ascending, h.apart⟩

theorem Sound.run (h : r.Sound) (calls : List Call) : (run calls r).Sound := by
  induction calls generalizing r with
  | nil => exact h
  | cons call calls ih => exact ih (h.after call)

theorem Reachable.sound (h : r.Reachable) : r.Sound := by
  obtain ⟨calls, rfl⟩ := h
  exact empty_sound.run calls

theorem snapshot_base (r : MemoryRemote) (name : String) :
    (r.snapshot name).map Snapshot.head = r.head? name := by
  unfold snapshot head?
  cases hb : r.branch? name with
  | none => rfl
  | some b => cases hh : b.head? <;> simp [hh]

theorem Sound.snapshot_blobs (h : r.Sound) (name : String) :
    ((r.snapshot name).map Snapshot.blobs).getD [] = r.blobs name := by
  unfold snapshot blobs
  cases hb : r.branch? name with
  | none => rfl
  | some b =>
    have hne := h.committed name b hb
    cases hh : b.history with
    | nil => exact absurd hh hne
    | cons c rest => simp [MemoryBranch.head?, hh]

theorem Sound.head?_eq_none_iff (h : r.Sound) (name : String) :
    r.head? name = none ↔ r.branch? name = none := by
  unfold head?
  cases hb : r.branch? name with
  | none => simp
  | some b =>
    have hne := h.committed name b hb
    simp [MemoryBranch.head?, hne]

theorem history_suffix_commit (r : MemoryRemote) (name message : String) (ws : List FileWrite)
    (other : String) : r.history other <:+ (r.commit name message ws).history other := by
  rw [history_commit]
  split
  · next h => exact h ▸ List.suffix_cons _ _
  · exact List.suffix_refl _

/-- A commit of a branch that is behind its head. -/
def Passed (r : MemoryRemote) (name id : String) : Prop := ∃ c ∈ (r.history name).tail, c.id = id

theorem Passed.of_suffix {later : MemoryRemote} {name id : String} (h : r.Passed name id)
    (hs : r.history name <:+ later.history name) : later.Passed name id := by
  obtain ⟨c, hc, hid⟩ := h
  obtain ⟨front, hf⟩ := hs
  refine ⟨c, ?_, hid⟩
  rw [← hf]
  cases front with
  | nil => exact hc
  | cons d front => exact List.mem_append_right _ (List.mem_of_mem_tail hc)

theorem passed_of_head {later : MemoryRemote} {name id : String} (hh : r.head? name = some id)
    (hs : r.history name <:+ later.history name) (hne : later.head? name ≠ some id) :
    later.Passed name id := by
  rw [head?_eq_history] at hh hne
  obtain ⟨front, hf⟩ := hs
  cases hr : r.history name with
  | nil => simp [hr] at hh
  | cons c rest =>
    have hid : c.id = id := by simpa [hr] using hh
    cases front with
    | nil =>
      rw [← hf, hr] at hne
      exact absurd (by simp [hid]) hne
    | cons d front =>
      refine ⟨c, ?_, hid⟩
      rw [← hf, hr]
      simp

/-- Ids are given once, so a commit behind a head is the head of no branch. -/
theorem Sound.head?_ne_of_passed (h : r.Sound) {name id : String} (hp : r.Passed name id)
    (other : String) : r.head? other ≠ some id := by
  obtain ⟨c, hc, rfl⟩ := hp
  rw [head?_eq_history]
  intro hh
  obtain ⟨d, hd, hid⟩ := Option.map_eq_some_iff.mp hh
  by_cases ho : other = name
  · subst ho
    have hlt := h.ascending other
    cases hl : r.history other with
    | nil => simp [hl] at hd
    | cons e rest =>
      rw [hl] at hlt hd hc
      cases hd
      have := (List.pairwise_cons.mp hlt).1 c hc
      rw [hid] at this
      exact lt_irrefl _ this
  · exact h.apart other name ho d (List.mem_of_head? hd) c (List.mem_of_mem_tail hc) hid

end MemoryRemote

end SitePublish
