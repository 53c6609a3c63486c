import Mathlib.Data.Nat.Digits.Defs
import SitePublish.Proofs.Remote.Plan
import SitePublish.Word

/-!
# What the remote in memory represents

A branch is kept twice, by its blobs and by its contents, and commits take their ids from one counter.
Whatever was called on the remote, the two sides tell of the same files and no id is on two commits;
along a branch the ids ascend as texts, since all have forty digits. A write that fails leaves the
branches and the counter alone. One that succeeds makes its changes in the order of the list, so at each
path the last change counts, and touches no other branch.
-/

set_option autoImplicit false

namespace SitePublish

namespace MemoryRemote

section Ids

def hexDigits : List Char := "0123456789abcdef".toList

variable {l l' : List Char}

theorem digitValue_lt {c : Char} (h : c ∈ hexDigits) : digitValue c < 16 := by
  have all : hexDigits.all (digitValue · < 16) = true := by decide
  simpa using List.all_eq_true.mp all c h

theorem digitValue_lt_digitValue {c d : Char} (hc : c ∈ hexDigits) (hd : d ∈ hexDigits)
    (h : c < d) : digitValue c < digitValue d := by
  have all : hexDigits.all (fun c => hexDigits.all fun d => !(c < d) || digitValue c < digitValue d)
      = true := by
    decide
  simpa [h] using List.all_eq_true.mp (List.all_eq_true.mp all c hc) d hd

theorem foldl_readDigit (n : ℕ) (l : List Char) :
    l.foldl readDigit n = n * 16 ^ l.length + l.foldl readDigit 0 := by
  induction l generalizing n with
  | nil => simp
  | cons c l ih =>
    rw [List.foldl_cons, List.foldl_cons, ih (readDigit n c), ih (readDigit 0 c), List.length_cons,
      readDigit, readDigit, pow_succ]
    ring

theorem foldl_readDigit_lt (hex : ∀ c ∈ l, c ∈ hexDigits) : l.foldl readDigit 0 < 16 ^ l.length := by
  induction l with
  | nil => simp
  | cons c l ih =>
    obtain ⟨hc, hl⟩ := List.forall_mem_cons.mp hex
    have first := digitValue_lt hc
    have rest := ih hl
    rw [List.foldl_cons, foldl_readDigit, List.length_cons, readDigit, pow_succ]
    nlinarith

theorem foldl_readDigit_lt_of_lt (length : l.length = l'.length) (hex : ∀ c ∈ l, c ∈ hexDigits)
    (hex' : ∀ c ∈ l', c ∈ hexDigits) (h : l < l') : l.foldl readDigit 0 < l'.foldl readDigit 0 := by
  induction l generalizing l' with
  | nil =>
    cases l' with
    | nil => exact absurd h (lt_irrefl _)
    | cons d l' => cases length
  | cons c l ih =>
    cases l' with
    | nil => cases length
    | cons d l' =>
      obtain ⟨hc, hl⟩ := List.forall_mem_cons.mp hex
      obtain ⟨hd, hl'⟩ := List.forall_mem_cons.mp hex'
      have same : l.length = l'.length := by simpa using length
      rw [List.foldl_cons, List.foldl_cons, foldl_readDigit, foldl_readDigit (readDigit 0 d), same]
      rcases List.cons_lt_cons_iff.mp h with first | ⟨rfl, rest⟩
      · have digit := digitValue_lt_digitValue hc hd first
        have low := foldl_readDigit_lt hl
        rw [same] at low
        simp only [readDigit]
        nlinarith [Nat.mul_le_mul_right (16 ^ l'.length) (Nat.succ_le_of_lt digit)]
      · exact Nat.add_lt_add_left (ih same hl hl' rest) _

theorem mem_hexDigits_of_mem_toDigits (n : ℕ) : ∀ c ∈ Nat.toDigits 16 n, c ∈ hexDigits := by
  have digit : ∀ d < 16, Nat.digitChar d ∈ hexDigits := by decide
  induction n using Nat.strongRecOn with
  | ind n ih =>
    rw [Nat.toDigits_eq_if (by decide)]
    split
    · next small => simpa using digit n small
    · next large =>
      have last : Nat.digitChar (n % 16) ∈ hexDigits := digit _ (Nat.mod_lt n (by decide))
      exact List.forall_mem_append.mpr ⟨ih (n / 16) (by omega), by simpa using last⟩

theorem mem_hexDigits_of_mem_commitId (n : ℕ) : ∀ c ∈ (commitId n).toList, c ∈ hexDigits := by
  rw [commitId, String.toList_ofList]
  refine List.forall_mem_append.mpr ⟨fun c hc => ?_, mem_hexDigits_of_mem_toDigits n⟩
  rw [List.eq_of_mem_replicate hc]
  decide

theorem length_commitId {n : ℕ} (fits : n < Word.limit64) : (commitId n).toList.length = 40 := by
  have short : (Nat.toDigits 16 n).length ≤ 16 :=
    (Nat.length_toDigits_le_iff (by decide) (by decide)).mpr (lt_of_lt_of_le fits (by decide))
  rw [commitId, String.toList_ofList, List.length_append, List.length_replicate]
  omega

theorem commitId_lt_commitId {m n : ℕ} (h : m < n) (fits : n < Word.limit64) :
    commitId m < commitId n := by
  rcases lt_trichotomy (commitId m) (commitId n) with less | same | greater
  · exact less
  · exact absurd (commitId_injective same) (ne_of_lt h)
  · have lengths : (commitId n).toList.length = (commitId m).toList.length := by
      rw [length_commitId fits, length_commitId (h.trans fits)]
    have numbers := foldl_readDigit_lt_of_lt lengths (mem_hexDigits_of_mem_commitId n)
      (mem_hexDigits_of_mem_commitId m) (String.lt_iff_toList_lt.mp greater)
    change commitNumber (commitId n) < commitNumber (commitId m) at numbers
    rw [commitNumber_commitId, commitNumber_commitId] at numbers
    omega

end Ids

end MemoryRemote

namespace MemoryRemote

variable {r : MemoryRemote}

def ids (r : MemoryRemote) : List String := r.branches.flatMap fun e => e.2.history.map Commit.id

theorem sortedKeys_after (h : r.branches.SortedKeys) (call : Call) :
    (r.after call).branches.SortedKeys := by
  cases call with
  | seed branch message => exact h.insert _ _
  | snapshot branch => exact h
  | list branch count =>
    simp only [after, listCommits]
    split
    · exact h
    · split <;> exact h
  | write branch expected files message =>
    simp only [after]
    rcases r.write_cases branch expected files message with
      ⟨e, -, written⟩ | ⟨-, -, written⟩ | ⟨-, -, written⟩
    · rw [written]
      exact h
    · rw [written]
      exact h.insert _ _
    · rw [written]
      exact h
  | failWrite e => exact h
  | failList e => exact h

theorem sortedKeys_run (h : r.branches.SortedKeys) (calls : List Call) :
    (run calls r).branches.SortedKeys := by
  induction calls generalizing r with
  | nil => exact h
  | cons call calls ih => exact ih (sortedKeys_after h call)

theorem Reachable.sortedKeys (h : r.Reachable) : r.branches.SortedKeys := by
  obtain ⟨calls, rfl⟩ := h
  exact sortedKeys_run Dict.sortedKeys_nil calls

theorem history_of_branch? {name : String} {b : MemoryBranch} (h : r.branch? name = some b) :
    r.history name = b.history := by
  rw [history, h, Option.getD_some]

theorem Sound.nodup_ids (h : r.Sound) (sorted : r.branches.SortedKeys) : r.ids.Nodup := by
  have found : ∀ e ∈ r.branches, r.history e.1 = e.2.history := fun e he =>
    history_of_branch? (Dict.get?_of_mem sorted.nodup he)
  refine List.nodup_flatMap.mpr ⟨fun e he => ?_, ?_⟩
  · rw [← found e he]
    refine List.pairwise_map.mpr ((h.ascending e.1).imp fun less same => ?_)
    rw [same] at less
    exact lt_irrefl _ less
  · -- two entries have different names, and no commit is on two branches
    have names := List.pairwise_map.mp sorted.nodup
    refine names.imp_of_mem fun {e f} he hf ne id onE onF => ?_
    obtain ⟨c, hc, rfl⟩ := List.mem_map.mp onE
    obtain ⟨d, hd, same⟩ := List.mem_map.mp onF
    rw [← found e he] at hc
    rw [← found f hf] at hd
    exact h.apart e.1 f.1 ne c hc d hd same.symm

theorem Sound.ascending_ids (h : r.Sound) (fits : r.commits < Word.limit64) (name : String) :
    ((r.history name).map Commit.id).Pairwise (· > ·) := by
  refine List.pairwise_map.mpr ((h.ascending name).imp_of_mem fun {c d} hc hd less => ?_)
  obtain ⟨m, -, bound, idC⟩ := h.numbered name c hc
  obtain ⟨n, -, -, idD⟩ := h.numbered name d hd
  rw [idC, idD, commitNumber_commitId, commitNumber_commitId] at less
  rw [idC, idD]
  exact commitId_lt_commitId less (lt_of_le_of_lt bound fits)

/-- What the state of the remote stands for: branches with commits and files, all kept consistently. -/
structure Represents (r : MemoryRemote) : Prop where
  names : r.branches.keys.Nodup
  committed : ∀ name b, r.branch? name = some b → b.history ≠ []
  paths : ∀ name b, r.branch? name = some b → b.blobs.keys = b.contents.keys ∧ b.contents.keys.Nodup
  blobs : ∀ name b, r.branch? name = some b →
    ∀ p, b.blobs.get? p = (b.contents.get? p).map BlobId.ofBytes
  distinct : r.ids.Nodup
  /-- The newest commit is the first of the history. -/
  ascending : ∀ name b, r.branch? name = some b → (b.history.map Commit.id).Pairwise (· > ·)

theorem Reachable.represents (h : r.Reachable) (fits : r.commits < Word.limit64) :
    r.Represents where
  names := h.sortedKeys.nodup
  committed := h.sound.committed
  paths name b hb := by
    obtain ⟨sorted, same⟩ := h.sound.consistent name b hb
    exact ⟨same ▸ Dict.keys_mapValues BlobId.ofBytes b.contents, sorted.nodup⟩
  blobs name b hb p := by
    rw [(h.sound.consistent name b hb).blobs, Dict.get?_mapValues]
  distinct := h.sound.nodup_ids h.sortedKeys
  ascending name b hb := by
    rw [← history_of_branch? hb]
    exact h.sound.ascending_ids fits name

/-- What a successful write makes of the remote. -/
structure Written (r : MemoryRemote) (name message : String) (changes : List FileWrite)
    (receipt : CommitReceipt) (later : MemoryRemote) : Prop where
  counted : later.commits = r.commits + 1
  receipt : receipt.id = commitId later.commits
  others : ∀ other, other ≠ name → later.branch? other = r.branch? other
  /-- The new commit is on top of the old ones. -/
  history : later.history name = newCommit later.commits message :: r.history name
  /-- The changes are made one after the other. -/
  files : later.files name = changes.foldl FileWrite.applyTo (r.files name)
  read : ∀ p, (later.files name).get? p =
    match FileWrite.last? changes p with
    | some w => w.change.bytes?
    | none => (r.files name).get? p

theorem written_commit (r : MemoryRemote) (name message : String) (files : List FileWrite)
    (url : String) :
    r.Written name message files ⟨commitId (r.commits + 1), url⟩ (r.commit name message files) where
  counted := rfl
  receipt := rfl
  others _ ne := branch?_commit_of_ne r message files ne
  history := (history_commit r name message files name).trans (if_pos rfl)
  files := (files_commit r name message files name).trans (if_pos rfl)
  read p := by
    rw [files_commit, if_pos rfl]
    exact FileWrite.get?_applyAll (r.files name) files p

section Writes

variable {later : MemoryRemote} {name message : String} {expected : Option String}
  {files : List FileWrite}

theorem unchanged_of_write_error {e : RemoteError}
    (written : r.write name expected files message = (.error e, later)) :
    later.branches = r.branches ∧ later.commits = r.commits := by
  rcases r.write_cases name expected files message with
    ⟨_, -, out⟩ | ⟨-, -, out⟩ | ⟨-, -, out⟩
  · cases out.symm.trans written
    exact ⟨rfl, rfl⟩
  · cases out.symm.trans written
  · cases out.symm.trans written
    exact ⟨rfl, rfl⟩

theorem written_of_write_ok {receipt : CommitReceipt}
    (written : r.write name expected files message = (.ok receipt, later)) :
    r.Written name message files receipt later := by
  rcases r.write_cases name expected files message with
    ⟨_, -, out⟩ | ⟨-, -, out⟩ | ⟨-, -, out⟩
  · cases out.symm.trans written
  · cases out.symm.trans written
    exact r.written_commit name message files _
  · cases out.symm.trans written

end Writes

/-- A write that fails takes no id, and one that succeeds takes the next one. -/
theorem Reachable.representation (name message : String) (expected : Option String)
    (files : List FileWrite) (h : r.Reachable) (fits : r.commits < Word.limit64) :
    r.Represents ∧
      (∀ e later, r.write name expected files message = (.error e, later) →
        later.branches = r.branches ∧ later.commits = r.commits) ∧
      (∀ receipt later, r.write name expected files message = (.ok receipt, later) →
        r.Written name message files receipt later) :=
  ⟨h.represents fits, fun _ _ => unchanged_of_write_error, fun _ _ => written_of_write_ok⟩

section Bakery

def flour : SitePath :=
  { text := "flour"
    normal := ⟨["flour".toList], by simp, by simp [SitePath.IsSegment], rfl⟩ }

def salt : SitePath :=
  { text := "salt"
    normal := ⟨["salt".toList], by simp, by simp [SitePath.IsSegment], rfl⟩ }

def bakery : MemoryRemote :=
  run [.seed "main" "start", .failWrite (.transport "timeout"), .write "preview" none [] "lost",
    .write "preview" none [⟨flour, .put (.text "rye")⟩] "flour"] empty

def recipe : List FileWrite :=
  [⟨flour, .put (.text "oats")⟩, ⟨salt, .delete⟩, ⟨flour, .delete⟩, ⟨salt, .put (.text "a pinch")⟩]

theorem bakery_representation :
    bakery.Represents ∧
      (bakery.write "preview" none recipe "again").2.commits = 2 ∧
      (∃ receipt later,
        bakery.write "preview" (some (commitId 2)) recipe "again" = (.ok receipt, later) ∧
        bakery.Written "preview" "again" recipe receipt later ∧
        (later.files "preview").get? flour = none) := by
  have reached : bakery.Reachable := ⟨_, rfl⟩
  have fits : bakery.commits < Word.limit64 := by decide
  obtain ⟨represents, refused, -⟩ :=
    Reachable.representation "preview" "again" none recipe reached fits
  obtain ⟨-, -, accepted⟩ :=
    Reachable.representation "preview" "again" (some (commitId 2)) recipe reached fits
  refine ⟨represents, (refused _ _ rfl).2, _, _, rfl, accepted _ _ rfl, ?_⟩
  exact (accepted _ _ rfl).read flour

end Bakery

end MemoryRemote

end SitePublish
