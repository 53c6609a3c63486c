import SitePublish.Remote.Memory
import SitePublish.Version.History

/-!
# Pages of versions

A page shows the newest commits of a branch and counts them from its own end, so a number says where a
commit stands in the page and not where it stands in the history. A longer page begins with the same
commits, and each of them has a number that is higher by as many as there are more.
-/

set_option autoImplicit false

namespace SitePublish

namespace VersionRecord

theorem length_numbered (commits : List Commit) : (numbered commits).length = commits.length := by
  induction commits with
  | nil => rfl
  | cons c rest ih => rw [numbered, List.length_cons, List.length_cons, ih]

theorem map_commit_numbered (commits : List Commit) :
    (numbered commits).map VersionRecord.commit = commits := by
  induction commits with
  | nil => rfl
  | cons c rest ih => rw [numbered, List.map_cons, ih]

theorem map_number_numbered (commits : List Commit) :
    (numbered commits).map VersionRecord.number = (List.range' 1 commits.length).reverse := by
  induction commits with
  | nil => rfl
  | cons c rest ih =>
    rw [numbered, List.map_cons, ih, List.length_cons, List.range'_concat, List.reverse_append,
      Nat.one_mul, Nat.add_comm]
    rfl

theorem number_add_of_getElem? {commits : List Commit} {i : Nat} {v : VersionRecord}
    (h : (numbered commits)[i]? = some v) : v.number + i = commits.length := by
  induction commits generalizing i with
  | nil => cases h
  | cons c rest ih =>
    cases i with
    | zero =>
      cases h
      rfl
    | succ i =>
      rw [numbered, List.getElem?_cons_succ] at h
      rw [List.length_cons, ← ih h, Nat.add_assoc]

def raised (more : Nat) (v : VersionRecord) : VersionRecord := { v with number := v.number + more }

theorem numbered_append (newer older : List Commit) :
    numbered (newer ++ older) = (numbered newer).map (raised older.length) ++ numbered older := by
  induction newer with
  | nil => rfl
  | cons c rest ih =>
    rw [List.cons_append, numbered, numbered, ih, List.map_cons, List.cons_append, raised,
      List.length_append, Nat.add_right_comm]

/-- What a page of at most `size` versions shows of a history, the newest commit first. -/
structure IsPage (history : List Commit) (size : Nat) (records : List VersionRecord) : Prop where
  length : records.length = min size history.length
  newest : records.map VersionRecord.commit = history.take size
  numbers : records.map VersionRecord.number = (List.range' 1 records.length).reverse
  /-- No place is beyond the length that it is taken from. -/
  difference : ∀ i v, records[i]? = some v → v.number + i = records.length
  shortIds : ∀ v ∈ records, v.shortId.toList = v.commit.id.toList.take 7

theorem isPage_numbered (history : List Commit) (size : Nat) :
    IsPage history size (numbered (history.take size)) where
  length := by rw [length_numbered, List.length_take]
  newest := map_commit_numbered _
  numbers := by rw [map_number_numbered, length_numbered]
  difference i v h := by rw [length_numbered, number_add_of_getElem? h]
  shortIds v _ := String.toList_ofList

/-- A shorter page is the beginning of a longer one but for the numbers. -/
theorem raised_prefix_numbered (history : List Commit) {size more : Nat} (h : size ≤ more) :
    (numbered (history.take size)).map (raised
        ((numbered (history.take more)).length - (numbered (history.take size)).length)) <+:
      numbered (history.take more) := by
  obtain ⟨older, split⟩ := List.take_prefix_take_left (l := history) h
  rw [length_numbered, length_numbered, ← split, List.length_append, Nat.add_sub_cancel_left,
    numbered_append]
  exact List.prefix_append _ _

end VersionRecord

namespace VersionHistory

theorem pageSize_mono {asked more : Nat} (h : asked ≤ more) : pageSize asked ≤ pageSize more := by
  unfold pageSize
  omega

end VersionHistory

namespace MemoryRemote

open VersionRecord VersionHistory

def versions (r : MemoryRemote) (branch : String) (asked : Nat) :
    Except VersionFetchError (List VersionRecord) × MemoryRemote :=
  VersionHistory.list (fun name count r => r.listCommits name count) branch asked r

variable {r : MemoryRemote} {branch : String} {b : MemoryBranch}

theorem versions_eq (found : r.branch? branch = some b) (calm : r.failNextList = none)
    (asked : Nat) :
    r.versions branch asked = (.ok (numbered (b.history.take (pageSize asked))), r) := by
  have listed : r.listCommits branch (pageSize asked) =
      (.ok (b.history.take (pageSize asked)), r) := by
    rw [listCommits, calm, found]
  simp only [versions, VersionHistory.list, listed]

/-- Every size that is asked for gives a page, and whoever asks for more gets the same commits first. -/
theorem versions_consistent (found : r.branch? branch = some b) (calm : r.failNextList = none)
    (asked : Nat) :
    ∃ records, r.versions branch asked = (.ok records, r) ∧
      IsPage b.history (max 1 (min asked 100)) records ∧
      ∀ more, asked ≤ more → ∃ longer, r.versions branch more = (.ok longer, r) ∧
        records.map (raised (longer.length - records.length)) <+: longer :=
  ⟨_, versions_eq found calm asked, isPage_numbered b.history (pageSize asked),
    fun more h => ⟨_, versions_eq found calm more,
      raised_prefix_numbered b.history (pageSize_mono h)⟩⟩

def seeded : MemoryRemote :=
  ((empty.commit "main" "first" []).commit "main" "second" []).commit "main" "third" []

/-- Whoever asks for no versions gets one, the last, as the first; among a thousand it is the third. -/
theorem seeded_consistent :
    ∃ b newest all, seeded.branch? "main" = some b ∧ seeded.failNextList = none ∧
      b.history.length = 3 ∧
      seeded.versions "main" 0 = (.ok newest, seeded) ∧ IsPage b.history 1 newest ∧
      seeded.versions "main" 1000 = (.ok all, seeded) ∧ newest.map (raised 2) <+: all ∧
      all.map VersionRecord.number = [3, 2, 1] := by
  have found : seeded.branch? "main" = some ⟨[newCommit 3 "third", newCommit 2 "second",
    newCommit 1 "first"], [], []⟩ := by decide
  obtain ⟨newest, asked, one, longer⟩ := versions_consistent found rfl 0
  obtain ⟨all, more, whole, -⟩ := versions_consistent found rfl 1000
  obtain ⟨all', more', same⟩ := longer 1000 (by decide)
  cases more.symm.trans more'
  have three : all.length = 3 := whole.length
  rw [three, one.length] at same
  have numbers := whole.numbers
  rw [three] at numbers
  exact ⟨_, newest, all, found, rfl, rfl, asked, one, more, same, numbers⟩

end MemoryRemote

end SitePublish
