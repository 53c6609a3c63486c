import Mathlib.Logic.Function.Basic
import SitePublish.Page.Layout
import SitePublish.Proofs.Remote.Memory
import SitePublish.Remote.Plan

/-!
# Deployers that share a remote and no locks

Any number of deployers read a branch, plan and write, one step at a time and in any order, while
commits from elsewhere appear on any branch. A write lands only on the head that its plan was made
for, so the files of every branch are those of a run in which the deployers that committed came one
after the other.
-/

set_option autoImplicit false

namespace SitePublish

structure Publisher where
  branch : String
  files : List Candidate
  owned : SitePath → Bool
  message : CommitPlan → String

namespace Publisher

def plan (p : Publisher) (snapshot : Option Snapshot) : CommitPlan :=
  .ofSnapshot p.files snapshot p.owned

def write (p : Publisher) (plan : CommitPlan) (r : MemoryRemote) :
    Except RemoteError CommitReceipt × MemoryRemote :=
  r.write p.branch plan.base plan.writes (p.message plan)

def alone (p : Publisher) (r : MemoryRemote) : MemoryRemote :=
  (p.write (p.plan (r.snapshot p.branch)) r).2

end Publisher

inductive Progress where
  | waiting
  | read (snapshot : Option Snapshot)
  | planned (plan : CommitPlan)
  | ended (result : Except RemoteError CommitReceipt)

structure Race (ι : Type) where
  remote : MemoryRemote
  progress : ι → Progress
  /-- Whose commits are on the remote, in the order of the commits. -/
  committed : List ι

namespace Race

inductive Move (ι : Type) where
  | read (i : ι)
  | plan (i : ι)
  | write (i : ι)
  | seed (branch message : String)

variable {ι : Type}

def start (r : MemoryRemote) : Race ι := ⟨r, fun _ => .waiting, []⟩

def serial (deployers : ι → Publisher) : List ι → MemoryRemote → MemoryRemote
  | [], r => r
  | i :: rest, r => serial deployers rest ((deployers i).alone r)

section Steps

variable [DecidableEq ι]

def advance (s : Race ι) (i : ι) (p : Progress) : Race ι :=
  { s with progress := Function.update s.progress i p }

/-- A move that is not the deployer's next one changes nothing. -/
def step (deployers : ι → Publisher) (s : Race ι) : Move ι → Race ι
  | .read i =>
    match s.progress i with
    | .waiting => s.advance i (.read (s.remote.snapshot (deployers i).branch))
    | _ => s
  | .plan i =>
    match s.progress i with
    | .read snapshot => s.advance i (.planned ((deployers i).plan snapshot))
    | _ => s
  | .write i =>
    match s.progress i with
    | .planned plan =>
      match (deployers i).write plan s.remote with
      | (.ok receipt, r) =>
        { s.advance i (.ended (.ok receipt)) with
          remote := r
          committed := s.committed ++ [i] }
      | (.error e, r) => { s.advance i (.ended (.error e)) with remote := r }
    | _ => s
  | .seed branch message => { s with remote := (s.remote.seed branch message).2 }

def run (deployers : ι → Publisher) : List (Move ι) → Race ι → Race ι
  | [], s => s
  | move :: moves, s => run deployers moves (step deployers s move)

end Steps

variable {deployers : ι → Publisher} {s : Race ι}

theorem serial_append (is js : List ι) (r : MemoryRemote) :
    serial deployers (is ++ js) r = serial deployers js (serial deployers is r) := by
  induction is generalizing r with
  | nil => rfl
  | cons i is ih => exact ih _

/-- From an earlier state of the remote on, a branch has the same head only if it is the same. -/
def SameSince (past now : MemoryRemote) (name : String) : Prop :=
  past.commits ≤ now.commits ∧
    (now.head? name = past.head? name → now.branch? name = past.branch? name)

theorem SameSince.refl (r : MemoryRemote) (name : String) : SameSince r r name :=
  ⟨le_refl _, fun _ => rfl⟩

theorem SameSince.commit {past now : MemoryRemote} {name : String} (hp : past.Sound)
    (h : SameSince past now name) (other message : String) (ws : List FileWrite) :
    SameSince past (now.commit other message ws) name := by
  refine ⟨Nat.le_succ_of_le h.1, fun hh => ?_⟩
  by_cases hn : name = other
  · -- the new head carries a number that the earlier state had not given
    subst hn
    rw [MemoryRemote.head?_commit, if_pos rfl, MemoryRemote.head?_eq_history] at hh
    obtain ⟨c, hc, hid⟩ := Option.map_eq_some_iff.mp hh.symm
    have hlt : past.commits < now.commits + 1 := Nat.lt_succ_of_le h.1
    exact absurd hid (hp.fresh (List.mem_of_head? hc) hlt)
  · rw [MemoryRemote.head?_commit, if_neg hn] at hh
    rw [MemoryRemote.branch?_commit_of_ne _ _ _ hn]
    exact h.2 hh

def Seen (now : MemoryRemote) (p : Publisher) (snapshot : Option Snapshot) : Prop :=
  ∃ past : MemoryRemote, past.Sound ∧ SameSince past now p.branch ∧
    snapshot = past.snapshot p.branch

def Holds (now : MemoryRemote) (p : Publisher) : Progress → Prop
  | .waiting => True
  | .read snapshot => Seen now p snapshot
  | .planned plan => ∃ snapshot, Seen now p snapshot ∧ plan = p.plan snapshot
  | .ended _ => True

/-- What every interleaving keeps, from the remote on which it began. -/
structure Inv (deployers : ι → Publisher) (first : MemoryRemote) (s : Race ι) : Prop where
  sound : s.remote.Sound
  unhindered : s.remote.failNextWrite = none
  holds : ∀ i, Holds s.remote (deployers i) (s.progress i)
  serialSound : (serial deployers s.committed first).Sound
  serialUnhindered : (serial deployers s.committed first).failNextWrite = none
  same : ∀ name, s.remote.files name = (serial deployers s.committed first).files name

theorem start_inv {r : MemoryRemote} (h : r.Sound) (hf : r.failNextWrite = none) :
    Inv deployers r (start r) where
  sound := h
  unhindered := hf
  holds _ := trivial
  serialSound := h
  serialUnhindered := hf
  same _ := rfl

theorem Holds.commit {now : MemoryRemote} {p : Publisher} {progress : Progress}
    (h : Holds now p progress) (name message : String) (ws : List FileWrite) :
    Holds (now.commit name message ws) p progress := by
  have seen : ∀ snapshot, Seen now p snapshot → Seen (now.commit name message ws) p snapshot := by
    rintro snapshot ⟨past, hp, hsince, hsnap⟩
    exact ⟨past, hp, hsince.commit hp name message ws, hsnap⟩
  cases progress with
  | waiting => trivial
  | read snapshot => exact seen snapshot h
  | planned plan =>
    obtain ⟨snapshot, hs, hplan⟩ := h
    exact ⟨snapshot, seen snapshot hs, hplan⟩
  | ended result => trivial

/-- The writes of a plan depend on the blobs of its snapshot only. -/
theorem writes_plan (p : Publisher) {r : MemoryRemote} (h : r.Sound) :
    (p.plan (r.snapshot p.branch)).writes =
      (CommitPlan.ofSnapshot p.files (some ⟨"", r.blobs p.branch⟩) p.owned).writes := by
  simp only [Publisher.plan, CommitPlan.writes, CommitPlan.toWrite, CommitPlan.ofSnapshot,
    h.snapshot_blobs]
  rfl

theorem base_plan (p : Publisher) (r : MemoryRemote) :
    (p.plan (r.snapshot p.branch)).base = r.head? p.branch := r.snapshot_base p.branch

theorem alone_eq (p : Publisher) {r : MemoryRemote} (hf : r.failNextWrite = none) :
    p.alone r = r.commit p.branch (p.message (p.plan (r.snapshot p.branch)))
      (p.plan (r.snapshot p.branch)).writes := by
  unfold Publisher.alone Publisher.write
  rcases r.write_cases p.branch (p.plan (r.snapshot p.branch)).base
    (p.plan (r.snapshot p.branch)).writes (p.message (p.plan (r.snapshot p.branch)))
    with ⟨e, he, -⟩ | ⟨-, -, hw⟩ | ⟨-, hne, -⟩
  · rw [hf] at he
    cases he
  · rw [hw]
  · exact absurd (base_plan p r).symm hne

/-- A write from a plan that still stands writes what the deployer alone would write, now or at the
same place of the serial run. -/
theorem Inv.writes_eq {first : MemoryRemote} (h : Inv deployers first s) {p : Publisher}
    {snapshot : Option Snapshot} (hs : Seen s.remote p snapshot)
    (hh : s.remote.head? p.branch = (p.plan snapshot).base) :
    (p.plan snapshot).writes =
      (p.plan ((serial deployers s.committed first).snapshot p.branch)).writes := by
  obtain ⟨past, hpast, hsince, rfl⟩ := hs
  rw [base_plan] at hh
  have hb : past.blobs p.branch = s.remote.blobs p.branch := by
    simp only [MemoryRemote.blobs, hsince.2 hh]
  rw [writes_plan p hpast, writes_plan p h.serialSound, hb, h.sound.blobs_eq, h.same,
    ← h.serialSound.blobs_eq]

theorem Inv.seed {first : MemoryRemote} (h : Inv deployers first s) (branch message : String) :
    Inv deployers first { s with remote := (s.remote.seed branch message).2 } where
  sound := h.sound.commit _ _ _
  unhindered := h.unhindered
  holds i := (h.holds i).commit branch message []
  serialSound := h.serialSound
  serialUnhindered := h.serialUnhindered
  same name := by
    rw [← h.same]
    simp only [MemoryRemote.seed, MemoryRemote.files_commit, List.foldl_nil]
    split
    · next hn => rw [hn]
    · rfl

variable [DecidableEq ι]

theorem Inv.advance {first : MemoryRemote} (h : Inv deployers first s) (i : ι) (p : Progress)
    (hp : Holds s.remote (deployers i) p) : Inv deployers first (s.advance i p) where
  sound := h.sound
  unhindered := h.unhindered
  holds j := by
    by_cases hj : j = i
    · subst hj
      simpa [Race.advance] using hp
    · simpa [Race.advance, hj] using h.holds j
  serialSound := h.serialSound
  serialUnhindered := h.serialUnhindered
  same := h.same

theorem Inv.commit {first : MemoryRemote} (h : Inv deployers first s) (i : ι)
    {snapshot : Option Snapshot} (hs : Seen s.remote (deployers i) snapshot)
    (hh : s.remote.head? (deployers i).branch = ((deployers i).plan snapshot).base)
    (result : Except RemoteError CommitReceipt) (message : String) :
    Inv deployers first
      { s.advance i (.ended result) with
        remote := s.remote.commit (deployers i).branch message ((deployers i).plan snapshot).writes
        committed := s.committed ++ [i] } := by
  have hserial : serial deployers (s.committed ++ [i]) first =
      (deployers i).alone (serial deployers s.committed first) := by
    rw [serial_append]
    rfl
  rw [alone_eq _ h.serialUnhindered, ← h.writes_eq hs hh] at hserial
  refine ⟨h.sound.commit _ _ _, h.unhindered, fun j => ?_, ?_, ?_, fun name => ?_⟩
  · exact ((h.advance i (.ended result) trivial).holds j).commit _ _ _
  · simp only [hserial]
    exact h.serialSound.commit _ _ _
  · simp only [hserial]
    exact h.serialUnhindered
  · simp only [hserial, MemoryRemote.files_commit, h.same]

/-- A write in the middle of a race either commits, if the head is the one of the plan, or is told
that the head moved and changes no branch. -/
theorem Inv.step_write {first : MemoryRemote} (h : Inv deployers first s) {i : ι}
    {plan : CommitPlan} (hp : s.progress i = .planned plan) :
    (s.remote.head? (deployers i).branch = plan.base ∧
      ∃ receipt, receipt.id = MemoryRemote.commitId (s.remote.commits + 1) ∧
        step deployers s (.write i) =
        { s.advance i (.ended (.ok receipt)) with
          remote := s.remote.commit (deployers i).branch ((deployers i).message plan) plan.writes
          committed := s.committed ++ [i] }) ∨
    (s.remote.head? (deployers i).branch ≠ plan.base ∧
      step deployers s (.write i) =
        s.advance i
          (.ended (.error (.headMoved (deployers i).branch (plan.base.getD "none"))))) := by
  simp only [step, hp, Publisher.write]
  rcases s.remote.write_cases (deployers i).branch plan.base plan.writes
    ((deployers i).message plan) with ⟨e, he, -⟩ | ⟨-, hh, hw⟩ | ⟨-, hne, hw⟩
  · rw [h.unhindered] at he
    cases he
  · rw [hw]
    exact Or.inl ⟨hh, _, rfl, rfl⟩
  · rw [hw]
    exact Or.inr ⟨hne, rfl⟩

theorem Inv.step {first : MemoryRemote} (h : Inv deployers first s) (move : Move ι) :
    Inv deployers first (step deployers s move) := by
  cases move with
  | read i =>
    simp only [Race.step]
    split
    · exact h.advance i _ ⟨s.remote, h.sound, SameSince.refl _ _, rfl⟩
    · exact h
  | plan i =>
    have hi := h.holds i
    simp only [Race.step]
    split
    · next snapshot hs =>
      rw [hs] at hi
      exact h.advance i _ ⟨snapshot, hi, rfl⟩
    · exact h
  | write i =>
    by_cases hp : ∃ plan, s.progress i = .planned plan
    · obtain ⟨plan, hp⟩ := hp
      have hi := h.holds i
      rw [hp] at hi
      obtain ⟨snapshot, hs, rfl⟩ := hi
      rcases h.step_write hp with ⟨hh, receipt, -, he⟩ | ⟨-, he⟩
      · rw [he]
        exact h.commit i hs hh _ _
      · rw [he]
        exact h.advance i _ trivial
    · have he : Race.step deployers s (.write i) = s := by
        simp only [Race.step]
        split
        · next plan hplan => exact absurd ⟨plan, hplan⟩ hp
        · rfl
      rw [he]
      exact h
  | seed branch message => exact h.seed branch message

theorem Inv.run {first : MemoryRemote} (h : Inv deployers first s) (moves : List (Move ι)) :
    Inv deployers first (run deployers moves s) := by
  induction moves generalizing s with
  | nil => exact h
  | cons move moves ih => exact ih (h.step move)

theorem Inv.step_remote {first : MemoryRemote} (h : Inv deployers first s) (move : Move ι) :
    (Race.step deployers s move).remote = s.remote ∨
      ∃ name message ws,
        (Race.step deployers s move).remote = s.remote.commit name message ws := by
  cases move with
  | read i =>
    simp only [Race.step]
    split <;> exact Or.inl rfl
  | plan i =>
    simp only [Race.step]
    split <;> exact Or.inl rfl
  | write i =>
    cases hp : s.progress i with
    | planned plan =>
      rcases h.step_write hp with ⟨-, receipt, -, he⟩ | ⟨-, he⟩
      · exact Or.inr ⟨_, _, _, congrArg Race.remote he⟩
      · rw [he]
        exact Or.inl rfl
    | waiting => simp [Race.step, hp]
    | read snapshot => simp [Race.step, hp]
    | ended result => simp [Race.step, hp]
  | seed branch message => exact Or.inr ⟨branch, message, [], rfl⟩

theorem Inv.history_suffix {first : MemoryRemote} (h : Inv deployers first s)
    (moves : List (Move ι)) (name : String) :
    s.remote.history name <:+ (Race.run deployers moves s).remote.history name := by
  induction moves generalizing s with
  | nil => exact List.suffix_refl _
  | cons move moves ih =>
    refine List.IsSuffix.trans ?_ (ih (h.step move))
    rcases h.step_remote move with he | ⟨other, message, ws, he⟩
    · exact he ▸ List.suffix_refl _
    · exact he ▸ s.remote.history_suffix_commit other message ws name

theorem Inv.sameSince {first past : MemoryRemote} {name : String} (h : Inv deployers first s)
    (hp : past.Sound) (hs : SameSince past s.remote name) (moves : List (Move ι)) :
    SameSince past (Race.run deployers moves s).remote name := by
  induction moves generalizing s with
  | nil => exact hs
  | cons move moves ih =>
    refine ih (h.step move) ?_
    rcases h.step_remote move with he | ⟨other, message, ws, he⟩ <;> rw [he]
    · exact hs
    · exact hs.commit hp other message ws

/-- A deployer that has read goes on with what it has read. -/
def Follows (p : Publisher) (snapshot : Option Snapshot) : Progress → Prop
  | .waiting => False
  | .read seen => seen = snapshot
  | .planned plan => plan = p.plan snapshot
  | .ended _ => True

theorem follows_step {i : ι} {snapshot : Option Snapshot}
    (h : Follows (deployers i) snapshot (s.progress i)) (move : Move ι) :
    Follows (deployers i) snapshot ((step deployers s move).progress i) := by
  have other : ∀ (j : ι) (p : Progress), (j = i → Follows (deployers i) snapshot p) →
      Follows (deployers i) snapshot ((s.advance j p).progress i) := by
    intro j p hp
    by_cases hj : i = j
    · subst hj
      simpa [advance] using hp rfl
    · simpa [advance, hj] using h
  cases move with
  | read j =>
    simp only [step]
    split
    · next hw =>
      refine other j _ fun hj => ?_
      rw [← hj, hw] at h
      exact h.elim
    · exact h
  | plan j =>
    simp only [step]
    split
    · next seen hw =>
      refine other j _ fun hj => ?_
      subst hj
      rw [hw] at h
      exact congrArg _ h
    · exact h
  | write j =>
    simp only [step]
    split
    · split <;> exact other j _ fun _ => trivial
    · exact h
  | seed branch message => exact h

theorem follows_run {i : ι} {snapshot : Option Snapshot}
    (h : Follows (deployers i) snapshot (s.progress i)) (moves : List (Move ι)) :
    Follows (deployers i) snapshot ((run deployers moves s).progress i) := by
  induction moves generalizing s with
  | nil => exact h
  | cons move moves ih => exact ih (follows_step h move)

theorem step_read_progress {i : ι} (h : s.progress i = .waiting) :
    step deployers s (.read i) =
      s.advance i (.read (s.remote.snapshot (deployers i).branch)) := by
  simp [step, h]

/-- The deployers whose write succeeded are just those in the list of commits, each once. -/
def Logged (s : Race ι) : Prop :=
  s.committed.Nodup ∧ ∀ i, i ∈ s.committed ↔ ∃ receipt, s.progress i = .ended (.ok receipt)

theorem Logged.advance (h : Logged s) {i : ι} {p : Progress}
    (hold : ∀ receipt, s.progress i ≠ .ended (.ok receipt))
    (hnew : ∀ receipt, p ≠ .ended (.ok receipt)) : Logged (s.advance i p) := by
  refine ⟨h.1, fun j => ?_⟩
  by_cases hj : j = i
  · subst hj
    simp [Race.advance, hnew, h.2, hold]
  · simpa [Race.advance, hj] using h.2 j

theorem Logged.step (h : Logged s) (move : Move ι) : Logged (step deployers s move) := by
  cases move with
  | read i =>
    simp only [Race.step]
    split
    · next hw => exact h.advance (by simp [hw]) (by simp)
    · exact h
  | plan i =>
    simp only [Race.step]
    split
    · next hw => exact h.advance (by simp [hw]) (by simp)
    · exact h
  | write i =>
    simp only [Race.step]
    split
    · next hw =>
      split
      · next receipt r _ =>
        have hi : i ∉ s.committed := by simp [h.2, hw]
        refine ⟨List.nodup_append.mpr ⟨h.1, by simp, ?_⟩, fun j => ?_⟩
        · rintro a ha b hb rfl
          exact hi (List.mem_singleton.mp hb ▸ ha)
        · by_cases hj : j = i
          · subst hj
            simp [Race.advance]
          · simpa [Race.advance, hj] using h.2 j
      · exact h.advance (by simp [hw]) (by simp)
    · exact h
  | seed branch message => exact h

theorem Logged.run (h : Logged s) (moves : List (Move ι)) : Logged (run deployers moves s) := by
  induction moves generalizing s with
  | nil => exact h
  | cons move moves ih => exact ih (h.step move)

/-- No update is lost between deployers that begin on a remote. -/
structure Serializable (deployers : ι → Publisher) (first : MemoryRemote) : Prop where
  /-- A plan is made for the branch as it was read. Its write commits if the head is still the same,
  and then nothing at all happened to the branch in between; if the head is another one, the write
  is told that the head moved and changes no branch. -/
  compares : ∀ (before between : List (Move ι)) (i : ι) (plan : CommitPlan),
    let s := run deployers before (start first)
    let t := run deployers between (step deployers s (.read i))
    let u := step deployers t (.write i)
    let branch := (deployers i).branch
    s.progress i = .waiting → t.progress i = .planned plan →
      plan = (deployers i).plan (s.remote.snapshot branch) ∧
      (t.remote.head? branch = s.remote.head? branch →
        t.remote.branch? branch = s.remote.branch? branch ∧
        ∃ receipt, u.progress i = .ended (.ok receipt) ∧
          u.remote.head? branch = some receipt.id) ∧
      (t.remote.head? branch ≠ s.remote.head? branch →
        u.progress i =
          .ended (.error (.headMoved branch ((s.remote.head? branch).getD "none"))) ∧
        u.remote = t.remote)
  /-- An id that was the head of a branch and is not any more is never again the head of one. -/
  passes : ∀ (before between after : List (Move ι)) (name id : String),
    let s := run deployers before (start first)
    let t := run deployers between s
    s.remote.head? name = some id → t.remote.head? name ≠ some id →
      ∀ other, (run deployers after t).remote.head? other ≠ some id
  /-- The list of commits names each deployer whose write succeeded, once. -/
  logs : ∀ moves : List (Move ι),
    let s := run deployers moves (start first)
    s.committed.Nodup ∧
      ∀ i, i ∈ s.committed ↔ ∃ receipt, s.progress i = .ended (.ok receipt)
  /-- The files are those that the deployers leave that committed, one after the other. -/
  serial : ∀ (moves : List (Move ι)) (name : String),
    let s := run deployers moves (start first)
    s.remote.files name = (Race.serial deployers s.committed first).files name

theorem Inv.write_compares {first : MemoryRemote} (h : Inv deployers first s) {i : ι}
    {plan : CommitPlan} {past : MemoryRemote}
    (hp : s.progress i = .planned plan)
    (hplan : plan = (deployers i).plan (past.snapshot (deployers i).branch)) :
    (s.remote.head? (deployers i).branch = past.head? (deployers i).branch →
      ∃ receipt, (Race.step deployers s (.write i)).progress i = .ended (.ok receipt) ∧
        (Race.step deployers s (.write i)).remote.head? (deployers i).branch =
          some receipt.id) ∧
    (s.remote.head? (deployers i).branch ≠ past.head? (deployers i).branch →
      (Race.step deployers s (.write i)).progress i =
        .ended (.error (.headMoved (deployers i).branch
          ((past.head? (deployers i).branch).getD "none"))) ∧
      (Race.step deployers s (.write i)).remote = s.remote) := by
  have hbase : plan.base = past.head? (deployers i).branch := by rw [hplan, base_plan]
  rcases h.step_write hp with ⟨hh, receipt, hid, he⟩ | ⟨hne, he⟩
  · refine ⟨fun _ => ⟨receipt, ?_⟩, fun hn => absurd (hh.trans hbase) hn⟩
    rw [he, hid]
    exact ⟨by simp [Race.advance], by simp [MemoryRemote.head?_commit]⟩
  · refine ⟨fun hn => absurd (hn.trans hbase.symm) hne, fun _ => ?_⟩
    rw [he, hbase]
    exact ⟨by simp [Race.advance], rfl⟩

/-- Whatever the deployers bring along, however their steps are interleaved and whatever else is
committed meanwhile. -/
theorem serializable_of_reachable (deployers : ι → Publisher) {first : MemoryRemote}
    (hr : first.Reachable) (hf : first.failNextWrite = none) : Serializable deployers first where
  compares before between i plan := by
    intro s t u branch hw hp
    have hs : Inv deployers first s := (start_inv hr.sound hf).run before
    have ht : Inv deployers first t := (hs.step (.read i)).run between
    have hread : Follows (deployers i) (s.remote.snapshot branch)
        ((step deployers s (.read i)).progress i) := by
      rw [step_read_progress hw]
      simp [advance, Follows, branch]
    have hplan := follows_run hread between
    change Follows _ _ (t.progress i) at hplan
    rw [hp] at hplan
    have hsince : SameSince s.remote t.remote branch := by
      refine (hs.step (.read i)).sameSince hs.sound ?_ between
      rw [step_read_progress hw]
      exact SameSince.refl _ _
    obtain ⟨hok, hmoved⟩ := ht.write_compares hp hplan
    exact ⟨hplan, fun hh => ⟨hsince.2 hh, hok hh⟩, hmoved⟩
  passes before between after name id := by
    intro s t hh hne other
    have hs : Inv deployers first s := (start_inv hr.sound hf).run before
    have ht : Inv deployers first t := hs.run between
    have hp : t.remote.Passed name id :=
      MemoryRemote.passed_of_head hh (hs.history_suffix between name) hne
    exact (ht.run after).sound.head?_ne_of_passed
      (hp.of_suffix (ht.history_suffix after name)) other
  logs moves := by
    intro s
    have h : Logged (start first : Race ι) := ⟨List.nodup_nil, fun i => by simp [start]⟩
    exact h.run moves
  serial moves name := ((start_inv hr.sound hf).run moves).same name

def rivals (first : Bool) : Publisher where
  branch := "main"
  files := [⟨Layout.standardDataDir, .text (if first then "a" else "b"), .project⟩]
  owned _ := true
  message _ := "deploy"

def seeded : MemoryRemote := (MemoryRemote.empty.seed "main" "start").2

/-- Both read, the first one writes, and the write of the second is refused. -/
theorem rivals_second_refused :
    seeded.Reachable ∧ seeded.failNextWrite = none ∧
      (step rivals (run rivals [.read true, .plan true, .plan false, .write true]
        (step rivals (start seeded) (.read false))) (.write false)).progress false =
        .ended (.error (.headMoved "main" (MemoryRemote.commitId 1))) := by
  have hr : seeded.Reachable := ⟨[.seed "main" "start"], rfl⟩
  have h := (serializable_of_reachable rivals hr rfl).compares []
    [.read true, .plan true, .plan false, .write true] false _ rfl rfl
  exact ⟨hr, rfl, (h.2.2 (by decide)).1⟩

end Race

end SitePublish
