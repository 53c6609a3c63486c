import Mathlib.Data.List.Nodup
import Mathlib.Logic.Function.Basic
import Mathlib.Logic.Relation
import SitePublish.Proofs.Deploy.Remote

/-!
# Calls that share the branch locks

Any number of calls take branches and give them back, one step at a time and in any order. A call is in
the table first and gets the lock file then; if the file fails, it goes out of the table again. Whoever
finds a branch in the table sleeps until somebody who went out of it wakes all that sleep. Lock files
can fail at any time, and others may lock them too.

The branches in the table are those that a call holds, each by one call. A call never changes what the
others hold, and once it holds nothing, the table is as the others make it. A call waits at the table
only for a call that holds its branch. At the lock file it waits for whoever has locked the file, and
since names of lock files carry a part of the digest only, that can be the guard of another branch.
-/

set_option autoImplicit false

namespace SitePublish

theorem LockTable.isFree_iff {table : LockTable} {branch : String} :
    table.isFree branch = true ↔ branch ∉ table.held := by
  simp [isFree]

inductive LockStage where
  | away
  /-- About to look at the table. -/
  | asking (branch : String)
  | asleep (branch : String)
  /-- In the table; the lock file is next. -/
  | taken (branch : String)
  /-- In the table; the lock file failed. -/
  | refused (branch : String)
  /-- In the table; the lock file is locked. -/
  | guarding (branch : String)
  /-- In the table; the lock file is given back. -/
  | leaving (branch : String)
  /-- Out of the table; those that sleep are not told yet. -/
  | released (branch : String)

namespace LockStage

def held? : LockStage → Option String
  | .taken branch | .refused branch | .guarding branch | .leaving branch => some branch
  | .away | .asking _ | .asleep _ | .released _ => none

def awake : LockStage → LockStage
  | .asleep branch => .asking branch
  | stage => stage

theorem held?_awake (stage : LockStage) : stage.awake.held? = stage.held? := by
  cases stage <;> rfl

end LockStage

@[ext]
structure BranchLocks (ι : Type) where
  table : LockTable
  stage : ι → LockStage
  /-- The names of the lock files that others have locked. -/
  theirs : List String

namespace BranchLocks

variable {ι : Type}

def start : BranchLocks ι := ⟨.empty, fun _ => .away, []⟩

def holds (s : BranchLocks ι) (i : ι) : Option String := (s.stage i).held?

/-- Nobody has the lock file of a branch, nor that of a branch whose file has the same name. -/
def Unlocked (s : BranchLocks ι) (branch : String) : Prop :=
  LockFile.name branch ∉ s.theirs ∧
    ∀ j other, s.stage j = .guarding other → LockFile.name other ≠ LockFile.name branch

section Steps

variable [DecidableEq ι]

def put (s : BranchLocks ι) (i : ι) (stage : LockStage) : BranchLocks ι :=
  { s with stage := Function.update s.stage i stage }

def enter (s : BranchLocks ι) (i : ι) (branch : String) : BranchLocks ι :=
  { s.put i (.taken branch) with table := s.table.acquire branch }

def giveBack (s : BranchLocks ι) (i : ι) (branch : String) : BranchLocks ι :=
  { s.put i (.released branch) with table := s.table.release branch }

/-- What can happen next, and to which call; to none when others lock and unlock files. -/
inductive Step (dir : Option String) (s : BranchLocks ι) : Option ι → BranchLocks ι → Prop where
  | ask {i : ι} (branch : String) (away : s.stage i = .away) :
      Step dir s (some i) (s.put i (.asking branch))
  | take {i : ι} {branch : String} (asking : s.stage i = .asking branch)
      (free : s.table.isFree branch = true) :
      Step dir s (some i) (s.enter i branch)
  | sleep {i : ι} {branch : String} (asking : s.stage i = .asking branch)
      (held : s.table.isFree branch = false) : Step dir s (some i) (s.put i (.asleep branch))
  /-- Sleep may end without a reason. -/
  | stir {i : ι} {branch : String} (asleep : s.stage i = .asleep branch) :
      Step dir s (some i) (s.put i (.asking branch))
  | guard {i : ι} {branch : String} (taken : s.stage i = .taken branch)
      (unlocked : dir ≠ none → s.Unlocked branch) :
      Step dir s (some i) (s.put i (.guarding branch))
  | fail {i : ι} {branch : String} (taken : s.stage i = .taken branch) (filed : dir ≠ none) :
      Step dir s (some i) (s.put i (.refused branch))
  | drop {i : ι} {branch : String} (guarding : s.stage i = .guarding branch) :
      Step dir s (some i) (s.put i (.leaving branch))
  | undo {i : ι} {branch : String} (refused : s.stage i = .refused branch) :
      Step dir s (some i) (s.giveBack i branch)
  | leave {i : ι} {branch : String} (leaving : s.stage i = .leaving branch) :
      Step dir s (some i) (s.giveBack i branch)
  | tell {i : ι} {branch : String} (released : s.stage i = .released branch) :
      Step dir s (some i) (put { s with stage := fun j => (s.stage j).awake } i .away)
  | others (files : List String)
      (apart : ∀ j branch, s.stage j = .guarding branch → LockFile.name branch ∉ files) :
      Step dir s none { s with theirs := files }

def Next (dir : Option String) (s t : BranchLocks ι) : Prop := ∃ actor, Step dir s actor t

def Reachable (dir : Option String) (s : BranchLocks ι) : Prop :=
  Relation.ReflTransGen (Next dir) start s

inductive Effect (s t : BranchLocks ι) : Option ι → Prop where
  | quiet {actor : Option ι} (table : t.table = s.table) (holds : t.holds = s.holds) :
      Effect s t actor
  | takes {i : ι} {branch : String} (free : s.table.isFree branch = true) (idle : s.holds i = none)
      (table : t.table = s.table.acquire branch)
      (holds : t.holds = Function.update s.holds i (some branch)) : Effect s t (some i)
  | gives {i : ι} {branch : String} (held : s.holds i = some branch)
      (table : t.table = s.table.release branch)
      (holds : t.holds = Function.update s.holds i none) : Effect s t (some i)

variable {dir : Option String} {s t : BranchLocks ι} {actor : Option ι} {i : ι}

theorem holds_put (s : BranchLocks ι) (i : ι) (stage : LockStage) :
    (s.put i stage).holds = Function.update s.holds i stage.held? :=
  Function.comp_update LockStage.held? s.stage i stage

theorem holds_put_same {stage : LockStage} (h : stage.held? = s.holds i) :
    (s.put i stage).holds = s.holds := by
  rw [holds_put, h, Function.update_eq_self]

theorem Step.effect (step : Step dir s actor t) : Effect s t actor := by
  cases step with
  | ask branch away => exact .quiet rfl (holds_put_same (by rw [holds, away]; rfl))
  | take asking free => exact .takes free (by rw [holds, asking]; rfl) rfl (holds_put s _ _)
  | sleep asking held => exact .quiet rfl (holds_put_same (by rw [holds, asking]; rfl))
  | stir asleep => exact .quiet rfl (holds_put_same (by rw [holds, asleep]; rfl))
  | guard taken unlocked => exact .quiet rfl (holds_put_same (by rw [holds, taken]; rfl))
  | fail taken filed => exact .quiet rfl (holds_put_same (by rw [holds, taken]; rfl))
  | drop guarding => exact .quiet rfl (holds_put_same (by rw [holds, guarding]; rfl))
  | undo refused => exact .gives (by rw [holds, refused]; rfl) rfl (holds_put s _ _)
  | leave leaving => exact .gives (by rw [holds, leaving]; rfl) rfl (holds_put s _ _)
  | @tell i branch released =>
    have woken : holds { s with stage := fun j => (s.stage j).awake } = s.holds := by
      ext1 j
      exact (s.stage j).held?_awake
    refine .quiet rfl ((holds_put_same ?_).trans woken)
    rw [woken, holds, released]
    rfl
  | others files apart => exact .quiet rfl rfl

/-- The table tells who holds what, and no branch is held twice. -/
structure Exact (s : BranchLocks ι) : Prop where
  mem_iff : ∀ branch, branch ∈ s.table.held ↔ ∃ i, s.holds i = some branch
  nodup : s.table.held.Nodup
  single : ∀ branch i j, s.holds i = some branch → s.holds j = some branch → i = j

omit [DecidableEq ι] in
theorem start_exact : (start : BranchLocks ι).Exact where
  mem_iff _ := ⟨fun held => absurd held List.not_mem_nil, fun ⟨_, held⟩ => by cases held⟩
  nodup := List.nodup_nil
  single _ _ _ held := by cases held

theorem update_eq_some {f : ι → Option String} {v : Option String} {j : ι} {branch : String} :
    Function.update f i v j = some branch ↔
      (j = i ∧ v = some branch) ∨ (j ≠ i ∧ f j = some branch) := by
  by_cases here : j = i <;> simp [here]

theorem Exact.acquire (h : s.Exact) {taken : String} (fresh : taken ∉ s.table.held)
    (idle : s.holds i = none) (table : t.table = s.table.acquire taken)
    (holds : t.holds = Function.update s.holds i (some taken)) : t.Exact := by
  have nobody : ∀ j, s.holds j ≠ some taken := fun j held =>
    fresh ((h.mem_iff taken).mpr ⟨j, held⟩)
  refine ⟨fun branch => ?_, ?_, fun branch j k hj hk => ?_⟩
  · rw [table, holds, LockTable.acquire, List.mem_cons, h.mem_iff]
    simp only [update_eq_some]
    constructor
    · rintro (rfl | ⟨j, held⟩)
      · exact ⟨i, .inl ⟨rfl, rfl⟩⟩
      · have other : j ≠ i := by
          rintro rfl
          cases idle.symm.trans held
        exact ⟨j, .inr ⟨other, held⟩⟩
    · rintro ⟨j, ⟨-, same⟩ | ⟨-, held⟩⟩
      · exact .inl (Option.some.inj same).symm
      · exact .inr ⟨j, held⟩
  · rw [table]
    exact List.nodup_cons.mpr ⟨fresh, h.nodup⟩
  · rw [holds, update_eq_some] at hj hk
    rcases hj with ⟨rfl, same⟩ | ⟨-, hj⟩ <;> rcases hk with ⟨rfl, same'⟩ | ⟨-, hk⟩
    · rfl
    · exact absurd (hk.trans same.symm) (nobody k)
    · exact absurd (hj.trans same'.symm) (nobody j)
    · exact h.single branch j k hj hk

theorem Exact.release (h : s.Exact) {given : String} (held : s.holds i = some given)
    (table : t.table = s.table.release given)
    (holds : t.holds = Function.update s.holds i none) : t.Exact := by
  refine ⟨fun branch => ?_, ?_, fun branch j k hj hk => ?_⟩
  · rw [table, holds, LockTable.release, h.nodup.mem_erase_iff, h.mem_iff]
    simp only [update_eq_some]
    constructor
    · rintro ⟨ne, j, hj⟩
      have other : j ≠ i := by
        rintro rfl
        exact ne (Option.some.inj (hj.symm.trans held))
      exact ⟨j, .inr ⟨other, hj⟩⟩
    · rintro ⟨j, ⟨-, none⟩ | ⟨other, hj⟩⟩
      · cases none
      · refine ⟨?_, j, hj⟩
        rintro rfl
        exact other (h.single branch j i hj held)
  · rw [table]
    exact h.nodup.erase given
  · rw [holds, update_eq_some] at hj hk
    rcases hj with ⟨-, none⟩ | ⟨-, hj⟩
    · cases none
    · rcases hk with ⟨-, none⟩ | ⟨-, hk⟩
      · cases none
      · exact h.single branch j k hj hk

theorem Effect.exact (effect : Effect s t actor) (h : s.Exact) : t.Exact := by
  cases effect with
  | quiet table holds =>
    refine ⟨?_, table ▸ h.nodup, ?_⟩
    · rw [table, holds]
      exact h.mem_iff
    · rw [holds]
      exact h.single
  | takes free idle table holds => exact h.acquire (LockTable.isFree_iff.mp free) idle table holds
  | gives held table holds => exact h.release held table holds

def besides (s : BranchLocks ι) (i : ι) : List String :=
  s.table.held.filter fun branch => s.holds i ≠ some branch

omit [DecidableEq ι] in
theorem besides_of_idle (idle : s.holds i = none) : s.besides i = s.table.held := by
  rw [besides, List.filter_eq_self, idle]
  simp

theorem Effect.besides (effect : Effect s t (some i)) (h : s.Exact) :
    t.besides i = s.besides i := by
  cases effect with
  | quiet table holds => rw [BranchLocks.besides, BranchLocks.besides, table, holds]
  | @takes _ taken free idle table holds =>
    have fresh : taken ∉ s.table.held := LockTable.isFree_iff.mp free
    rw [besides_of_idle idle, BranchLocks.besides, table, holds, LockTable.acquire,
      Function.update_self, List.filter_cons_of_neg (by simp), List.filter_eq_self]
    rintro branch held
    have ne : taken ≠ branch := by
      rintro rfl
      exact fresh held
    simpa using ne
  | @gives _ given held table holds =>
    have idle : t.holds i = none := by rw [holds, Function.update_self]
    rw [besides_of_idle idle, BranchLocks.besides, table, LockTable.release,
      h.nodup.erase_eq_filter, held]
    apply List.filter_congr
    intro branch _
    by_cases same : branch = given
    · simp [same]
    · simp [same, Ne.symm same]

/-- Nobody sleeps for a branch that is free and that nobody is about to tell of. -/
def Told (s : BranchLocks ι) : Prop :=
  ∀ i branch, s.stage i = .asleep branch →
    branch ∈ s.table.held ∨ ∃ j, s.stage j = .released branch

omit [DecidableEq ι] in
theorem start_told : (start : BranchLocks ι).Told := fun _ _ asleep => by cases asleep

theorem Told.put (h : s.Told) {stage : LockStage} {table : LockTable}
    (kept : ∀ branch ∈ s.table.held, branch ∈ table.held ∨ stage = .released branch)
    (sleep : ∀ branch, stage = .asleep branch → branch ∈ table.held)
    (silent : ∀ branch, s.stage i ≠ .released branch) :
    Told { s.put i stage with table := table } := by
  intro j branch asleep
  by_cases here : j = i
  · apply Or.inl
    apply sleep
    simpa [BranchLocks.put, here] using asleep
  · have before : s.stage j = .asleep branch := by simpa [BranchLocks.put, here] using asleep
    rcases h j branch before with held | ⟨k, released⟩
    · rcases kept branch held with held | rfl
      · exact .inl held
      · exact .inr ⟨i, Function.update_self i _ _⟩
    · have other : k ≠ i := by
        rintro rfl
        exact silent branch released
      exact .inr ⟨k, (Function.update_of_ne other _ _).trans released⟩

theorem Step.told (step : Step dir s actor t) (h : s.Told) : t.Told := by
  have same : ∀ {stage : LockStage}, ∀ branch ∈ s.table.held,
      branch ∈ s.table.held ∨ stage = .released branch := fun _ held => .inl held
  have freed : ∀ given, ∀ branch ∈ s.table.held, branch ∈ (s.table.release given).held ∨
      LockStage.released given = .released branch := by
    intro given branch held
    by_cases here : branch = given
    · exact .inr (congrArg _ here.symm)
    · exact .inl ((List.mem_erase_of_ne here).mpr held)
  cases step with
  | ask branch away => exact h.put same (by simp) (by simp [away])
  | take asking free =>
    exact h.put (fun _ held => .inl (List.mem_cons_of_mem _ held)) (by simp) (by simp [asking])
  | @sleep i branch asking held =>
    refine h.put same (fun other asleep => ?_) (by simp [asking])
    cases asleep
    by_contra free
    rw [LockTable.isFree_iff.mpr free] at held
    cases held
  | stir asleep => exact h.put same (by simp) (by simp [asleep])
  | guard taken unlocked => exact h.put same (by simp) (by simp [taken])
  | fail taken filed => exact h.put same (by simp) (by simp [taken])
  | drop guarding => exact h.put same (by simp) (by simp [guarding])
  | undo refused => exact h.put (freed _) (by simp) (by simp [refused])
  | leave leaving => exact h.put (freed _) (by simp) (by simp [leaving])
  | @tell i branch released =>
    -- all that slept are awake now
    intro j other asleep
    by_cases here : j = i
    · simp [BranchLocks.put, here] at asleep
    · simp only [BranchLocks.put, ne_eq, here, not_false_eq_true, Function.update_of_ne] at asleep
      cases stage : s.stage j <;> simp [stage, LockStage.awake] at asleep
  | others files apart => exact h

theorem Effect.holds_of_ne (effect : Effect s t actor) {j : ι} (other : actor ≠ some j) :
    t.holds j = s.holds j := by
  cases effect with
  | quiet table holds => rw [holds]
  | takes free idle table holds =>
    rw [holds, Function.update_of_ne]
    rintro rfl
    exact other rfl
  | gives held table holds =>
    rw [holds, Function.update_of_ne]
    rintro rfl
    exact other rfl

theorem Effect.freed (effect : Effect s t (some i)) {branch : String} (held : s.holds i = some branch)
    (idle : t.holds i = none) : t.table = s.table.release branch := by
  cases effect with
  | quiet table holds =>
    rw [holds, held] at idle
    cases idle
  | takes free before table holds => cases before.symm.trans held
  | gives before table holds =>
    cases before.symm.trans held
    exact table

/-- The steps of one call, with nobody else moving. -/
def Lone (dir : Option String) (i : ι) : BranchLocks ι → BranchLocks ι → Prop :=
  Relation.ReflTransGen fun s t => Step dir s (some i) t

theorem Lone.besides (lone : Lone dir i s t) (h : s.Exact) :
    t.Exact ∧ t.besides i = s.besides i := by
  induction lone with
  | refl => exact ⟨h, rfl⟩
  | tail _ step ih =>
    obtain ⟨exact, same⟩ := ih
    exact ⟨step.effect.exact exact, (step.effect.besides exact).trans same⟩

theorem Lone.table_eq (lone : Lone dir i s t) (h : s.Exact) (before : s.holds i = none)
    (after : t.holds i = none) : t.table = s.table := by
  have held := (lone.besides h).2
  rw [besides_of_idle before, besides_of_idle after] at held
  exact congrArg LockTable.mk held

theorem exact_of_run (run : Relation.ReflTransGen (Next dir) s t) (h : s.Exact) : t.Exact := by
  induction run with
  | refl => exact h
  | tail _ next ih =>
    obtain ⟨actor, step⟩ := next
    exact step.effect.exact ih

theorem Reachable.exact (reached : s.Reachable dir) : s.Exact := exact_of_run reached start_exact

theorem Reachable.told (reached : s.Reachable dir) : s.Told := by
  induction reached with
  | refl => exact start_told
  | tail _ next ih =>
    obtain ⟨actor, step⟩ := next
    exact step.told ih

/-- A call for a branch that cannot come closer to its guard by itself. -/
def Waits (dir : Option String) (s : BranchLocks ι) (i : ι) (branch : String) : Prop :=
  ((s.stage i = .asking branch ∨ s.stage i = .asleep branch) ∧
      ∀ t, Step dir s (some i) t → t.stage i ≠ .taken branch) ∨
    (s.stage i = .taken branch ∧ ∀ t, Step dir s (some i) t → t.stage i ≠ .guarding branch)

inductive Obstacle (dir : Option String) (s : BranchLocks ι) (i : ι) (branch : String) : Prop where
  | held (j : ι) (other : j ≠ i) (held : s.holds j = some branch)
  /-- The branch was given back, and the call is about to be told. -/
  | untold (j : ι) (released : s.stage j = .released branch) (t : BranchLocks ι)
      (step : Step dir s (some j) t) (told : t.stage i = .asking branch)
  | theirs (taken : s.stage i = .taken branch) (filed : dir ≠ none)
      (locked : LockFile.name branch ∈ s.theirs)
  /-- The guard of another branch has a lock file of the same name. -/
  | namesake (taken : s.stage i = .taken branch) (filed : dir ≠ none) (j : ι) (other : String)
      (differs : other ≠ branch) (guarding : s.stage j = .guarding other)
      (same : LockFile.name other = LockFile.name branch)

/-- Past the table a call waits exactly while somebody has its lock file. -/
theorem waits_iff_of_taken {branch : String} (taken : s.stage i = .taken branch) :
    Waits dir s i branch ↔ dir ≠ none ∧ ¬ s.Unlocked branch := by
  constructor
  · rintro (⟨asking | asleep, -⟩ | ⟨-, stuck⟩)
    · cases taken.symm.trans asking
    · cases taken.symm.trans asleep
    · by_contra free
      have unlocked : dir ≠ none → s.Unlocked branch := by simpa using free
      exact stuck _ (.guard taken unlocked) (Function.update_self i _ _)
  · rintro ⟨filed, locked⟩
    refine .inr ⟨taken, fun t step guarding => ?_⟩
    cases step with
    | ask branch away => cases taken.symm.trans away
    | take asking free => cases taken.symm.trans asking
    | sleep asking held => cases taken.symm.trans asking
    | stir asleep => cases taken.symm.trans asleep
    | guard before unlocked =>
      cases taken.symm.trans before
      exact locked (unlocked filed)
    | fail before filed => cases (Function.update_self i _ _).symm.trans guarding
    | drop before => cases taken.symm.trans before
    | undo refused => cases taken.symm.trans refused
    | leave leaving => cases taken.symm.trans leaving
    | tell released => cases taken.symm.trans released

theorem Exact.obstacle_of_mem (h : s.Exact) {branch : String} (held : branch ∈ s.table.held)
    (idle : s.holds i = none) : Obstacle dir s i branch := by
  obtain ⟨j, hj⟩ := (h.mem_iff branch).mp held
  refine .held j ?_ hj
  rintro rfl
  cases idle.symm.trans hj

theorem Exact.obstacle (h : s.Exact) (told : s.Told) {branch : String}
    (waits : Waits dir s i branch) : Obstacle dir s i branch := by
  rcases id waits with ⟨asking | asleep, stuck⟩ | ⟨taken, -⟩
  · by_cases held : branch ∈ s.table.held
    · exact h.obstacle_of_mem held (by rw [holds, asking]; rfl)
    · exact absurd (Function.update_self i _ _)
        (stuck _ (.take asking (LockTable.isFree_iff.mpr held)))
  · rcases told i branch asleep with held | ⟨j, released⟩
    · exact h.obstacle_of_mem held (by rw [holds, asleep]; rfl)
    · have other : i ≠ j := by
        rintro rfl
        cases asleep.symm.trans released
      refine .untold j released _ (.tell released) ?_
      simp [put, other, asleep, LockStage.awake]
  · obtain ⟨filed, locked⟩ := (waits_iff_of_taken taken).mp waits
    by_cases outside : LockFile.name branch ∈ s.theirs
    · exact .theirs taken filed outside
    · obtain ⟨j, other, guarding, same⟩ :
          ∃ j other, s.stage j = .guarding other ∧ LockFile.name other = LockFile.name branch := by
        simpa [Unlocked, outside] using locked
      refine .namesake taken filed j other ?_ guarding same
      -- the guard of the branch itself would be a second call that holds it
      rintro rfl
      have me : i = j := h.single other i j (by rw [holds, taken]; rfl) (by rw [holds, guarding]; rfl)
      rw [me] at taken
      cases taken.symm.trans guarding

theorem step_tell (s : BranchLocks ι) (i : ι) (branch : String) :
    ∃ t, Step dir (s.giveBack i branch) (some i) t ∧ t.stage i = .away ∧
      t.table = s.table.release branch :=
  ⟨_, .tell (Function.update_self i _ _), Function.update_self i _ _, rfl⟩

/-- A call can always let its guard go, and nobody but itself is needed for it. -/
theorem lone_drop {branch : String} (guarding : s.stage i = .guarding branch) :
    ∃ t, Lone dir i s t ∧ t.stage i = .away ∧ t.table = s.table.release branch := by
  have dropped : Step dir s (some i) (s.put i (.leaving branch)) := .drop guarding
  have left : Step dir (s.put i (.leaving branch)) (some i) _ := .leave (Function.update_self i _ _)
  obtain ⟨t, told, away, table⟩ := step_tell (s.put i (.leaving branch)) i branch
  exact ⟨t, ((Relation.ReflTransGen.single dropped).tail left).tail told, away, table⟩

theorem lone_fail {branch : String} (taken : s.stage i = .taken branch) (filed : dir ≠ none) :
    ∃ t, Lone dir i s t ∧ t.stage i = .away ∧ t.table = s.table.release branch := by
  have failed : Step dir s (some i) (s.put i (.refused branch)) := .fail taken filed
  have undone : Step dir (s.put i (.refused branch)) (some i) _ := .undo (Function.update_self i _ _)
  obtain ⟨t, told, away, table⟩ := step_tell (s.put i (.refused branch)) i branch
  exact ⟨t, ((Relation.ReflTransGen.single failed).tail undone).tail told, away, table⟩

/-- What is true of the locks at any time. -/
structure Orderly (dir : Option String) (s : BranchLocks ι) : Prop where
  exact : s.Exact
  /-- No step changes what a call holds that does not make the step. -/
  others : ∀ actor t, Step dir s actor t → ∀ j, actor ≠ some j → t.holds j = s.holds j
  besides : ∀ i t, Step dir s (some i) t → t.besides i = s.besides i
  /-- Once a call holds nothing any more, it has changed nothing: a branch is in the table if it was
  before the call, unless another call took it or gave it back meanwhile. -/
  ended : ∀ i t, Relation.ReflTransGen (Next dir) s t → s.holds i = none → t.holds i = none →
    ∀ branch, (∀ j, j ≠ i → (t.holds j = some branch ↔ s.holds j = some branch)) →
      (branch ∈ t.table.held ↔ branch ∈ s.table.held)
  undisturbed : ∀ i t, Lone dir i s t → s.holds i = none → t.holds i = none → t.table = s.table
  /-- What goes out of the table is the branch of the call that makes the step. -/
  freed : ∀ i branch t, Step dir s (some i) t → s.holds i = some branch → t.holds i = none →
    ∀ other, other ∈ t.table.held ↔ other ≠ branch ∧ other ∈ s.table.held
  fails : ∀ i branch, s.stage i = .taken branch → dir ≠ none →
    ∃ t, Lone dir i s t ∧ t.stage i = .away ∧ t.table = s.table.release branch
  drops : ∀ i branch, s.stage i = .guarding branch →
    ∃ t, Lone dir i s t ∧ t.stage i = .away ∧ t.table = s.table.release branch
  waits : ∀ i branch, Waits dir s i branch → Obstacle dir s i branch

theorem Reachable.orderly (reached : s.Reachable dir) : s.Orderly dir where
  exact := reached.exact
  others _ _ step _ other := step.effect.holds_of_ne other
  besides _ _ step := step.effect.besides reached.exact
  ended i t run before after branch same := by
    rw [(exact_of_run run reached.exact).mem_iff, reached.exact.mem_iff]
    apply exists_congr
    intro j
    by_cases here : j = i
    · rw [here, before, after]
    · exact same j here
  undisturbed _ _ lone before after := lone.table_eq reached.exact before after
  freed i branch t step held idle other := by
    rw [step.effect.freed held idle]
    exact reached.exact.nodup.mem_erase_iff
  fails _ _ taken filed := lone_fail taken filed
  drops _ _ guarding := lone_drop guarding
  waits _ _ waits := reached.exact.obstacle reached.told waits

theorem put_put (s : BranchLocks ι) (i : ι) (first second : LockStage) :
    (s.put i first).put i second = s.put i second := by
  simp only [put, Function.update_idem]

theorem Reachable.step (reached : s.Reachable dir) (step : Step dir s actor t) : t.Reachable dir :=
  Relation.ReflTransGen.tail reached ⟨actor, step⟩

theorem Lone.run (lone : Lone dir i s t) : Relation.ReflTransGen (Next dir) s t :=
  Relation.ReflTransGen.mono (fun _ _ step => ⟨some i, step⟩) _ _ lone

theorem lone_enter {branch : String} (away : s.stage i = .away)
    (free : s.table.isFree branch = true) : Lone dir i s (s.enter i branch) := by
  have asked : Step dir s (some i) (s.put i (.asking branch)) := .ask branch away
  have took : Step dir (s.put i (.asking branch)) (some i) _ := .take (Function.update_self i _ _) free
  rw [enter, put_put] at took
  exact (Relation.ReflTransGen.single asked).tail took

theorem Unlocked.enter {branch other : String} (unlocked : s.Unlocked branch) :
    (s.enter i other).Unlocked branch := by
  refine ⟨unlocked.1, fun j guarded guarding => ?_⟩
  by_cases here : j = i
  · rw [here] at guarding
    cases (Function.update_self i _ _).symm.trans guarding
  · exact unlocked.2 j guarded ((Function.update_of_ne here _ _).symm.trans guarding)

end Steps

def pair (x y : String) : BranchLocks Bool where
  table := ⟨[y, x]⟩
  stage
    | false => .guarding x
    | true => .taken y
  theirs := []

theorem reachable_pair (dir : Option String) {x y : String} (differs : x ≠ y) :
    (pair x y).Reachable dir := by
  let first : BranchLocks Bool := start.enter false x
  have entered : first.Reachable dir := (lone_enter rfl rfl).run
  have guard : Step dir first (some false) (first.put false (.guarding x)) := by
    refine .guard rfl fun _ => ⟨List.not_mem_nil, fun j other guarding => ?_⟩
    cases j <;> cases guarding
  have free : (first.put false (.guarding x)).table.isFree y = true := by
    apply LockTable.isFree_iff.mpr
    simpa [first, enter, put, start, LockTable.acquire, LockTable.empty] using differs.symm
  have same : pair x y = (first.put false (.guarding x)).enter true y := by
    apply BranchLocks.ext
    · rfl
    · ext1 i
      cases i <;> rfl
    · rfl
  rw [same]
  exact (entered.step guard).trans (lone_enter rfl free).run

/-- The second call can still fail, and that frees its branch only. -/
theorem pair_orderly :
    (pair "main" "preview").Reachable (some "locks") ∧
      (pair "main" "preview").Orderly (some "locks") ∧
      ∃ t, Lone (some "locks") true (pair "main" "preview") t ∧ t.table = ⟨["main"]⟩ := by
  have reached : (pair "main" "preview").Reachable (some "locks") :=
    reachable_pair (some "locks") (by decide)
  have orderly := Reachable.orderly reached
  obtain ⟨t, lone, -, table⟩ := orderly.fails true "preview" rfl (by simp)
  exact ⟨reached, orderly, t, lone, table.trans (by decide)⟩

def slashed : String := "a/b/c_d/e_f/g_h_i/j/k/l/m/n/o/p_q/r"

def underscored : String := "a/b_c/d_e_f_g_h/i/j/k/l_m_n/o/p_q/r"

theorem name_slashed : LockFile.name slashed = LockFile.name underscored := by
  have shown : (slashed.toList.map fun c => if LockFile.isPlain c then c else '_') =
      underscored.toList.map fun c => if LockFile.isPlain c then c else '_' := by
    rw [slashed, underscored, String.toList_ofList, String.toList_ofList]
    decide
  have digits : (Digest.Sha256.hex (Text.utf8 slashed)).toList.take LockFile.digestDigits =
      (Digest.Sha256.hex (Text.utf8 underscored)).toList.take LockFile.digestDigits := by
    rw [Digest.Sha256.hex, Digest.Sha256.hex, Digest.hexBytes, Digest.hexBytes,
      String.toList_ofList, String.toList_ofList]
    decide +kernel
  rw [LockFile.name, LockFile.name, shown, digits]

/-- The digits of the digest that a name carries do not tell all branches apart: here a call waits for
the guard of another branch, while nobody else holds its own. -/
theorem slashed_bars_underscored :
    (pair slashed underscored).Reachable (some "locks") ∧ (pair slashed underscored).theirs = [] ∧
      Waits (some "locks") (pair slashed underscored) true underscored ∧
      ∀ j, j ≠ true → (pair slashed underscored).stage j = .guarding slashed ∧
        (pair slashed underscored).holds j ≠ some underscored := by
  have differs : slashed ≠ underscored := by decide
  refine ⟨reachable_pair _ differs, rfl, ?_, fun j other => ?_⟩
  · refine (waits_iff_of_taken rfl).mpr ⟨by simp, fun unlocked => ?_⟩
    exact unlocked.2 false slashed rfl name_slashed
  · have first : j = false := by simpa using other
    subst first
    exact ⟨rfl, fun same => differs (Option.some.inj same)⟩

section World

variable {τ : Type} [DecidableEq ι] {dir : Option String} {s : BranchLocks ι} {i : ι}
  {branch : String}

/-- A lock of the services is a call that nobody disturbs. -/
theorem lone_lock (w : World τ) (table : s.table = w.locks) (away : s.stage i = .away)
    (free : w.locks.isFree branch = true) (unlocked : dir ≠ none → s.Unlocked branch) :
    ∃ t, Lone dir i s t ∧ t.table = (World.lock dir branch w).2.locks ∧
      t.stage i = match (World.lock dir branch w).1 with
        | .ok () => .guarding branch
        | .error _ => .away := by
  have entered : Lone dir i s (s.enter i branch) := lone_enter away (table ▸ free)
  rcases World.lock_cases dir branch w with ⟨files, locked⟩ | ⟨e, files, locked⟩
  · have guard : Step dir (s.enter i branch) (some i) ((s.enter i branch).put i (.guarding branch)) :=
      .guard (Function.update_self i _ _) fun filed => (unlocked filed).enter
    rw [locked]
    exact ⟨_, entered.tail guard, congrArg (LockTable.acquire · branch) table,
      Function.update_self i _ _⟩
  · have filed : dir ≠ none := by
      rintro rfl
      cases locked
    obtain ⟨t, failed, gone, after⟩ := lone_fail (s := s.enter i branch)
      (Function.update_self i _ _) filed
    rw [locked]
    refine ⟨t, entered.trans failed, ?_, gone⟩
    rw [after, enter, LockTable.release_acquire, table]

theorem lone_unlock (w : World τ) (table : s.table = w.locks)
    (guarding : s.stage i = .guarding branch) :
    ∃ t, Lone dir i s t ∧ t.table = (World.unlock branch w).locks ∧ t.stage i = .away := by
  obtain ⟨t, lone, away, after⟩ := lone_drop guarding
  exact ⟨t, lone, after.trans (congrArg (LockTable.release · branch) table), away⟩

end World

end BranchLocks

end SitePublish
