import Mathlib.Data.List.Chain
import Mathlib.Data.List.Forall2
import SitePublish.Proofs.Command.Saving
import SitePublish.Proofs.Command.Workplace
import SitePublish.Proofs.Deploy.Ownership

/-!
# The numbers of commits

A commit without a message of its own is named after the version that comes next to the one that the
document shows. The document moves on to that version if the deployment ends well, and stays at the
old one if publishing fails after the commit, or saving does; then the next commit has the same
number again.
-/

set_option autoImplicit false

namespace SitePublish

namespace Made

/-- The commit is named after this version. -/
def Carries (m : Made) (version : Nat) : Prop :=
  ∃ target changes, m.message = Deployer.defaultMessage version target changes

theorem space_not_mem_digits (n : Nat) : ' ' ∉ (toString n).toList :=
  fun h => absurd (Decimal.isDigit_of_mem_toString n ' ' h) (by decide)

theorem exists_defaultMessage_eq (version changes : Nat) (target : Target) :
    ∃ rest, (Deployer.defaultMessage version target changes).toList =
      "Deploy v".toList ++ ((toString version).toList ++ ' ' :: rest) := by
  refine ⟨"to ".toList ++ (target.name ++ (" (" ++ (toString changes ++ " files)"))).toList, ?_⟩
  simp only [Deployer.defaultMessage, String.toList_append, List.append_assoc]
  rfl

theorem Carries.unique : Relator.RightUnique Carries := by
  rintro m version version' ⟨target, changes, h⟩ ⟨target', changes', h'⟩
  obtain ⟨rest, hr⟩ := exists_defaultMessage_eq version changes target
  obtain ⟨rest', hr'⟩ := exists_defaultMessage_eq version' changes' target'
  rw [← h, h', hr'] at hr
  have cut := congrArg (Text.cutFirst ' ') (List.append_cancel_left hr)
  rw [Text.cutFirst_append_sep (space_not_mem_digits version'),
    Text.cutFirst_append_sep (space_not_mem_digits version)] at cut
  have digits := String.toList_injective (Prod.mk.inj (Option.some.inj cut)).1
  exact (Decimal.toString_injective digits).symm

theorem carries_commitMessage (document : Document) {options : DeployOptions}
    (plain : options.message = none) (branch : String) (plan : CommitPlan)
    (receipt : CommitReceipt) :
    Carries ⟨branch, Deployer.commitMessage document options plan, receipt⟩
      (document.currentVersion + 1) := by
  refine ⟨options.target, plan.changeCount, ?_⟩
  rw [Deployer.commitMessage, plain]
  rfl

end Made

namespace Command

variable {τ : Type} {path : String}

/-- The version that the document at a path shows, whatever its pages look like. -/
def shownVersion (files : FileTree) (path : String) : Option Nat :=
  match files.readText path with
  | .ok text => Document.versionShape.parse? text
  | .error _ => none

/-- How a deployment of a document ends that shows a version: what it commits, whether it ends well
and what it leaves of the files. -/
inductive Step (path : String) (version : Nat) : List Made → Bool → FileTree → Prop
  | idle {well : Bool} {files : FileTree} (shown : shownVersion files path = some version) :
      Step path version [] well files
  | held {m : Made} {files : FileTree} (carries : m.Carries (version + 1))
      (shown : shownVersion files path = some version) : Step path version [m] false files
  | moved {m : Made} {files : FileTree} (carries : m.Carries (version + 1))
      (shown : shownVersion files path = some (version + 1)) : Step path version [m] true files

theorem shownVersion_of_readText {files : FileTree} {text : String} {document : Document}
    (there : files.readText path = .ok text) (parsed : Document.parse? text = some document) :
    shownVersion files path = some document.currentVersion := by
  rw [shownVersion, there]
  exact Document.versionShape_of_parse? parsed

theorem currentVersion_of_load {files : FileTree} {document : Document}
    (h : DocumentFile.load files path = .ok document) :
    shownVersion files path = some document.currentVersion :=
  have ⟨_, there, parsed⟩ := DocumentFile.exists_readText_of_load h
  shownVersion_of_readText there parsed

theorem SaveEnds.step {d : Deployer (World τ)} {document : Document} {options : DeployOptions}
    {project : Except ProjectError (List Candidate)} {w : World (List Made × τ)}
    {out : Worked (List Made × τ)}
    (h : SaveEnds (d.onto d.services.journaled) document options project path true w out)
    (plain : options.message = none) (load : DocumentFile.load w.files path = .ok document)
    (spares : ∀ bytes, d.services.Preserves fun w => w.files.readBytes path = .ok bytes)
    (fits : document.currentVersion + 1 < Word.limit64) :
    ∃ made, out.world.journal = w.journal ++ made ∧
      Step path document.currentVersion made out.result.isOk out.world.files := by
  obtain ⟨text, there, parsed⟩ := DocumentFile.exists_readText_of_load load
  have ends := (d.onto d.services.journaled).execute_ends document options project w
  obtain ⟨made, receipt, log, notes, told⟩ := ends.notes d.services.journaled_journals
  have kept := ends.preserves (spares (Text.utf8 text)).journaled
    (FileTree.readBytes_of_readText there)
  have carries := Made.carries_commitMessage document plain
  have shown {files : FileTree} (read : files.readBytes path = .ok (Text.utf8 text)) :
      shownVersion files path = some document.currentVersion :=
    shownVersion_of_readText (FileTree.readText_of_readBytes read) parsed
  cases h with
  | failed deploy =>
    rw [deploy] at log kept
    cases notes with
    | nothing => exact ⟨[], log, .idle (shown kept)⟩
    | commit plan receipt => exact ⟨_, log, .held (carries _ plan receipt) (shown kept)⟩
  | unsaved deploy idle =>
    rw [deploy] at log told kept
    have unchanged := idle.resolve_right (by decide)
    rw [DeployResult.hasChanges, told _ rfl] at unchanged
    cases notes with
    | nothing => exact ⟨[], log, .idle (shown kept)⟩
    | commit plan receipt => cases unchanged
  | stuck deploy changed asked write =>
    rw [deploy] at log told kept
    rw [DeployResult.hasChanges, told _ rfl] at changed
    cases notes with
    | nothing => cases changed
    | commit plan receipt => exact ⟨_, log, .held (carries _ plan receipt) (shown kept)⟩
  | saved deploy changed asked write =>
    have read := (SaveEnds.saved deploy changed asked write).readText_saved load rfl changed
    rw [deploy] at log told
    rw [DeployResult.hasChanges, told _ rfl] at changed
    cases notes with
    | nothing => cases changed
    | commit plan receipt =>
      refine ⟨_, log, .moved (carries _ plan receipt) ?_⟩
      rw [shownVersion, read]
      exact Document.versionShape_render fits

theorem deployDocument_step {place : Workplace τ} (spares : place.Spares path)
    (seo : Option String) (target : Target) (branch : Option String) (w : World τ) {version : Nat}
    (shown : shownVersion w.files path = some version) (fits : version + 1 < Word.limit64)
    {out : Worked (List Made × τ)}
    (h : DocumentEnds place.journaled ⟨path, seo⟩ (⟨target, branch, false, ·, none⟩) true
      (w.observed []) out) :
    Step path version out.world.journal out.result.isOk out.world.files := by
  cases h with
  | unread read => exact .idle shown
  | unequipped read equip => exact .idle shown
  | deployed read equip ends =>
    have load := load_of_readDocument read
    cases shown.symm.trans (currentVersion_of_load load)
    obtain ⟨d, hd, rfl⟩ := Workplace.exists_of_journaled equip
    obtain ⟨made, log, step⟩ := ends.step rfl load (spares _ _ d hd) fits
    rw [log]
    exact step

end Command

structure DeployCall (τ : Type) where
  surroundings : Surroundings τ
  config : Config
  base : Option String
  seo : Option String
  target : Target
  branch : Option String
  /-- The world in which it is made. -/
  before : World τ

namespace DeployCall

open Command (Step shownVersion)

variable {τ : Type} (path : String) (c : DeployCall τ)

def command : Command := .deploy ⟨path, c.seo⟩ c.target c.branch false none false

def worked : Worked τ := (c.command path).run c.surroundings c.config c.base c.before

def endsWell : Bool := (c.worked path).result.isOk

def observed : Worked (List Made × τ) :=
  Command.deployDocument (Command.workplace c.surroundings c.config c.base).journaled
    ⟨path, c.seo⟩ (⟨c.target, c.branch, false, ·, none⟩) true (c.before.observed [])

def commits : List Made := (c.observed path).world.journal

/-- The document shows the version that another call has left, whatever else has changed. -/
def Follows (c c' : DeployCall τ) : Prop :=
  shownVersion c'.before.files path = shownVersion (c.worked path).world.files path

theorem observed_unobserved : (c.observed path).unobserved = c.worked path :=
  Command.deployDocument_unobserved _ _ _ _ _

variable {path c}

theorem step {version : Nat} (apart : c.config.LocksApart path)
    (shown : shownVersion c.before.files path = some version)
    (fits : version + 1 < Word.limit64) :
    Step path version (c.commits path) (c.endsWell path) (c.worked path).world.files := by
  rw [endsWell, ← observed_unobserved]
  exact Command.deployDocument_step (Command.workplace_spares c.surroundings c.base apart) c.seo
    c.target c.branch c.before shown fits (Command.deployDocument_ends _ _ _ _ _)

/-- Numbers for the commits of calls, one for each, from the version that the document shows at
first. -/
structure Numbers (path : String) (start : Nat) (calls : List (DeployCall τ))
    (numbers : List Nat) : Prop where
  carried : List.Forall₂ Made.Carries (calls.flatMap fun c => c.commits path) numbers
  first : ∀ n ∈ numbers.head?, n = start + 1
  rising : numbers.Pairwise (· ≤ ·)
  strict : numbers.Pairwise (· < ·) ↔
    calls.Pairwise fun c c' => c.commits path ≠ [] → c'.commits path ≠ [] → c.endsWell path

namespace Numbers

variable {start : Nat} {calls : List (DeployCall τ)} {numbers : List Nat} {m : Made}

theorem nil : Numbers path start ([] : List (DeployCall τ)) [] :=
  ⟨.nil, by simp, .nil, by simp⟩

theorem lt_of_mem (h : Numbers path start calls numbers) : ∀ n ∈ numbers, start < n := by
  obtain ⟨-, first, rising, -⟩ := h
  cases numbers with
  | nil => simp
  | cons n numbers =>
    have least := first n rfl
    intro k hk
    rcases List.mem_cons.mp hk with rfl | hk
    · omega
    · have := (List.pairwise_cons.mp rising).1 k hk
      omega

theorem eq_nil_iff (h : Numbers path start calls numbers) :
    numbers = [] ↔ ∀ c ∈ calls, c.commits path = [] := by
  rw [← List.flatMap_eq_nil_iff, ← List.length_eq_zero_iff, ← h.carried.length_eq,
    List.length_eq_zero_iff]

theorem cons_idle (h : Numbers path start calls numbers) (idle : c.commits path = []) :
    Numbers path start (c :: calls) numbers where
  carried := by
    rw [List.flatMap_cons, idle]
    exact h.carried
  first := h.first
  rising := h.rising
  strict := by
    rw [h.strict, List.pairwise_cons]
    simp [idle]

theorem cons_held (h : Numbers path start calls numbers) (made : c.commits path = [m])
    (carries : m.Carries (start + 1)) (failed : c.endsWell path = false) :
    Numbers path start (c :: calls) ((start + 1) :: numbers) where
  carried := by
    rw [List.flatMap_cons, made]
    exact .cons carries h.carried
  first := by simp
  rising := List.pairwise_cons.mpr ⟨h.lt_of_mem, h.rising⟩
  strict := by
    -- The next commit, if there is one, has the same number.
    have alone : (∀ n ∈ numbers, start + 1 < n) ↔ ∀ c ∈ calls, c.commits path = [] := by
      rw [← h.eq_nil_iff]
      constructor
      · intro above
        cases numbers with
        | nil => rfl
        | cons n numbers =>
          have := above n List.mem_cons_self
          have := h.first n rfl
          omega
      · rintro rfl
        simp
    rw [List.pairwise_cons, List.pairwise_cons, alone, h.strict]
    simp [made, failed]

theorem cons_moved (h : Numbers path (start + 1) calls numbers) (made : c.commits path = [m])
    (carries : m.Carries (start + 1)) (well : c.endsWell path = true) :
    Numbers path start (c :: calls) ((start + 1) :: numbers) where
  carried := by
    rw [List.flatMap_cons, made]
    exact .cons carries h.carried
  first := by simp
  rising := List.pairwise_cons.mpr ⟨fun n hn => Nat.le_of_lt (h.lt_of_mem n hn), h.rising⟩
  strict := by
    rw [List.pairwise_cons, List.pairwise_cons, h.strict]
    simpa [well] using fun _ => h.lt_of_mem

end Numbers

theorem exists_numbers {start : Nat} {calls : List (DeployCall τ)}
    (chained : calls.IsChain (Follows path))
    (shown : ∀ c ∈ calls.head?, shownVersion c.before.files path = some start)
    (apart : ∀ c ∈ calls, c.config.LocksApart path)
    (fits : start + calls.length < Word.limit64) :
    (∀ c ∈ calls, ∃ version, shownVersion c.before.files path = some version ∧
      Step path version (c.commits path) (c.endsWell path) (c.worked path).world.files) ∧
    ∃ numbers, Numbers path start calls numbers := by
  induction calls generalizing start with
  | nil => exact ⟨by simp, [], .nil⟩
  | cons c calls ih =>
    rw [List.forall_mem_cons] at apart
    rw [List.length_cons] at fits
    obtain ⟨follows, chained⟩ := List.isChain_cons.mp chained
    have now := shown c rfl
    have further (next : Nat) (near : next ≤ start + 1)
        (left : shownVersion (c.worked path).world.files path = some next) :=
      ih chained (fun c' hc' => (follows c' hc').trans left) apart.2 (by omega)
    have step := step apart.1 now (by omega)
    have stepped : ∃ version, shownVersion c.before.files path = some version ∧
        Step path version (c.commits path) (c.endsWell path) (c.worked path).world.files :=
      ⟨start, now, step⟩
    generalize hm : c.commits path = made, hw : c.endsWell path = well,
      hf : (c.worked path).world.files = files at step
    cases step with
    | idle left =>
      obtain ⟨rest, numbers, h⟩ := further start (by omega) (hf ▸ left)
      exact ⟨List.forall_mem_cons.mpr ⟨stepped, rest⟩, _, h.cons_idle hm⟩
    | held carries left =>
      obtain ⟨rest, numbers, h⟩ := further start (by omega) (hf ▸ left)
      exact ⟨List.forall_mem_cons.mpr ⟨stepped, rest⟩, _, h.cons_held hm carries hw⟩
    | moved carries left =>
      obtain ⟨rest, numbers, h⟩ := further (start + 1) (by omega) (hf ▸ left)
      exact ⟨List.forall_mem_cons.mpr ⟨stepped, rest⟩, _, h.cons_moved hm carries hw⟩

/-- Each call commits at most once, under the version that comes next, and the document moves on to
that version just when the call ends well. So the numbers of the commits never fall, and no two are
the same just when every call that commits before another one that does ends well. -/
theorem commits_numbered (path : String) (calls : List (DeployCall τ)) (start : Nat)
    (chained : calls.IsChain (Follows path))
    (shown : ∀ c ∈ calls.head?, shownVersion c.before.files path = some start)
    (apart : ∀ c ∈ calls, c.config.LocksApart path)
    (fits : start + calls.length < Word.limit64) :
    (∀ c ∈ calls, ∃ version, shownVersion c.before.files path = some version ∧
      Step path version (c.commits path) (c.endsWell path) (c.worked path).world.files) ∧
    ∃ numbers, Numbers path start calls numbers ∧
      ∀ others, List.Forall₂ Made.Carries (calls.flatMap fun c => c.commits path) others →
        others = numbers := by
  obtain ⟨steps, numbers, h⟩ := exists_numbers chained shown apart fits
  exact ⟨steps, numbers, h, fun others carried => Made.Carries.unique.forall₂ carried h.carried⟩

end DeployCall

namespace Bakery

open Command (shownVersion)

def config : Config :=
  { Config.standard with
    sourceControl :=
      { Config.standard.sourceControl with owner := some "acme", repo := some "bakery" }
    hosting := { Config.standard.hosting with project := some "bakery" } }

/-- A deployment by a service that commits and a host that is not understood. -/
def attempt (target : Target) : DeployCall Unit :=
  ⟨⟨[("GITHUB_TOKEN", "g"), ("VERCEL_TOKEN", "v")], agreeable⟩, config, none, none, target, none,
    withSite themedSite⟩

def report (target : Target) : List String × Bool × Option Nat :=
  let out := (attempt target).observed "site.json"
  (out.world.journal.map Made.message, out.result.isOk, shownVersion out.world.files "site.json")

theorem shown_before_attempt (target : Target) :
    shownVersion (attempt target).before.files "site.json" = some 0 :=
  Command.currentVersion_of_load themedSite_loads

def committing : GitHub := .connect config.sourceControl.apiUrl "g" settings.repo

def publishing : Vercel := .connect config.hosting.apiUrl "v" none

def attempting : Deployer (World Unit) :=
  ⟨pipeline, settings,
    World.withRemote (World.withHost (World.offline none) publishing agreeable) committing
      agreeable⟩

def attempted (target : Target) : DeployOptions := ⟨target, none, false, [], none⟩

def changes (target : Target) : CommitPlan :=
  attempting.planFor (.ofBatch target bareBatch) (some ⟨"c0", []⟩)

def noted (target : Target) : List Made :=
  [⟨settings.resolveBranch target none,
    Deployer.commitMessage blank (attempted target) (changes target),
    ⟨"c0", committing.commitPage "c0"⟩⟩]

theorem front_committing : Http.Url.Front.read? committing.root.toList = some front := by
  have same : committing.root = github.root := by decide
  rw [same, front_github]

theorem token_committing : Http.isHeaderText committing.token = true := by decide

theorem deployer_attempt (target : Target) (files : FileTree) :
    (Command.workplace (attempt target).surroundings config none).deployer files .all =
      .ok attempting := by
  have rules : config.pipeline files none = .ok pipeline := rfl
  have tokens : config.credentials (attempt target).surroundings.environment .all =
      .ok ⟨some "g", some "v"⟩ := rfl
  have told : config.deploySettings .all = .ok settings := rfl
  dsimp only [Command.workplace]
  rw [Config.deployer, rules, tokens, told]
  rfl

theorem snapshot_committing (target : Target) (s : Unit) :
    committing.snapshot agreeable (settings.resolveBranch target none) s =
      (.ok (some ⟨"c0", []⟩), s) := by
  have result : (committing.snapshot agreeable (settings.resolveBranch target none) ()).1 =
      .ok (some ⟨"c0", []⟩) := by
    unfold GitHub.snapshot GitHub.head GitHub.treeOf
    simp only [send_agreeable front_committing token_committing]
    cases target <;> decide
  exact Prod.ext result (Subsingleton.elim _ _)

theorem write_committing (target : Target) (s : Unit) :
    committing.write agreeable (settings.resolveBranch target none) (some "c0")
        (changes target).writes (Deployer.commitMessage blank (attempted target) (changes target))
        s =
      (.ok ⟨"c0", committing.commitPage "c0"⟩, s) := by
  have result : (committing.write agreeable (settings.resolveBranch target none) (some "c0")
      (changes target).writes
      (Deployer.commitMessage blank (attempted target) (changes target)) ()).1 =
      .ok ⟨"c0", committing.commitPage "c0"⟩ := by
    rw [GitHub.write, GitHub.baseTree]
    dsimp only
    rw [GitHub.treeOf, send_agreeable front_committing token_committing]
    simp only [GitHub.createTree, GitHub.createCommit, GitHub.setBranch,
      send_agreeable front_committing token_committing]
    cases target <;> decide +kernel
  exact Prod.ext result (Subsingleton.elim _ _)

theorem exists_refusal (target : Target) : ∃ e, ∀ s, publishing.deploy agreeable
    ⟨"bakery", settings.repo, settings.resolveBranch target none, some "c0", target⟩ s =
      (.error e, s) := by
  have refused : (publishing.deploy agreeable
      ⟨"bakery", settings.repo, settings.resolveBranch target none, some "c0", target⟩ ()).1.isOk =
      false := by
    cases target <;> decide +kernel
  cases answer : (publishing.deploy agreeable
      ⟨"bakery", settings.repo, settings.resolveBranch target none, some "c0", target⟩ ()).1 with
  | error e => exact ⟨e, fun s => Prod.ext answer (Subsingleton.elim _ _)⟩
  | ok deployment => simp [answer, Except.isOk, Except.toBool] at refused

theorem shipped_attempt (target : Target) (w : World (List Made × Unit)) :
    let d := attempting.onto attempting.services.journaled
    let out := d.shipLocked blank (attempted target) (settings.resolveBranch target none)
      (.ofBatch target bareBatch) w
    (∃ f, out.1 = .error f) ∧ out.2.2.journal = w.journal ++ noted target ∧
      out.2.2.files = w.files := by
  intro d out
  obtain ⟨e, refused⟩ := exists_refusal target
  have outside : d.services = (World.withRemote
    (World.withHost (World.offline none) publishing agreeable) committing agreeable).journaled := rfl
  have changed : (d.planFor (.ofBatch target bareBatch) (some ⟨"c0", []⟩)).isNoop = false := by
    cases target <;> decide +kernel
  have ends := d.shipLocked_ends blank (attempted target) (settings.resolveBranch target none)
    (.ofBatch target bareBatch) w
  obtain ⟨failed, left⟩ := ends.unpublished
    (by rw [outside, World.lock_journaled])
    (by rw [outside, World.snapshot_journaled (snapshot_committing target _)]) changed
    (by
      rw [outside]
      exact World.write_journaled (write_committing target _)) rfl
    (by
      rw [outside]
      exact World.publish_journaled (refused _))
  refine ⟨⟨_, failed⟩, ?_⟩
  rw [left, outside]
  exact ⟨rfl, rfl⟩

theorem executed_attempt (target : Target) (w : World (List Made × Unit)) :
    let out := (attempting.onto attempting.services.journaled).execute blank (attempted target)
      (.ok []) w
    (∃ e, out.result = .error e) ∧ out.state.journal = w.journal ++ noted target ∧
      out.state.files = w.files := by
  have rehearsed : (attempting.onto attempting.services.journaled).rehearsal blank
      (attempted target) (.ok []) = .ok (.ofBatch target bareBatch) :=
    rehearsal_blank rfl rfl (by cases target <;> decide) batch_bare (by rfl)
  obtain ⟨state, result⟩ := Deployer.execute_of_rehearsal_real (s := w) rehearsed rfl
  rw [show (attempting.onto attempting.services.journaled).branchFor (attempted target) =
    settings.resolveBranch target none from rfl] at state result
  obtain ⟨⟨f, failed⟩, made, files⟩ := shipped_attempt target w
  rw [failed] at result
  exact ⟨⟨_, result⟩, state ▸ made, state ▸ files⟩

theorem report_eq (target : Target) :
    report target =
      ([Deployer.commitMessage blank (attempted target) (changes target)], false, some 0) := by
  have same : ((withSite themedSite).observed []).files = (withSite themedSite).files := rfl
  have read : Command.readDocument ((withSite themedSite).observed []).files
      ⟨"site.json", none⟩ = .ok (blank, []) := by
    rw [Command.readDocument, same, themedSite_loads]
    rfl
  have equip : (Command.workplace (attempt target).surroundings config none).journaled.deployer
      ((withSite themedSite).observed []).files .all =
      .ok (attempting.onto attempting.services.journaled) := by
    dsimp only [Command.Workplace.journaled]
    rw [deployer_attempt]
    rfl
  have ends : Command.DocumentEnds
      (Command.workplace (attempt target).surroundings config none).journaled ⟨"site.json", none⟩
      (⟨target, none, false, ·, none⟩) true ((withSite themedSite).observed [])
      ((attempt target).observed "site.json") :=
    Command.deployDocument_ends _ _ _ _ _
  obtain ⟨⟨e, failed⟩, made, files⟩ := executed_attempt target ((withSite themedSite).observed [])
  rw [report]
  generalize (attempt target).observed "site.json" = out at ends ⊢
  obtain ⟨well, left⟩ := ends.of_failed read equip failed
  have journal : out.world.journal = noted target := (congrArg World.journal left).trans made
  have kept : out.world.files = (withSite themedSite).files :=
    (congrArg World.files left).trans files
  rw [well, journal, kept, show shownVersion (withSite themedSite).files "site.json" = some 0 from
    shown_before_attempt target]
  rfl

theorem report_preview : report .preview = (["Deploy v1 to preview (1 files)"], false, some 0) := by
  have message : Deployer.commitMessage blank (attempted .preview) (changes .preview) =
      "Deploy v1 to preview (1 files)" := by decide +kernel
  rw [report_eq, message]

theorem report_production :
    report .production = (["Deploy v1 to production (1 files)"], false, some 0) := by
  have message : Deployer.commitMessage blank (attempted .production) (changes .production) =
      "Deploy v1 to production (1 files)" := by decide +kernel
  rw [report_eq, message]

theorem commits_attempt {target : Target} {messages : List String} {version : Option Nat}
    (h : report target = (messages, false, version)) :
    ((attempt target).commits "site.json").map Made.message = messages ∧
      (attempt target).endsWell "site.json" = false ∧
      shownVersion ((attempt target).worked "site.json").world.files "site.json" = version := by
  rw [DeployCall.endsWell, ← DeployCall.observed_unobserved]
  exact ⟨congrArg Prod.fst h, congrArg (fun r => r.2.1) h, congrArg (fun r => r.2.2) h⟩

theorem attempt_apart (target : Target) : (attempt target).config.LocksApart "site.json" :=
  Or.inl rfl

theorem production_follows_preview :
    DeployCall.Follows "site.json" (attempt .preview) (attempt .production) :=
  (shown_before_attempt .production).trans (commits_attempt report_preview).2.2.symm

theorem attempts_numbered_alike :
    ∃ numbers, DeployCall.Numbers "site.json" 0 [attempt .preview, attempt .production] numbers ∧
      ¬ numbers.Pairwise (· < ·) := by
  obtain ⟨made, failed, -⟩ := commits_attempt report_preview
  obtain ⟨made', -, -⟩ := commits_attempt report_production
  obtain ⟨-, numbers, h, -⟩ := DeployCall.commits_numbered "site.json"
    [attempt .preview, attempt .production] 0 (by simpa using production_follows_preview)
    (by simpa using shown_before_attempt .preview) (by simp [attempt_apart]) (by decide)
  refine ⟨numbers, h, fun strict => ?_⟩
  have well := (List.pairwise_cons.mp (h.strict.mp strict)).1 (attempt .production) (by simp)
    (by rintro none; simp [none] at made) (by rintro none; simp [none] at made')
  rw [failed] at well
  cases well

/-- Two commits of one version; the first of them does not move the document on. -/
theorem version_used_twice :
    DeployCall.Follows "site.json" (attempt .preview) (attempt .production) ∧
      shownVersion (attempt .preview).before.files "site.json" = some 0 ∧
      ((attempt .preview).commits "site.json").map Made.message =
        ["Deploy v1 to preview (1 files)"] ∧
      shownVersion ((attempt .preview).worked "site.json").world.files "site.json" = some 0 ∧
      ((attempt .production).commits "site.json").map Made.message =
        ["Deploy v1 to production (1 files)"] :=
  ⟨production_follows_preview, shown_before_attempt .preview, (commits_attempt report_preview).1,
    (commits_attempt report_preview).2.2, (commits_attempt report_production).1⟩

end Bakery

end SitePublish
