import Mathlib.Data.List.Induction
import SitePublish.Page.Layout
import SitePublish.Proofs.Json.Rereading
import SitePublish.Proofs.Remote.Plan
import SitePublish.Proofs.Remote.Reference
import SitePublish.Proofs.Site.Path

/-!
# What a snapshot says of a branch

A snapshot gives every blob of a listing the path that the program makes of its name. Names that are
written as paths are those paths; a repository may have others, with a backslash or with blank
characters around them, and these become paths that the branch may have as well, or not at all. Of
all names that become a path the last one decides, so a snapshot is right about the branch exactly
when the last name is the path, or says of it what the path itself says.
-/

set_option autoImplicit false

namespace SitePublish

namespace GitHub

open Http (Exchange)

variable {σ : Type} {items : List TreeItem} {i : TreeItem} {p : SitePath} {b : BlobId}

def TreeItem.Becomes (i : TreeItem) (p : SitePath) : Prop :=
  i.kind = "blob" ∧ SitePath.ofText i.path = .ok p

instance (i : TreeItem) (p : SitePath) : Decidable (i.Becomes p) :=
  inferInstanceAs (Decidable (_ ∧ _))

/-- The blob is listed under the path as it stands. -/
def Lists (items : List TreeItem) (p : SitePath) (b : BlobId) : Prop :=
  ∃ i ∈ items, i.kind = "blob" ∧ i.path = p.text ∧ BlobId.ofText i.sha = b

instance (items : List TreeItem) (p : SitePath) (b : BlobId) : Decidable (Lists items p b) :=
  inferInstanceAs (Decidable (∃ i ∈ items, _))

def deciding? (items : List TreeItem) (p : SitePath) : Option TreeItem :=
  items.reverse.find? fun i => i.Becomes p

theorem deciding?_concat (items : List TreeItem) (i : TreeItem) (p : SitePath) :
    deciding? (items ++ [i]) p = if i.Becomes p then some i else deciding? items p := by
  rw [deciding?, List.reverse_concat, List.find?_cons]
  by_cases h : i.Becomes p <;> simp [h, deciding?]

theorem mem_of_deciding? (h : deciding? items p = some i) : i ∈ items ∧ i.Becomes p :=
  ⟨List.mem_reverse.mp (List.mem_of_find?_eq_some h), by simpa using List.find?_some h⟩

theorem get?_blobsOf_concat (items : List TreeItem) (i : TreeItem) (p : SitePath) :
    (blobsOf (items ++ [i])).get? p =
      if i.Becomes p then some (BlobId.ofText i.sha) else (blobsOf items).get? p := by
  rw [blobsOf, List.foldl_concat, ← blobsOf]
  by_cases kind : i.kind = "blob"
  · rw [if_pos kind]
    split
    · next q taken =>
      rw [Dict.get?_insert]
      simp [TreeItem.Becomes, kind, taken, eq_comm]
    · next refused => simp [TreeItem.Becomes, refused]
  · simp [TreeItem.Becomes, kind]

theorem get?_blobsOf (items : List TreeItem) (p : SitePath) :
    (blobsOf items).get? p = (deciding? items p).map fun i => BlobId.ofText i.sha := by
  induction items using List.reverseRecOn with
  | nil => rfl
  | append_singleton items i ih =>
    rw [get?_blobsOf_concat, deciding?_concat, ih]
    split <;> rfl

/-- What decides on a path is written as the path, or says what the path itself says. -/
def Faithful (items : List TreeItem) : Prop :=
  ∀ p i, deciding? items p = some i →
    SitePath.Written i.path ∨ Lists items p (BlobId.ofText i.sha)

theorem lists_of_written (h : deciding? items p = some i) (written : SitePath.Written i.path) :
    Lists items p (BlobId.ofText i.sha) := by
  obtain ⟨mem, kind, taken⟩ := mem_of_deciding? h
  exact ⟨i, mem, kind, ((SitePath.text_eq_iff taken).mpr written).symm, rfl⟩

/-- The names of a listing need not be looked at together if each is written as a path. -/
theorem faithful_of_written
    (h : ∀ i ∈ items, i.kind = "blob" → (SitePath.ofText i.path).isOk → SitePath.Written i.path) :
    Faithful items := by
  intro p i decides
  obtain ⟨mem, kind, taken⟩ := mem_of_deciding? decides
  exact Or.inl (h i mem kind (by rw [taken]; rfl))

theorem Faithful.lists (h : Faithful items) (said : (blobsOf items).get? p = some b) :
    Lists items p b := by
  rw [get?_blobsOf] at said
  obtain ⟨i, decides, rfl⟩ := Option.map_eq_some_iff.mp said
  exact (h p i decides).elim (lists_of_written decides) id

theorem faithful_iff :
    Faithful items ↔ ∀ p b, (blobsOf items).get? p = some b → Lists items p b := by
  refine ⟨fun h p b => h.lists, fun h p i decides => Or.inr (h p _ ?_)⟩
  rw [get?_blobsOf, decides]
  rfl

/-- Every path that a name becomes is there, whatever its blob. -/
def Inhabited (items : List TreeItem) : Prop :=
  ∀ p i, deciding? items p = some i → ∃ b, Lists items p b

theorem Faithful.inhabited (h : Faithful items) : Inhabited items :=
  fun p i decides => (h p i decides).elim (fun written => ⟨_, lists_of_written decides written⟩)
    fun lists => ⟨_, lists⟩

section Plan

variable {files : List Candidate} {owned : SitePath → Bool} {snap : Snapshot} {f : PlannedFile}

theorem skip_iff (mem : f ∈ (CommitPlan.ofSnapshot files (some snap) owned).files) :
    f.action = .skip ↔ snap.blobs.get? f.path = some f.blob := by
  obtain ⟨c, -, rfl⟩ := List.mem_map.mp mem
  change FileAction.ofBlobs c.blob (snap.blobs.get? c.path) = .skip ↔
    snap.blobs.get? c.path = some c.blob
  rcases FileAction.ofBlobs_cases c.blob (snap.blobs.get? c.path) with ⟨same, action⟩ | ⟨ne, other⟩
  · exact ⟨fun _ => same, fun _ => action⟩
  · refine ⟨fun skipped => ?_, fun same => absurd same ne⟩
    rcases other with action | action <;> cases action.symm.trans skipped

/-- Deletions are right exactly when every path that a name becomes is there. -/
theorem inhabited_iff (h : snap.blobs = blobsOf items) :
    Inhabited items ↔ ∀ files owned,
      ∀ p ∈ (CommitPlan.ofSnapshot files (some snap) owned).deletions, ∃ b, Lists items p b := by
  have keys (p : SitePath) : p ∈ snap.blobs.keys ↔ ∃ i, deciding? items p = some i := by
    rw [Dict.mem_keys_iff, h, get?_blobsOf]
    simp
  constructor
  · intro inhabited files owned p mem
    obtain ⟨i, decides⟩ := (keys p).mp (CommitPlan.mem_deletions.mp mem).1
    exact inhabited p i decides
  · intro right p i decides
    refine right [] (fun _ => true) p (CommitPlan.mem_deletions.mpr ⟨?_, by simp, rfl⟩)
    exact (keys p).mpr ⟨i, decides⟩

end Plan

section Snapshot

variable {g : GitHub} {exchange : Exchange σ}

theorem send_eq_ok {α : Type} {what : String} {shape : Json.Shape α} {method : Http.Method}
    {resource : String} {fields : List (String × String)} {body : Option Json} {s t : σ} {a : α}
    (h : g.send exchange what shape method resource fields body s = (.ok a, t)) :
    ∃ q r, g.request? method resource fields body = some q ∧ exchange q s = (some r, t) ∧
      r.isSuccess = true ∧ shape.parse? r.body = some a := by
  unfold send at h
  split at h
  · cases h
  · next q made =>
    split at h
    · cases h
    · next r u answered =>
      obtain ⟨decoded, rfl⟩ := Prod.mk.inj h
      refine ⟨q, r, made, answered, ?_⟩
      unfold decode at decoded
      split at decoded
      · next success =>
        split at decoded
        · next read =>
          cases decoded
          exact ⟨success, read⟩
        · cases decoded
      · cases decoded

theorem bind_eq_ok {α β : Type} {x : Call σ α} {f : α → Call σ β} {s t : σ} {b : β}
    (h : (x >>= f) s = (.ok b, t)) : ∃ a u, x s = (.ok a, u) ∧ f a u = (.ok b, t) := by
  rw [bind_run] at h
  split at h
  · next a u first => exact ⟨a, u, first, h⟩
  · cases h

/-- The snapshot was made of the listing: it came in answer to the request for the tree of the head
of the branch. -/
def MadeOf (g : GitHub) (exchange : Exchange σ) (branch : String) (s t : σ) (snap : Snapshot)
    (items : List TreeItem) : Prop :=
  ∃ s₁ s₂ root q r, g.head exchange branch s = (.ok (some snap.head), s₁) ∧
    g.treeOf exchange snap.head s₁ = (.ok root, s₂) ∧
    g.request? .get ("git/trees/" ++ root) [("recursive", "1")] none = some q ∧
    exchange q s₂ = (some r, t) ∧ treeShape.parse? r.body = some items

theorem exists_madeOf {branch : String} {s t : σ} {snap : Snapshot}
    (h : g.snapshot exchange branch s = (.ok (some snap), t)) :
    ∃ items, g.MadeOf exchange branch s t snap items ∧ snap.blobs = blobsOf items := by
  obtain ⟨found, s₁, head, h⟩ := bind_eq_ok h
  cases found with
  | none => cases h
  | some commit =>
    obtain ⟨root, s₂, rooted, h⟩ := bind_eq_ok h
    obtain ⟨items, s₃, listed, h⟩ := bind_eq_ok h
    obtain ⟨q, r, made, answered, -, read⟩ := send_eq_ok listed
    cases h
    exact ⟨items, ⟨s₁, s₂, root, q, r, head, rooted, made, answered, read⟩, rfl⟩

/-- A snapshot has the blob of the last name that becomes a path. It says only what the listing says
that it was made of exactly when the listing is faithful, as it is when every name in it is written
as a path; then no plan made from the snapshot skips a file that is not on the branch as it is.
Otherwise there is a path at which every plan skips a file that is not. A plan deletes only paths of
the branch exactly when each path that a name becomes is there. -/
theorem snapshot_faithful_iff {branch : String} {s t : σ} {snap : Snapshot}
    (ok : g.snapshot exchange branch s = (.ok (some snap), t)) :
    ∃ items, g.MadeOf exchange branch s t snap items ∧
      (∀ p, snap.blobs.get? p = (deciding? items p).map fun i => BlobId.ofText i.sha) ∧
      ((∀ i ∈ items, i.kind = "blob" → (SitePath.ofText i.path).isOk →
        SitePath.Written i.path) → Faithful items) ∧
      (Faithful items ↔ ∀ p b, snap.blobs.get? p = some b → Lists items p b) ∧
      (Faithful items → ∀ files owned,
        ∀ f ∈ (CommitPlan.ofSnapshot files (some snap) owned).files,
          f.action = .skip → Lists items f.path f.blob) ∧
      (¬Faithful items → ∃ p b, ¬Lists items p b ∧ ∀ files owned,
        ∀ f ∈ (CommitPlan.ofSnapshot files (some snap) owned).files,
          f.path = p → f.blob = b → f.action = .skip) ∧
      (Inhabited items ↔ ∀ files owned,
        ∀ p ∈ (CommitPlan.ofSnapshot files (some snap) owned).deletions, ∃ b, Lists items p b) := by
  obtain ⟨items, made, blobs⟩ := exists_madeOf ok
  refine ⟨items, made, ?_, faithful_of_written, ?_, ?_, ?_, inhabited_iff blobs⟩
  · rw [blobs]
    exact get?_blobsOf items
  · rw [blobs]
    exact faithful_iff
  · intro faithful files owned f mem skipped
    exact faithful.lists (blobs ▸ (skip_iff mem).mp skipped)
  · intro unfaithful
    simp only [faithful_iff, not_forall] at unfaithful
    obtain ⟨p, b, said, unlisted⟩ := unfaithful
    refine ⟨p, b, unlisted, fun files owned f mem path blob => (skip_iff mem).mpr ?_⟩
    rw [blobs, path, blob, said]

end Snapshot

def replies : Exchange (List String) := fun _ texts =>
  match texts with
  | [] => (none, [])
  | text :: rest => (some ⟨200, text⟩, rest)

def acme : GitHub := .connect "https://api.github.com" "token" ⟨"acme", "site"⟩

def branchTexts (listing : Json) : List String :=
  ["\x7b\"object\":\x7b\"sha\":\"c0\"\x7d\x7d", "\x7b\"tree\":\x7b\"sha\":\"t0\"\x7d\x7d",
    listing.pretty]

def blobsJson (names : List (String × String)) : Json :=
  .obj [("tree", .arr (names.map fun (path, sha) =>
    .obj [("path", .str path), ("type", .str "blob"), ("sha", .str sha)]))]

theorem snapshot_replies {listing : Json} (read : treeShape.parse? listing.pretty = some items) :
    acme.snapshot replies "main" (branchTexts listing) =
      (.ok (some ⟨"c0", blobsOf items⟩), []) := by
  have head : acme.head replies "main" (branchTexts listing) =
      (.ok (some "c0"), (branchTexts listing).tail) := by rfl
  have root : acme.treeOf replies "c0" (branchTexts listing).tail =
      (.ok "t0", [listing.pretty]) := by rfl
  have listed : acme.send replies "tree" treeShape .get "git/trees/t0" [("recursive", "1")] none
      [listing.pretty] = (acme.decode "tree" treeShape ⟨200, listing.pretty⟩, []) := by rfl
  rw [snapshot, bind_run, head]
  dsimp only
  rw [bind_run, root]
  dsimp only
  rw [bind_run, show "git/trees/" ++ "t0" = "git/trees/t0" by rfl, listed, decode, read]
  rfl

def plainItems : List TreeItem := [⟨"src/a.ts", "blob", "AA"⟩]

def plainListing : Json := blobsJson [("src/a.ts", "AA")]

theorem plainListing_faithful :
    acme.snapshot replies "main" (branchTexts plainListing) =
        (.ok (some ⟨"c0", blobsOf plainItems⟩), []) ∧
      ∀ p b, (blobsOf plainItems).get? p = some b → Lists plainItems p b := by
  have parsed : treeShape.parse? plainListing.pretty = some plainItems := by
    rw [Json.Shape.parse?_pretty]
    decide
  have ok := snapshot_replies parsed
  obtain ⟨items, ⟨s₁, s₂, root, q, r, head, rooted, -, answered, read⟩, -, plain, faithful, -⟩ :=
    snapshot_faithful_iff ok
  -- Each request was answered by the next text, so the listing is the one above.
  cases congrArg Prod.snd head
  obtain ⟨q₂, r₂, -, told, -, -⟩ := send_eq_ok rooted
  cases told
  cases answered
  cases parsed.symm.trans read
  exact ⟨ok, faithful.mp (plain (by decide))⟩

def pathOfA : SitePath :=
  { text := "src/a.ts"
    normal := ⟨["src".toList, "a.ts".toList], by simp, by simp [SitePath.IsSegment], rfl⟩ }

def oldPage : SitePath :=
  { text := "src/data/pages/old.ts"
    normal := ⟨["src".toList, "data".toList, "pages".toList, "old.ts".toList], by simp,
      by simp [SitePath.IsSegment], rfl⟩ }

def foreignItems : List TreeItem :=
  [⟨"src/a.ts", "blob", "aa"⟩,
   ⟨"src\\a.ts", "blob", "c1b0730e0133447badcfd47fd144e254807b06e1"⟩,
   ⟨"src\\data\\pages\\old.ts", "blob", "ab"⟩]

def foreignListing : Json :=
  blobsJson [("src/a.ts", "aa"), ("src\\a.ts", "c1b0730e0133447badcfd47fd144e254807b06e1"),
    ("src\\data\\pages\\old.ts", "ab")]

/-- All names differ, and yet a file is skipped whose path has other content, and a path is deleted
that is not there. -/
theorem foreign_names_misread :
    let snap : Snapshot := ⟨"c0", blobsOf foreignItems⟩
    let file : Candidate := ⟨pathOfA, .text "x", .project⟩
    let plan := CommitPlan.ofSnapshot [file] (some snap) Layout.standard.owns
    treeShape.parse? foreignListing.pretty = some foreignItems ∧
      (foreignItems.map TreeItem.path).Nodup ∧
      acme.snapshot replies "main" (branchTexts foreignListing) = (.ok (some snap), []) ∧
      Lists foreignItems pathOfA (.ofText "aa") ∧ ¬Lists foreignItems pathOfA file.blob ∧
      plan.action? pathOfA = some .skip ∧
      plan.deletions = [oldPage] ∧ ∀ i ∈ foreignItems, i.path ≠ oldPage.text := by
  intro snap file plan
  have parsed : treeShape.parse? foreignListing.pretty = some foreignItems := by
    rw [Json.Shape.parse?_pretty]
    decide
  exact ⟨parsed, by decide, snapshot_replies parsed, by decide +kernel⟩

end GitHub

end SitePublish
