import SitePublish.Proofs.Json.Reader
import SitePublish.Proofs.Remote.Transcript

/-!
# Commits are all or nothing

A write makes its requests in a fixed order: for the tree of the expected head, for a blob of each
binary file, for a tree with an entry of each file, for a commit, and last for the reference of the
branch. It ends at the first one that fails. So the reference is asked for once at most, when all
else is there; nothing before it can move the branch, and a commit is only reported that the
reference was told to name.
-/

set_option autoImplicit false

namespace SitePublish

namespace GitHub

open Http (Exchange Request Response Transcript)
open Json.Shape (HasField)

/-- What the service says in the course of a write. -/
structure Told where
  /-- The tree of the expected head. -/
  base : String
  /-- The files, each with a blob; that of a binary file was made for it. -/
  files : List (FileWrite × String)
  tree : String
  commit : String
  page : Option String
  reference : Json

section Answers

def NamesObject (sha : String) (t : Json.Tree) : Prop := HasField "sha" 0 t (.str (some sha))

def NamesTree (tree : String) (t : Json.Tree) : Prop :=
  ∃ u, HasField "tree" 0 t u ∧ NamesObject tree u

structure NamesCommit (made : String × Option String) (t : Json.Tree) : Prop where
  commit : NamesObject made.1 t
  page : ∀ page, made.2 = some page ↔ HasField "html_url" 1 t (.str (some page))

theorem string_eq_some_iff {budget : Nat} {t : Json.Tree} {text : String} :
    Json.Shape.string budget t = some text ↔ t = .str (some text) := by
  cases t <;> simp [Json.Shape.string]

theorem optional_eq_some_iff {budget : Nat} {u : Json.Tree} {found : Option String} {text : String}
    (h : Json.Shape.optional Json.Shape.string budget u = some found) :
    found = some text ↔ u = .str (some text) := by
  cases u with
  | null =>
    cases h
    simp
  | str read =>
    obtain ⟨text', same, rfl⟩ := Option.map_eq_some_iff.mp h
    rw [show read = some text' from same]
    simp
  | _ => cases h

theorem understands_shaShape : Understands shaShape NamesObject := by
  intro budget t sha h
  obtain ⟨budget, trees, rfl, found, built⟩ := Json.Shape.exists_of_record h
  split at built
  · next tree =>
    refine (Json.Shape.hasField_iff_of_fieldTrees found rfl rfl).mpr ?_
    cases tree with
    | none => cases built
    | some u => rw [string_eq_some_iff.mp built]
  · cases built

theorem understands_commitShape : Understands commitShape NamesTree := by
  intro budget t tree h
  obtain ⟨budget, trees, rfl, found, built⟩ := Json.Shape.exists_of_record h
  split at built
  · next inner =>
    cases inner with
    | none => cases built
    | some u =>
      exact ⟨u, (Json.Shape.hasField_iff_of_fieldTrees found rfl rfl).mpr rfl,
        understands_shaShape built⟩
  · cases built

theorem understands_createdShape : Understands createdShape NamesCommit := by
  intro budget t made h
  obtain ⟨budget, trees, rfl, found, built⟩ := Json.Shape.exists_of_record h
  split at built
  · next shaTree pageTree =>
    obtain ⟨sha, hsha, built⟩ := Option.bind_eq_some_iff.mp built
    obtain ⟨page, hpage, built⟩ := Option.bind_eq_some_iff.mp built
    cases built
    constructor
    · refine (Json.Shape.hasField_iff_of_fieldTrees found rfl rfl).mpr ?_
      cases shaTree with
      | none => cases hsha
      | some u => rw [string_eq_some_iff.mp hsha]
    · intro text
      rw [Json.Shape.hasField_iff_of_fieldTrees found rfl rfl]
      cases pageTree with
      | none =>
        cases hpage
        simp
      | some u =>
        rw [optional_eq_some_iff hpage, Option.some_inj]
  · cases built

end Answers

section Script

def headStep (head tree : String) : Step :=
  ⟨commitShape, tree, NamesTree tree, "commit " ++ head, .get, "git/commits/" ++ head, none, id⟩

def blobSteps (w : FileWrite) (blob : String) : List Step :=
  match w.change with
  | .put (.binary bytes) =>
    [⟨shaShape, blob, NamesObject blob, "blob", .post, "git/blobs", some (.obj
      [("content", .str (Base64.encode bytes)), ("encoding", .str "base64")]), id⟩]
  | .put (.text _) | .delete => []

/-- A text stands in its entry, a binary file is named by its blob, and a null takes a path out. -/
def entryOf (w : FileWrite) (blob : String) : Json :=
  match w.change with
  | .put (.text text) =>
    .obj [("content", .str text), ("mode", .str "100644"), ("path", .str w.path.text),
      ("type", .str "blob")]
  | .put (.binary _) =>
    .obj [("mode", .str "100644"), ("path", .str w.path.text), ("sha", .str blob),
      ("type", .str "blob")]
  | .delete =>
    .obj [("mode", .str "100644"), ("path", .str w.path.text), ("sha", .null),
      ("type", .str "blob")]

def treeStep (base : Option String) (entries : List Json) (tree : String) : Step :=
  ⟨shaShape, tree, NamesObject tree, "tree", .post, "git/trees", some (.obj
    ((base.map fun b => ("base_tree", Json.str b)).toList ++ [("tree", .arr entries)])), id⟩

def commitStep (message tree : String) (parents : List String)
    (made : String × Option String) : Step :=
  ⟨createdShape, made, NamesCommit made, "commit", .post, "git/commits", some (.obj
    [("message", .str message), ("parents", .arr (parents.map .str)), ("tree", .str tree)]), id⟩

/-- A branch that is expected to be there is moved without force, and another one is made. -/
def refStep (branch : String) (expected : Option String) (commit : String) (said : Json) : Step :=
  match expected with
  | some _ =>
    ⟨Json.Shape.value, said, fun _ => True, "ref", .patch, "git/refs/heads/" ++ branch,
      some (.obj [("force", .bool false), ("sha", .str commit)]), asMoved branch expected⟩
  | none =>
    ⟨Json.Shape.value, said, fun _ => True, "ref", .post, "git/refs", some (.obj
      [("ref", .str ("refs/heads/" ++ branch)), ("sha", .str commit)]), asMoved branch expected⟩

def Told.preparation (told : Told) (expected : Option String) (message : String) : List Step :=
  (expected.map fun head => headStep head told.base).toList ++
    (told.files.flatMap fun f => blobSteps f.1 f.2) ++
    [treeStep (expected.map fun _ => told.base) (told.files.map fun f => entryOf f.1 f.2) told.tree,
      commitStep message told.tree expected.toList (told.commit, told.page)]

def Told.script (told : Told) (branch : String) (expected : Option String) (message : String) :
    List Step :=
  told.preparation expected message ++ [refStep branch expected told.commit told.reference]

def Told.receipt (told : Told) (g : GitHub) : CommitReceipt :=
  ⟨told.commit, told.page.getD (g.commitPage told.commit)⟩

end Script

section Walks

variable {σ : Type} (g : GitHub) (exchange : Exchange σ)

theorem walks_treeOf (commit : String) :
    g.Walks (g.treeOf exchange commit) (g.treeOf exchange.transcribed commit)
      fun tree steps => steps = [headStep commit tree] :=
  walks_send exchange _ understands_commitShape _ _ _

theorem walks_baseTree (expected : Option String) :
    g.Walks (g.baseTree exchange expected) (g.baseTree exchange.transcribed expected)
      fun base steps => ∃ tree, base = expected.map (fun _ => tree) ∧
        steps = (expected.map fun head => headStep head tree).toList := by
  cases expected with
  | none =>
    refine (walks_pure none).mono ?_
    rintro _ _ ⟨rfl, rfl⟩
    exact ⟨"", rfl, rfl⟩
  | some head =>
    refine ((g.walks_treeOf exchange head).bind fun tree => walks_pure (some tree)).mono ?_
    rintro _ _ ⟨tree, _, _, rfl, ⟨rfl, rfl⟩, rfl⟩
    exact ⟨tree, rfl, rfl⟩

theorem treeEntry_content (path : SitePath) (text : String) :
    treeEntry path ("content", .str text) = entryOf ⟨path, .put (.text text)⟩ "" := by
  simp +decide only [treeEntry, entryOf, Json.ofMembers, Dict.ofList, Dict.insertAll, Dict.insert,
    List.foldl_cons, List.foldl_nil, ↓reduceIte]

theorem treeEntry_sha (path : SitePath) (sha : Json) :
    treeEntry path ("sha", sha) = .obj [("mode", .str "100644"), ("path", .str path.text),
      ("sha", sha), ("type", .str "blob")] := by
  simp +decide only [treeEntry, Json.ofMembers, Dict.ofList, Dict.insertAll, Dict.insert,
    List.foldl_cons, List.foldl_nil, ↓reduceIte]

theorem walks_createBlob (path : SitePath) (bytes : List UInt8) :
    g.Walks (g.createBlob exchange bytes) (g.createBlob exchange.transcribed bytes)
      fun blob steps => steps = blobSteps ⟨path, .put (.binary bytes)⟩ blob := by
  have body : Json.ofMembers [("content", .str (Base64.encode bytes)), ("encoding", .str "base64")] =
      .obj [("content", .str (Base64.encode bytes)), ("encoding", .str "base64")] := by
    simp +decide only [Json.ofMembers, Dict.ofList, Dict.insertAll, Dict.insert, List.foldl_cons,
      List.foldl_nil, ↓reduceIte]
  rw [createBlob, createBlob, body]
  exact walks_send exchange _ understands_shaShape _ _ _

theorem walks_entryChange (w : FileWrite) :
    g.Walks (g.entryChange exchange w.change) (g.entryChange exchange.transcribed w.change)
      fun change steps => ∃ blob, treeEntry w.path change = entryOf w blob ∧
        steps = blobSteps w blob := by
  obtain ⟨path, change⟩ := w
  cases change with
  | delete =>
    refine (walks_pure _).mono ?_
    rintro _ _ ⟨rfl, rfl⟩
    exact ⟨"", treeEntry_sha path _, rfl⟩
  | put content =>
    cases content with
    | text text =>
      refine (walks_pure _).mono ?_
      rintro _ _ ⟨rfl, rfl⟩
      exact ⟨"", treeEntry_content path text, rfl⟩
    | binary bytes =>
      refine ((g.walks_createBlob exchange path bytes).bind fun sha => walks_pure _).mono ?_
      rintro _ _ ⟨sha, _, _, rfl, ⟨rfl, rfl⟩, rfl⟩
      exact ⟨sha, treeEntry_sha path _, List.append_nil _⟩

theorem walks_treeEntries (files : List FileWrite) :
    g.Walks (g.treeEntries exchange files) (g.treeEntries exchange.transcribed files)
      fun entries steps => ∃ told : List (FileWrite × String), told.map Prod.fst = files ∧
        entries = told.map (fun f => entryOf f.1 f.2) ∧
        steps = told.flatMap fun f => blobSteps f.1 f.2 := by
  induction files with
  | nil =>
    refine (walks_pure _).mono ?_
    rintro _ _ ⟨rfl, rfl⟩
    exact ⟨[], rfl, rfl, rfl⟩
  | cons w files ih =>
    refine ((g.walks_entryChange exchange w).bind fun change => ih.bind fun entries =>
      walks_pure (treeEntry w.path change :: entries)).mono ?_
    rintro _ _ ⟨change, _, _, ⟨blob, entry, rfl⟩, ⟨_, _, _, ⟨told, rfl, rfl, rfl⟩, ⟨rfl, rfl⟩, rfl⟩,
      rfl⟩
    refine ⟨(w, blob) :: told, rfl, ?_, ?_⟩
    · rw [entry, List.map_cons]
    · rw [List.append_nil, List.flatMap_cons]

theorem walks_setBranch (branch : String) (expected : Option String) (commit : String) :
    g.Walks (ExceptT.adapt (asMoved branch expected) (g.setBranch exchange branch expected commit))
      (ExceptT.adapt (asMoved branch expected)
        (g.setBranch exchange.transcribed branch expected commit))
      fun reference steps => steps = [refStep branch expected commit reference] := by
  have : Nonempty Json := ⟨.null⟩
  have understands : Understands Json.Shape.value fun _ _ => True := fun _ _ _ _ => trivial
  cases expected with
  | none =>
    have body : Json.ofMembers [("ref", .str ("refs/heads/" ++ branch)), ("sha", .str commit)] =
        .obj [("ref", .str ("refs/heads/" ++ branch)), ("sha", .str commit)] := by
      simp +decide only [Json.ofMembers, Dict.ofList, Dict.insertAll, Dict.insert, List.foldl_cons,
      List.foldl_nil, ↓reduceIte]
    simp only [setBranch, refStep, body]
    exact walks_adapt_send exchange _ understands _ _ _ (asMoved branch none) (fun _ => rfl)
      fun _ => rfl
  | some head =>
    have body : Json.ofMembers [("sha", .str commit), ("force", .bool false)] =
        .obj [("force", .bool false), ("sha", .str commit)] := by
      simp +decide only [Json.ofMembers, Dict.ofList, Dict.insertAll, Dict.insert, List.foldl_cons,
      List.foldl_nil, ↓reduceIte]
    simp only [setBranch, refStep, body]
    exact walks_adapt_send exchange _ understands _ _ _ (asMoved branch (some head)) (fun _ => rfl)
      fun _ => rfl

theorem walks_createTree (base : Option String) (entries : List Json) :
    g.Walks (g.createTree exchange base entries) (g.createTree exchange.transcribed base entries)
      fun tree steps => steps = [treeStep base entries tree] := by
  have body : Json.ofMembers
      (("tree", .arr entries) :: (base.map fun b => ("base_tree", Json.str b)).toList) =
      .obj ((base.map fun b => ("base_tree", Json.str b)).toList ++ [("tree", .arr entries)]) := by
    cases base <;> simp +decide only [Json.ofMembers, Dict.ofList, Dict.insertAll, Dict.insert,
      List.foldl_cons, List.foldl_nil, ↓reduceIte, Option.map_some, Option.map_none,
      Option.toList_some, Option.toList_none, List.nil_append, List.cons_append]
  rw [createTree, createTree, body]
  exact walks_send exchange _ understands_shaShape _ _ _

theorem walks_createCommit (message tree : String) (parents : List String) :
    g.Walks (g.createCommit exchange message tree parents)
      (g.createCommit exchange.transcribed message tree parents)
      fun made steps => steps = [commitStep message tree parents made] := by
  have body : Json.ofMembers
      [("message", .str message), ("tree", .str tree), ("parents", Json.ofStrings parents)] =
      .obj [("message", .str message), ("parents", .arr (parents.map .str)),
        ("tree", .str tree)] := by
    simp +decide only [Json.ofMembers, Json.ofStrings, Dict.ofList, Dict.insertAll, Dict.insert,
      List.foldl_cons, List.foldl_nil, ↓reduceIte]
  rw [createCommit, createCommit, body]
  exact walks_send exchange _ understands_createdShape _ _ _

/-- Every write follows a script for its files, whatever the service says. -/
theorem walks_write (branch : String) (expected : Option String) (files : List FileWrite)
    (message : String) :
    g.Walks (g.write exchange branch expected files message)
      (g.write exchange.transcribed branch expected files message)
      fun receipt steps => ∃ told : Told, told.files.map Prod.fst = files ∧
        receipt = told.receipt g ∧ steps = told.script branch expected message := by
  unfold write
  refine Walks.mono ((g.walks_baseTree exchange expected).bind fun base =>
    (g.walks_treeEntries exchange files).bind fun entries =>
    (g.walks_createTree exchange base entries).bind fun tree =>
    (g.walks_createCommit exchange message tree expected.toList).bind fun made =>
    (g.walks_setBranch exchange branch expected made.1).bind fun _ =>
      walks_pure (CommitReceipt.mk made.1 (made.2.getD (g.commitPage made.1)))) ?_
  rintro _ _ ⟨base, _, _, ⟨root, rfl, rfl⟩, ⟨_, _, _, ⟨told, rfl, rfl, rfl⟩, ⟨tree, _, _, rfl,
    ⟨⟨commit, page⟩, _, _, rfl, ⟨said, _, _, rfl, ⟨rfl, rfl⟩, rfl⟩, rfl⟩, rfl⟩, rfl⟩, rfl⟩
  refine ⟨⟨root, told, tree, commit, page, said⟩, rfl, rfl, ?_⟩
  simp [Told.script, Told.preparation]

end Walks

section Ends

variable {g : GitHub} {branch message : String} {expected : Option String} {told : Told}

/-- A request that is not for a reference: one that changes nothing, or one for a new object. -/
def Step.Prepares (step : Step) : Prop :=
  step.method = .get ∨
    step.method = .post ∧ step.resource ∈ ["git/blobs", "git/trees", "git/commits"]

theorem prepares_of_mem_preparation {step : Step} (h : step ∈ told.preparation expected message) :
    step.Prepares := by
  rw [Told.preparation, List.append_assoc, List.mem_append, List.mem_append] at h
  rcases h with head | blob | last
  · cases expected with
    | none => cases head
    | some commit =>
      cases List.mem_singleton.mp head
      exact Or.inl rfl
  · obtain ⟨f, -, hf⟩ := List.mem_flatMap.mp blob
    unfold blobSteps at hf
    split at hf
    · cases List.mem_singleton.mp hf
      exact Or.inr ⟨rfl, by simp⟩
    · cases hf
    · cases hf
  · rcases List.mem_pair.mp last with rfl | rfl
    · exact Or.inr ⟨rfl, by simp [treeStep]⟩
    · exact Or.inr ⟨rfl, by simp [commitStep]⟩

/-- What a write comes to, with all that was said. -/
inductive WriteEnds (g : GitHub) (branch : String) (expected : Option String) (message : String)
    (told : Told) : Transcript → Except RemoteError CommitReceipt → Prop
  /-- Something failed before the reference was asked for. -/
  | unprepared {log : Transcript} {e : RemoteError}
      (failed : g.Follows (told.preparation expected message) log (some e)) :
      WriteEnds g branch expected message told log (.error e)
  /-- The branch was no longer where it was expected. -/
  | overtaken {log : Transcript} {q : Request} {r : Response}
      (prepared : g.Follows (told.preparation expected message) log none)
      (made : (refStep branch expected told.commit told.reference).request? g = some q)
      (status : r.status = 409 ∨ r.status = 422) :
      WriteEnds g branch expected message told (log ++ [(q, some r)])
        (.error (.headMoved branch (expected.getD "none")))
  /-- The reference was refused for another reason. -/
  | refused {log : Transcript} {q : Request} {r : Response}
      (prepared : g.Follows (told.preparation expected message) log none)
      (made : (refStep branch expected told.commit told.reference).request? g = some q)
      (refused : ¬r.Succeeds) (status : ¬(r.status = 409 ∨ r.status = 422)) :
      WriteEnds g branch expected message told (log ++ [(q, some r)]) (.error (g.failure "ref" r))
  /-- Nothing is known of the reference: it could not be asked for, or no answer was understood. -/
  | unknown {log last : Transcript} {e : RemoteError}
      (prepared : g.Follows (told.preparation expected message) log none)
      (failed : (refStep branch expected told.commit told.reference).Fails g last e)
      (accepted : ∀ q r, last = [(q, some r)] → r.Succeeds) :
      WriteEnds g branch expected message told (log ++ last) (.error e)
  | moved {log : Transcript} {q : Request} {r : Response}
      (prepared : g.Follows (told.preparation expected message) log none)
      (passed : (refStep branch expected told.commit told.reference).Passes g q r) :
      WriteEnds g branch expected message told (log ++ [(q, some r)]) (.ok (told.receipt g))

theorem asMoved_failure {what : String} {r : Response} (status : r.status = 409 ∨ r.status = 422) :
    asMoved branch expected (g.failure what r) = .headMoved branch (expected.getD "none") := by
  have authorized : ¬(r.status = 401 ∨ r.status = 403) := by omega
  have found : r.status ≠ 404 := by omega
  rw [failure, if_neg authorized, if_neg found]
  exact if_pos status

theorem asMoved_failure_other {what : String} {r : Response}
    (status : ¬(r.status = 409 ∨ r.status = 422)) :
    asMoved branch expected (g.failure what r) = g.failure what r := by
  unfold failure
  split
  · rfl
  · split
    · rfl
    · exact if_neg status

theorem refStep_report (commit : String) (said : Json) (r : Response) :
    (refStep branch expected commit said).report
        (g.failure (refStep branch expected commit said).what r) =
      asMoved branch expected (g.failure "ref" r) := by
  cases expected <;> rfl

theorem Follows.writeEnds {log : Transcript} {failure : Option RemoteError}
    (h : g.Follows (told.script branch expected message) log failure) :
    g.WriteEnds branch expected message told log
      (failure.elim (.ok (told.receipt g)) .error) := by
  rcases h.append_cases with ⟨e, rfl, failed⟩ | ⟨before, after, rfl, prepared, last⟩
  · exact .unprepared failed
  · cases last with
    | pass passed rest =>
      cases rest
      exact .moved prepared passed
    | stop failed =>
      cases failed with
      | unmade made => exact .unknown prepared (.unmade made) fun _ _ h => nomatch h
      | unanswered made => exact .unknown prepared (.unanswered made) fun _ _ h => nomatch h
      | @refused q r made refused =>
        rw [refStep_report, Option.elim_some]
        by_cases status : r.status = 409 ∨ r.status = 422
        · rw [asMoved_failure status]
          exact .overtaken prepared made status
        · rw [asMoved_failure_other status]
          exact .refused prepared made refused status
      | unreadable made success unread =>
        refine .unknown prepared (.unreadable made success unread) ?_
        rintro _ _ ⟨⟩
        exact success

/-- Whatever the service says to a write, its requests are the first ones of a script for its files.
Those before the reference leave all references as they are. The reference is asked for last, when
all else was done, and a commit is reported only if the reference was told to name it. Keeping the
transcript changes nothing else. -/
theorem write_all_or_nothing {σ : Type} (g : GitHub) (exchange : Exchange σ) (branch : String)
    (expected : Option String) (files : List FileWrite) (message : String) (s : σ) :
    ∃ (told : Told) (log : Transcript) (result : Except RemoteError CommitReceipt) (t : σ),
      g.write exchange.transcribed branch expected files message ([], s) = (result, (log, t)) ∧
      g.write exchange branch expected files message s = (result, t) ∧
      told.files.map Prod.fst = files ∧
      log.map Prod.fst <+: (told.script branch expected message).filterMap (Step.request? g) ∧
      (∀ step ∈ told.preparation expected message, step.Prepares) ∧
      g.WriteEnds branch expected message told log result := by
  obtain ⟨_, _, log, failure, t, ⟨told, files, rfl, rfl⟩, follows, run, run'⟩ :=
    g.walks_write exchange branch expected files message [] s
  exact ⟨told, log, _, t, run', run, files, follows.requests_prefix,
    fun step => prepares_of_mem_preparation, follows.writeEnds⟩

end Ends

end GitHub

end SitePublish
