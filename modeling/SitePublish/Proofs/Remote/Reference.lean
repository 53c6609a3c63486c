import SitePublish.Deploy.Settings
import SitePublish.Proofs.Http.Url
import SitePublish.Remote.GitHub

/-!
# Which reference a branch name reaches

The remote on GitHub is asked for a branch by putting its name, as it is, behind the address of the
references. So two requests that read or move a branch go to one place just when the names lead there
from the folder of the references: the part of a name behind a hash sign is not sent, dot segments
are resolved, and what is escaped in one name can be written out in the other. Whether a preview may
go to a branch is decided on the names alone. For plain names the two agree.
-/

set_option autoImplicit false

namespace SitePublish

def Http.Exchange.recorded {σ : Type} (exchange : Exchange σ) : Exchange (List Request × σ) :=
  fun q (log, s) =>
    let (response, s) := exchange q s
    (response, (log ++ [q], s))

namespace GitHub

open Http (Exchange Request)
open Http.Url (Front Plain follow)

variable {σ : Type}

def snapshotRequests (g : GitHub) (exchange : Exchange σ) (branch : String) (s : σ) :
    List Request :=
  (g.snapshot exchange.recorded branch ([], s)).2.1

def writeRequests (g : GitHub) (exchange : Exchange σ) (branch : String)
    (expected : Option String) (files : List FileWrite) (message : String) (s : σ) : List Request :=
  (g.write exchange.recorded branch expected files message ([], s)).2.1

def placeOf (g : GitHub) (folder name : String) :
    Option (List (List Char) × Option (List Char)) :=
  (Front.read? (g.address folder).toList).map fun f => follow f.folder name.toList

section Requests

variable (g : GitHub) (exchange : Exchange σ)

theorem send_recorded {α : Type} (what : String) (shape : Json.Shape α) (method : Http.Method)
    (resource : String) (fields : List (String × String)) (body : Option Json)
    (log : List Request) (s : σ) :
    (g.send exchange.recorded what shape method resource fields body (log, s)).2.1 =
      log ++ (g.request? method resource fields body).toList := by
  unfold send
  cases g.request? method resource fields body with
  | none => simp
  | some q =>
    simp only [Exchange.recorded]
    rcases exchange q s with ⟨response | response, t⟩ <;> rfl

def Asks {α : Type} (P : Request → Prop) (call : Call (List Request × σ) α) : Prop :=
  ∀ log s, ∃ more, (call (log, s)).2.1 = log ++ more ∧ ∀ q ∈ more, P q

theorem bind_run {τ α β : Type} (x : Call τ α) (f : α → Call τ β) (s : τ) :
    (x >>= f) s =
      match x s with
      | (.ok a, t) => f a t
      | (.error e, t) => (.error e, t) := by
  change ExceptT.bindCont f (x s).1 (x s).2 = _
  rcases x s with ⟨e | a, t⟩ <;> rfl

section Asks

variable {P : Request → Prop} {α β : Type}

theorem Asks.pure (a : α) : Asks P (pure a : Call (List Request × σ) α) :=
  fun log _ => ⟨[], (List.append_nil log).symm, by simp⟩

theorem Asks.bind {x : Call (List Request × σ) α} {f : α → Call (List Request × σ) β}
    (hx : Asks P x) (hf : ∀ a, Asks P (f a)) : Asks P (x >>= f) := by
  intro log s
  obtain ⟨more, hm, hp⟩ := hx log s
  rw [bind_run]
  generalize x (log, s) = out at hm ⊢
  obtain ⟨e | a, log', t⟩ := out
  · exact ⟨more, hm, hp⟩
  · obtain ⟨rest, hr, hq⟩ := hf a log' t
    cases hm
    refine ⟨more ++ rest, by rw [← List.append_assoc]; exact hr, ?_⟩
    exact List.forall_mem_append.mpr ⟨hp, hq⟩

theorem Asks.adapt {x : Call (List Request × σ) α} (f : RemoteError → RemoteError)
    (hx : Asks P x) : Asks P (ExceptT.adapt f x) := hx

theorem asks_send (what : String) (shape : Json.Shape α) (method : Http.Method)
    (resource : String) (fields : List (String × String)) (body : Option Json)
    (kind : ∀ q, g.request? method resource fields body = some q → P q) :
    Asks P (g.send exchange.recorded what shape method resource fields body) :=
  fun log s => ⟨_, g.send_recorded exchange what shape method resource fields body log s,
    fun q hq => kind q (Option.mem_toList.mp hq)⟩

end Asks

theorem method_of_request? {method : Http.Method} {resource : String}
    {fields : List (String × String)} {body : Option Json} {q : Request}
    (h : g.request? method resource fields body = some q) : q.method = method := by
  rw [request?, Option.bind_eq_bind] at h
  obtain ⟨url, -, h⟩ := Option.bind_eq_some_iff.mp h
  obtain ⟨-, -, h⟩ := Option.bind_eq_some_iff.mp h
  cases h
  rfl

theorem head_recorded (branch : String) (log : List Request) (s : σ) :
    (g.head exchange.recorded branch (log, s)).2.1 =
      log ++ (g.request? .get ("git/ref/heads/" ++ branch) [] none).toList := by
  rw [← g.send_recorded exchange (branchName branch) refShape .get ("git/ref/heads/" ++ branch) []
    none log s, head]
  rcases g.send exchange.recorded (branchName branch) refShape .get ("git/ref/heads/" ++ branch) []
    none (log, s) with ⟨e | sha, t⟩
  · cases e <;> rfl
  · rfl

theorem head_of_malformed {branch : String} (log : List Request) (s : σ)
    (h : g.request? .get ("git/ref/heads/" ++ branch) [] none = none) :
    g.head exchange.recorded branch (log, s) =
      (.error (.transport Http.malformedRequest), (log, s)) := by
  rw [head, send, h]

theorem asks_trees (head : String) :
    Asks (fun _ => True) (do
      let tree ← g.treeOf exchange.recorded head
      let items ← g.send exchange.recorded "tree" treeShape .get ("git/trees/" ++ tree)
        [("recursive", "1")] none
      return some (⟨head, blobsOf items⟩ : Snapshot)) :=
  .bind (g.asks_send exchange _ _ _ _ _ _ fun _ _ => trivial) fun _ =>
    .bind (g.asks_send exchange _ _ _ _ _ _ fun _ _ => trivial) fun _ => .pure _

theorem head?_snapshotRequests (branch : String) (s : σ) :
    (g.snapshotRequests exchange branch s).head? =
      g.request? .get ("git/ref/heads/" ++ branch) [] none := by
  have first := g.head_recorded exchange branch [] s
  rw [snapshotRequests, snapshot, bind_run]
  cases hr : g.request? .get ("git/ref/heads/" ++ branch) [] none with
  | none =>
    rw [g.head_of_malformed exchange [] s hr]
    rfl
  | some q =>
    rw [hr] at first
    rcases hh : g.head exchange.recorded branch ([], s) with ⟨e | found, log, t⟩
    · rw [hh] at first
      dsimp only at first ⊢
      rw [first]
      rfl
    · rw [hh] at first
      dsimp only at first ⊢
      subst first
      cases found with
      | none => rfl
      | some head =>
        obtain ⟨more, hm, -⟩ := g.asks_trees exchange head ([] ++ (some q).toList) t
        dsimp only
        rw [hm]
        rfl

/-- A request that changes what there is, is for the reference of the branch. -/
def MovesOnly (g : GitHub) (branch : String) (q : Request) : Prop :=
  q.method = .patch →
    ∃ body, g.request? .patch ("git/refs/heads" ++ "/" ++ branch) [] body = some q

theorem asks_snapshot (branch : String) :
    Asks (g.MovesOnly branch) (g.snapshot exchange.recorded branch) := by
  have read : ∀ {α : Type} (what : String) (shape : Json.Shape α) (resource : String)
      (fields : List (String × String)), Asks (g.MovesOnly branch)
        (g.send exchange.recorded what shape .get resource fields none) := by
    intro α what shape resource fields
    refine g.asks_send exchange what shape .get resource fields none fun q hq hm => ?_
    exact absurd ((g.method_of_request? hq).symm.trans hm) (by decide)
  have head : Asks (g.MovesOnly branch) (g.head exchange.recorded branch) := by
    intro log s
    refine ⟨_, g.head_recorded exchange branch log s, fun q hq hm => ?_⟩
    exact absurd ((g.method_of_request? (Option.mem_toList.mp hq)).symm.trans hm) (by decide)
  refine .bind head fun found => ?_
  cases found with
  | none => exact .pure _
  | some head => exact .bind (read _ _ _ _) fun tree => .bind (read _ _ _ _) fun items => .pure _

theorem asks_write (branch : String) (expected : Option String) (files : List FileWrite)
    (message : String) :
    Asks (g.MovesOnly branch) (g.write exchange.recorded branch expected files message) := by
  have other : ∀ {α : Type} (what : String) (shape : Json.Shape α) (method : Http.Method)
      (resource : String) (body : Option Json), method ≠ .patch →
      Asks (g.MovesOnly branch)
        (g.send exchange.recorded what shape method resource [] body) := by
    intro α what shape method resource body ne
    refine g.asks_send exchange what shape method resource [] body fun q hq hm => ?_
    exact absurd ((g.method_of_request? hq).symm.trans hm) ne
  have entries : ∀ ws, Asks (g.MovesOnly branch) (g.treeEntries exchange.recorded ws) := by
    intro ws
    induction ws with
    | nil => exact .pure _
    | cons w ws ih =>
      refine .bind ?_ fun change => .bind ih fun entries => .pure _
      rcases w.change with content | _
      · cases content with
        | text text => exact .pure _
        | binary bytes => exact .bind (other _ _ _ _ _ (by decide)) fun sha => .pure _
      · exact .pure _
  refine .bind ?_ fun base => .bind (entries files) fun entries =>
    .bind (other _ _ _ _ _ (by decide)) fun tree => .bind (other _ _ _ _ _ (by decide))
      fun made => .bind (.adapt _ ?_) fun _ => .pure _
  · cases expected with
    | none => exact .pure _
    | some head => exact .bind (other _ _ _ _ _ (by decide)) fun tree => .pure _
  · cases expected with
    | none =>
      rw [setBranch]
      exact other _ _ _ _ _ (by decide)
    | some head =>
      have slash : "git/refs/heads/" = "git/refs/heads" ++ "/" := by decide
      rw [setBranch, slash]
      exact g.asks_send exchange _ _ _ _ _ _ fun q hq _ => ⟨_, hq⟩

end Requests

section Places

variable (g : GitHub)

theorem address_append (folder name : String) :
    g.address (folder ++ "/" ++ name) =
      String.ofList ((g.address folder).toList ++ '/' :: name.toList) := by
  apply String.toList_injective
  simp [address]

theorem address_deep (folder : String) : (g.address folder).toList =
    g.apiUrl.toList ++ '/' :: 'r' ::
      ("epos/" ++ g.repo.owner ++ "/" ++ g.repo.repo ++ "/" ++ folder).toList := by
  simp [address]

def root (g : GitHub) : String := g.apiUrl ++ "/repos/" ++ g.repo.owner ++ "/" ++ g.repo.repo

def resourceUrl (front : Front) (resource : String) (fields : List (String × String)) : Http.Url :=
  fields.foldl (fun url field => url.withField field.1 field.2)
    (front.address ('/' :: Http.Url.tidy resource.toList))

variable {g} in
/-- Whether a resource can be asked for does not depend on its name. -/
theorem request?_of_front {f : Front} (read : Front.read? g.root.toList = some f)
    (token : Http.isHeaderText g.token = true) (method : Http.Method) (resource : String)
    (fields : List (String × String)) (body : Option Json) :
    g.request? method resource fields body =
      some (g.request method (resourceUrl f resource fields) body) := by
  have deep : g.root.toList = g.apiUrl.toList ++ '/' :: 'r' ::
      ("epos/" ++ g.repo.owner ++ "/" ++ g.repo.repo).toList := by
    simp [root]
  have behind : g.address resource = String.ofList (g.root.toList ++ '/' :: resource.toList) := by
    apply String.toList_injective
    simp [address, root]
  rw [request?, behind, Http.Url.parse?_append deep rfl rfl, read, token]
  rfl

variable {g} in
theorem send_of_front {σ α : Type} {f : Front} (read : Front.read? g.root.toList = some f)
    (token : Http.isHeaderText g.token = true) {exchange : Exchange σ} {method : Http.Method}
    {resource : String} {fields : List (String × String)} {body : Option Json} {s t : σ}
    {r : Http.Response}
    (answer : exchange (g.request method (resourceUrl f resource fields) body) s = (some r, t))
    (what : String) (shape : Json.Shape α) :
    g.send exchange what shape method resource fields body s = (g.decode what shape r, t) := by
  rw [send, request?_of_front read token]
  dsimp only
  rw [answer]

/-- The address in front of the resources has no query and no fragment. -/
def Straight (g : GitHub) : Prop := '#' ∉ (g.address "").toList ∧ '?' ∉ (g.address "").toList

variable {g}

theorem Straight.address (h : g.Straight) {folder : String}
    (hf : '#' ∉ folder.toList ∧ '?' ∉ folder.toList) :
    '#' ∉ (g.address folder).toList ∧ '?' ∉ (g.address folder).toList := by
  have split : (g.address folder).toList = (g.address "").toList ++ folder.toList := by
    simp [GitHub.address]
  rw [split, List.mem_append, List.mem_append, not_or, not_or]
  exact ⟨⟨h.1, hf.1⟩, h.2, hf.2⟩

theorem url_of_request? {method : Http.Method} {folder name : String} {body : Option Json}
    {q : Request} (h : g.request? method (folder ++ "/" ++ name) [] body = some q) :
    ∃ f, Front.read? (g.address folder).toList = some f ∧
      q.url = f.address ('/' :: Http.Url.tidy name.toList) := by
  rw [request?, Option.bind_eq_bind] at h
  obtain ⟨url, hurl, h⟩ := Option.bind_eq_some_iff.mp h
  obtain ⟨-, -, h⟩ := Option.bind_eq_some_iff.mp h
  cases h
  rw [address_append, Http.Url.parse?_append (g.address_deep folder) rfl rfl] at hurl
  obtain ⟨f, hf, rfl⟩ := Option.map_eq_some_iff.mp hurl
  exact ⟨f, hf, rfl⟩

theorem target_eq_iff (straight : g.Straight) {folder : String}
    (hf : '#' ∉ folder.toList ∧ '?' ∉ folder.toList) {method method' : Http.Method}
    {name other : String} {body body' : Option Json} {q q' : Request}
    (hq : g.request? method (folder ++ "/" ++ name) [] body = some q)
    (hq' : g.request? method' (folder ++ "/" ++ other) [] body' = some q') :
    q.url.target = q'.url.target ↔ g.placeOf folder name = g.placeOf folder other := by
  obtain ⟨f, read, url⟩ := url_of_request? hq
  obtain ⟨f', read', url'⟩ := url_of_request? hq'
  rw [read] at read'
  cases read'
  have clean := straight.address hf
  rw [url, url', Http.Url.target_eq_iff f name.toList other.toList
    (fun h => clean.1 (Front.mem_of_mem_path read h))
    (fun h => clean.2 (Front.mem_of_mem_path read h)), placeOf, placeOf, read]
  simp

theorem placeOf_injective {folder name other : String} {method : Http.Method}
    {body : Option Json} {q : Request}
    (hq : g.request? method (folder ++ "/" ++ name) [] body = some q)
    (plain : Plain name.toList) (plain' : Plain other.toList)
    (same : g.placeOf folder name = g.placeOf folder other) : name = other := by
  obtain ⟨f, read, -⟩ := url_of_request? hq
  rw [placeOf, placeOf, read] at same
  exact String.toList_injective (plain.follow_injective plain' f.folder (Option.some.inj same))

theorem target_ne_of_plain (straight : g.Straight) {folder : String}
    (hf : '#' ∉ folder.toList ∧ '?' ∉ folder.toList) {method method' : Http.Method}
    {name other : String} {body body' : Option Json} {q q' : Request}
    (hq : g.request? method (folder ++ "/" ++ name) [] body = some q)
    (hq' : g.request? method' (folder ++ "/" ++ other) [] body' = some q')
    (plain : Plain name.toList) (plain' : Plain other.toList) (ne : name ≠ other) :
    q.url.target ≠ q'.url.target :=
  fun same => ne (placeOf_injective hq plain plain' ((target_eq_iff straight hf hq hq').mp same))

end Places

/-- A request that reads a branch for a snapshot or moves it in a write, with the folder that the
name of the branch is put behind. -/
inductive RefRequest (g : GitHub) (branch : String) : String → Request → Prop
  | read {σ : Type} {exchange : Exchange σ} {s : σ} {q : Request}
      (first : (g.snapshotRequests exchange branch s).head? = some q) :
      RefRequest g branch "git/ref/heads" q
  | move {σ : Type} {exchange : Exchange σ} {expected : Option String} {files : List FileWrite}
      {message : String} {s : σ} {q : Request}
      (made : q ∈ g.writeRequests exchange branch expected files message s)
      (patch : q.method = .patch) : RefRequest g branch "git/refs/heads" q

theorem RefRequest.made {g : GitHub} {branch folder : String} {q : Request}
    (h : g.RefRequest branch folder q) :
    ('#' ∉ folder.toList ∧ '?' ∉ folder.toList) ∧
      ∃ method body, g.request? method (folder ++ "/" ++ branch) [] body = some q := by
  cases h with
  | @read σ exchange s _ first =>
    have slash : "git/ref/heads" ++ "/" = "git/ref/heads/" := by decide
    rw [head?_snapshotRequests] at first
    rw [slash]
    exact ⟨by decide, _, _, first⟩
  | @move σ exchange expected files message s _ made patch =>
    obtain ⟨more, log, kinds⟩ := g.asks_write exchange branch expected files message [] s
    rw [writeRequests, log] at made
    obtain ⟨body, hq⟩ := kinds q made patch
    exact ⟨by decide, _, _, hq⟩

end GitHub

end SitePublish
