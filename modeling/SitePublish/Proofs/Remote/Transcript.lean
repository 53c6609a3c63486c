import SitePublish.Proofs.Remote.Reference

/-!
# Requests that follow a script

A script is a list of requests, each with what it is told by a response that it accepts. A transcript
follows a script when it has its requests in their order, each answered with what the script says
that it is told, up to the first one that fails; so it is known of a failure which request it ended
with, and of a success that every request was made. A call whose requests depend on what it was told
before walks through scripts: whatever the service answers, there is one that it follows.
-/

set_option autoImplicit false

namespace SitePublish

abbrev Http.Transcript := List (Http.Request × Option Http.Response)

def Http.Exchange.transcribed {σ : Type} (exchange : Exchange σ) : Exchange (Transcript × σ) :=
  fun q (log, s) =>
    let (response, s) := exchange q s
    (response, (log ++ [(q, response)], s))

def Http.Response.Succeeds (r : Response) : Prop := 200 ≤ r.status ∧ r.status < 300

theorem Http.Response.isSuccess_iff {r : Response} : r.isSuccess = true ↔ r.Succeeds := by
  simp [isSuccess, Succeeds]

namespace GitHub

open Http (Exchange Request Response Transcript)

/-- A request with what it is told. -/
structure Step where
  {Answer : Type}
  shape : Json.Shape Answer
  told : Answer
  /-- How the body of a response reads that tells this. -/
  reads : Json.Tree → Prop
  what : String
  method : Http.Method
  resource : String
  body : Option Json
  /-- What a refusal is reported as. -/
  report : RemoteError → RemoteError

namespace Step

variable (g : GitHub) (step : Step)

def request? : Option Request := do
  let url ← Http.Url.parse?
    (g.apiUrl ++ "/repos/" ++ g.repo.owner ++ "/" ++ g.repo.repo ++ "/" ++ step.resource)
  guard (Http.isHeaderText g.token)
  return {
    method := step.method
    url
    headers := Http.headers accept g.token [("x-github-api-version", apiVersion)] step.body
    body := step.body }

theorem request?_eq : step.request? g = g.request? step.method step.resource [] step.body := rfl

/-- The response tells the step what the script says. -/
structure Passes (q : Request) (r : Response) : Prop where
  made : step.request? g = some q
  success : r.Succeeds
  told : step.shape.parse? r.body = some step.told
  said : ∃ t, Json.Tree.parse? r.body = some t ∧ step.reads t

inductive Fails : Transcript → RemoteError → Prop
  | unmade (made : step.request? g = none) : Fails [] (.transport Http.malformedRequest)
  | unanswered {q : Request} (made : step.request? g = some q) :
      Fails [(q, none)] (.transport (Http.unanswered q.url))
  | refused {q : Request} {r : Response} (made : step.request? g = some q)
      (refused : ¬r.Succeeds) :
      Fails [(q, some r)] (step.report (g.failure step.what r))
  | unreadable {q : Request} {r : Response} (made : step.request? g = some q)
      (success : r.Succeeds) (unread : step.shape.parse? r.body = none) :
      Fails [(q, some r)] (.invalidResponse (step.what ++ ": " ++ Http.malformedBody))

end Step

/-- A transcript of the steps up to the first one that fails, with its error. -/
inductive Follows (g : GitHub) : List Step → Transcript → Option RemoteError → Prop
  | done : Follows g [] [] none
  | pass {step : Step} {steps : List Step} {q : Request} {r : Response} {log : Transcript}
      {failure : Option RemoteError} (passes : step.Passes g q r)
      (rest : Follows g steps log failure) :
      Follows g (step :: steps) ((q, some r) :: log) failure
  | stop {step : Step} {steps : List Step} {log : Transcript} {e : RemoteError}
      (fails : step.Fails g log e) : Follows g (step :: steps) log (some e)

namespace Follows

variable {g : GitHub} {first rest : List Step} {log more : Transcript}
  {failure : Option RemoteError} {e : RemoteError}

theorem append (h : g.Follows first log none) (further : g.Follows rest more failure) :
    g.Follows (first ++ rest) (log ++ more) failure := by
  generalize hn : (none : Option RemoteError) = none' at h
  induction h with
  | done => exact further
  | pass passes rest ih => exact .pass passes (ih hn)
  | stop fails => cases hn

theorem append_of_failed (h : g.Follows first log (some e)) (rest : List Step) :
    g.Follows (first ++ rest) log (some e) := by
  generalize hs : some e = failure at h
  induction h with
  | done => cases hs
  | pass passes further ih => exact .pass passes (ih hs)
  | stop fails =>
    cases hs
    exact .stop fails

theorem requests_prefix {steps : List Step} (h : g.Follows steps log failure) :
    log.map Prod.fst <+: steps.filterMap (Step.request? g) := by
  induction h with
  | done => exact List.prefix_rfl
  | pass passes rest ih =>
    rw [List.map_cons, List.filterMap_cons_some passes.made]
    exact (List.cons_prefix_cons).mpr ⟨rfl, ih⟩
  | stop fails =>
    cases fails with
    | unmade made => exact List.nil_prefix
    | unanswered made | refused made _ | unreadable made _ _ =>
      rw [List.map_cons, List.filterMap_cons_some made]
      exact (List.cons_prefix_cons).mpr ⟨rfl, List.nil_prefix⟩

theorem append_cases (h : g.Follows (first ++ rest) log failure) :
    (∃ e, failure = some e ∧ g.Follows first log (some e)) ∨
      ∃ before after, log = before ++ after ∧ g.Follows first before none ∧
        g.Follows rest after failure := by
  induction first generalizing log with
  | nil => exact Or.inr ⟨[], log, rfl, .done, h⟩
  | cons step first ih =>
    cases h with
    | pass passes further =>
      rcases ih further with ⟨e, rfl, failed⟩ | ⟨before, after, rfl, passed, on⟩
      · exact Or.inl ⟨e, rfl, .pass passes failed⟩
      · exact Or.inr ⟨_ :: before, after, rfl, .pass passes passed, on⟩
    | stop fails => exact Or.inl ⟨_, rfl, .stop fails⟩

end Follows

section Walks

variable {σ α β : Type} {g : GitHub} {x : Call σ α} {kept : Call (Transcript × σ) α}
  {P P' : α → List Step → Prop}

/-- Whatever the service answers, there is a script that the call follows, with what it yields if
nothing fails. `kept` is the same call on a connection that keeps the transcript. -/
def Walks (g : GitHub) (x : Call σ α) (kept : Call (Transcript × σ) α)
    (script : α → List Step → Prop) : Prop :=
  ∀ log s, ∃ a steps more failure t, script a steps ∧ g.Follows steps more failure ∧
    x s = (failure.elim (.ok a) .error, t) ∧
    kept (log, s) = (failure.elim (.ok a) .error, (log ++ more, t))

theorem Walks.mono (h : g.Walks x kept P) (weaker : ∀ a steps, P a steps → P' a steps) :
    g.Walks x kept P' := by
  intro log s
  obtain ⟨a, steps, more, failure, t, script, follows, run, run'⟩ := h log s
  exact ⟨a, steps, more, failure, t, weaker a steps script, follows, run, run'⟩

theorem walks_pure (a : α) :
    g.Walks (pure a : Call σ α) (pure a) fun b steps => b = a ∧ steps = [] := by
  intro log s
  refine ⟨a, [], [], none, s, ⟨rfl, rfl⟩, .done, rfl, ?_⟩
  rw [List.append_nil]
  rfl

theorem Walks.bind {f : α → Call σ β} {kept' : α → Call (Transcript × σ) β}
    {Q : α → β → List Step → Prop} (hx : g.Walks x kept P)
    (hf : ∀ a, g.Walks (f a) (kept' a) (Q a)) :
    g.Walks (x >>= f) (kept >>= kept') fun b steps =>
      ∃ a first rest, P a first ∧ Q a b rest ∧ steps = first ++ rest := by
  intro log s
  obtain ⟨a, first, more, failure, t, script, follows, run, run'⟩ := hx log s
  rw [bind_run, bind_run, run, run']
  cases failure with
  | none =>
    obtain ⟨b, rest, further, failure, u, script', follows', run, run'⟩ := hf a (log ++ more) t
    refine ⟨b, first ++ rest, more ++ further, failure, u, ⟨a, first, rest, script, script', rfl⟩,
      follows.append follows', run, ?_⟩
    rw [← List.append_assoc]
    exact run'
  | some e =>
    -- What would have been asked next stands in the script all the same.
    obtain ⟨b, rest, -, -, -, script', -⟩ := hf a log t
    exact ⟨b, first ++ rest, more, some e, t, ⟨a, first, rest, script, script', rfl⟩,
      follows.append_of_failed rest, rfl, rfl⟩

def said (g : GitHub) (exchange : Exchange σ) (method : Http.Method) (resource : String)
    (body : Option Json) (s : σ) : Transcript :=
  (g.request? method resource [] body).toList.map fun q => (q, (exchange q s).1)

theorem send_transcribed (exchange : Exchange σ) (what : String) (shape : Json.Shape α)
    (method : Http.Method) (resource : String) (body : Option Json) (log : Transcript) (s : σ) :
    g.send exchange.transcribed what shape method resource [] body (log, s) =
      ((g.send exchange what shape method resource [] body s).1,
        (log ++ g.said exchange method resource body s,
          (g.send exchange what shape method resource [] body s).2)) := by
  rw [send, send, said]
  cases g.request? method resource [] body with
  | none => exact Prod.ext rfl (Prod.ext (List.append_nil log).symm rfl)
  | some q =>
    simp only [Exchange.transcribed, Option.toList_some, List.map_cons, List.map_nil]
    rcases exchange q s with ⟨- | r, t⟩ <;> rfl

def Understands (shape : Json.Shape α) (reads : α → Json.Tree → Prop) : Prop :=
  ∀ ⦃budget t a⦄, shape budget t = some a → reads a t

/-- A request passes its step or fails it; only refusals are reported in another way. -/
theorem exists_step [Nonempty α] (exchange : Exchange σ) (what : String) {shape : Json.Shape α}
    {reads : α → Json.Tree → Prop} (understands : Understands shape reads) (method : Http.Method)
    (resource : String) (body : Option Json) (report : RemoteError → RemoteError)
    (transport : ∀ m, report (.transport m) = .transport m)
    (invalid : ∀ m, report (.invalidResponse m) = .invalidResponse m) (s : σ) :
    ∃ (a : α) (failure : Option RemoteError),
      g.Follows [⟨shape, a, reads a, what, method, resource, body, report⟩]
        (g.said exchange method resource body s) failure ∧
      (g.send exchange what shape method resource [] body s).1.mapError report =
        failure.elim (.ok a) .error := by
  obtain ⟨any⟩ := ‹Nonempty α›
  have same (a : α) :
      Step.request? g ⟨shape, a, reads a, what, method, resource, body, report⟩ =
        g.request? method resource [] body := Step.request?_eq g _
  rw [send, said]
  cases made : g.request? method resource [] body with
  | none =>
    exact ⟨any, _, .stop (.unmade ((same any).trans made)), congrArg Except.error (transport _)⟩
  | some q =>
    have asked (a : α) := (same a).trans made
    simp only [Option.toList_some, List.map_cons, List.map_nil]
    rcases exchange q s with ⟨- | r, t⟩
    · exact ⟨any, _, .stop (.unanswered (asked any)), congrArg Except.error (transport _)⟩
    · dsimp only
      rw [decode]
      split
      · next success =>
        have success := Http.Response.isSuccess_iff.mp success
        cases told : shape.parse? r.body with
        | some a =>
          obtain ⟨u, parsed, read⟩ := Option.bind_eq_some_iff.mp told
          exact ⟨a, none, .pass
            ⟨asked a, success, told, u, parsed, understands read⟩ .done, rfl⟩
        | none =>
          exact ⟨any, _, .stop (.unreadable (asked any) success told),
            congrArg Except.error (invalid _)⟩
      · next refused =>
        exact ⟨any, _, .stop (.refused (asked any) (mt Http.Response.isSuccess_iff.mpr refused)), rfl⟩

theorem walks_adapt_send [Nonempty α] (exchange : Exchange σ) (what : String)
    {shape : Json.Shape α} {reads : α → Json.Tree → Prop} (understands : Understands shape reads)
    (method : Http.Method) (resource : String) (body : Option Json)
    (report : RemoteError → RemoteError)
    (transport : ∀ m, report (.transport m) = .transport m)
    (invalid : ∀ m, report (.invalidResponse m) = .invalidResponse m) :
    g.Walks (ExceptT.adapt report (g.send exchange what shape method resource [] body))
      (ExceptT.adapt report (g.send exchange.transcribed what shape method resource [] body))
      fun a steps => steps = [⟨shape, a, reads a, what, method, resource, body, report⟩] := by
  intro log s
  obtain ⟨a, failure, follows, result⟩ := g.exists_step exchange what understands method resource
    body report transport invalid s
  have adapt {τ : Type} (call : Call τ α) (u : τ) :
      ExceptT.adapt report call u = ((call u).1.mapError report, (call u).2) := rfl
  refine ⟨a, _, _, failure, (g.send exchange what shape method resource [] body s).2, rfl, follows,
    ?_, ?_⟩
  · rw [adapt, result]
  · rw [adapt, send_transcribed]
    dsimp only
    rw [result]

theorem walks_send [Nonempty α] (exchange : Exchange σ) (what : String) {shape : Json.Shape α}
    {reads : α → Json.Tree → Prop} (understands : Understands shape reads) (method : Http.Method)
    (resource : String) (body : Option Json) :
    g.Walks (g.send exchange what shape method resource [] body)
      (g.send exchange.transcribed what shape method resource [] body)
      fun a steps => steps = [⟨shape, a, reads a, what, method, resource, body, id⟩] := by
  have plain {τ : Type} (call : Call τ α) : ExceptT.adapt id call = call := by
    funext u
    change ((call u).1.mapError id, (call u).2) = call u
    rcases call u with ⟨e | a, t⟩ <;> rfl
  have h := walks_adapt_send (g := g) exchange what understands method resource body id
    (fun _ => rfl) fun _ => rfl
  rwa [plain, plain] at h

end Walks

end GitHub

end SitePublish
