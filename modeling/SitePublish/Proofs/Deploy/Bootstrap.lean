import SitePublish.Proofs.Deploy.Rehearsal
import SitePublish.Proofs.Deploy.Stream

/-!
# The stream of a bootstrap

A deployment and a publication tell the truth about their end. A bootstrap passes on the stream of its
dry run with the completion that ends it, and goes on: whatever comes of provisioning, the completion
is not the end, and after a refusal it is not true. So a bootstrap tells the truth just when its dry run
fails.
-/

set_option autoImplicit false

namespace SitePublish

open DeployEvent (told)

/-- A stream that ends in its only terminal event and tells of a completion only if the call
succeeds. -/
structure Truthful {α : Type} (result : Except DeployError α) (events : List DeployEvent) : Prop where
  ends : ∃ front last, events = front ++ [last] ∧ last.isTerminal = true ∧
    ∀ e ∈ front, e.isTerminal = false
  honest : ∀ e ∈ events, e.isCompletion = true → ∃ a, result = .ok a

theorem DeployEvent.isTerminal_of_isCompletion {e : DeployEvent} (h : e.isCompletion = true) :
    e.isTerminal = true := by
  cases e <;> first | rfl | cases h

theorem Conducted.truthful {α : Type} {first : Phase} {result : Except DeployError α}
    {events : List DeployEvent} (h : Conducted first result events) : Truthful result events where
  ends := h.ends
  honest e mem completion := by
    obtain ⟨front, last, rfl, -, open_ended⟩ := h.ends
    rcases List.mem_append.mp mem with early | late
    · have terminal := DeployEvent.isTerminal_of_isCompletion completion
      rw [open_ended e early] at terminal
      cases terminal
    · obtain rfl := List.mem_singleton.mp late
      cases hr : result with
      | ok a => exact ⟨a, rfl⟩
      | error cause =>
        have ended := (h.failed cause hr).1
        rw [List.getLast?_concat, Option.some.injEq] at ended
        rw [ended] at completion
        cases completion

theorem Truthful.last_of_terminal {α : Type} {result : Except DeployError α}
    {front back : List DeployEvent} {e : DeployEvent} (h : Truthful result (front ++ e :: back))
    (terminal : e.isTerminal = true) : back = [] := by
  obtain ⟨before, last, same, -, open_ended⟩ := h.ends
  rcases List.eq_nil_or_concat back with rfl | ⟨back, x, rfl⟩
  · rfl
  · rw [List.concat_eq_append, ← List.cons_append, ← List.append_assoc] at same
    have mem : e ∈ before := (List.append_inj_left' same rfl) ▸ by simp
    rw [open_ended e mem] at terminal
    cases terminal

namespace Deployer

variable {σ : Type} {d : Deployer σ} {document : Document} {domain : Option String}
  {overrides : SeoOverrides} {project : Except ProjectError (List Candidate)} {s : σ}

def provisioned : Except HostingError HostingProject → DeployEvent
  | .error e => .failed .publishing (DeployFailure.hosting e).message
  | .ok _ => .entered .succeeded

theorem bootstrap_of_dry_ok {preview : DeployResult}
    (ok : (d.execute document (bootstrapOptions overrides) project s).result = .ok preview) :
    let out := d.bootstrap document domain overrides project s
    let answer := (d.services.provision d.settings.repo domain s).1
    out.result.isOk = answer.isOk ∧
      out.events = (d.execute document (bootstrapOptions overrides) project s).events ++
        [.entered .publishing] ++ [provisioned answer] := by
  intro out answer
  have same := (d.execute_ends document (bootstrapOptions overrides) project s).state_of_dry rfl
  have ends : BootstrapEnds d document domain overrides project s out :=
    d.bootstrap_ends document domain overrides project s
  clear_value out
  cases ends with
  | unready rehearse =>
    rw [rehearse] at ok
    cases ok
  | refused rehearse provision =>
    rw [rehearse] at same ⊢
    cases same
    dsimp only [answer]
    rw [provision]
    exact ⟨rfl, rfl⟩
  | done rehearse provision =>
    rw [rehearse] at same ⊢
    cases same
    dsimp only [answer]
    rw [provision]
    exact ⟨rfl, rfl⟩

theorem bootstrap_of_dry_error {e : DeployError}
    (failed : (d.execute document (bootstrapOptions overrides) project s).result = .error e) :
    (d.bootstrap document domain overrides project s).result = .error e ∧
      (d.bootstrap document domain overrides project s).events =
        (d.execute document (bootstrapOptions overrides) project s).events := by
  have ends := d.bootstrap_ends document domain overrides project s
  generalize d.bootstrap document domain overrides project s = out at ends ⊢
  cases ends with
  | unready rehearse =>
    rw [rehearse] at failed ⊢
    cases failed
    exact ⟨rfl, rfl⟩
  | refused rehearse provision =>
    rw [rehearse] at failed
    cases failed
  | done rehearse provision =>
    rw [rehearse] at failed
    cases failed

theorem dry_completes {preview : DeployResult}
    (ok : (d.execute document (bootstrapOptions overrides) project s).result = .ok preview) :
    ∃ front, (d.execute document (bootstrapOptions overrides) project s).events =
      front ++ [.completed none none true] := by
  have ends := d.execute_ends document (bootstrapOptions overrides) project s
  generalize d.execute document (bootstrapOptions overrides) project s = out at ends ok ⊢
  cases ends with
  | disowned own => cases ok
  | unprepared own prepare => cases ok
  | rehearsed own prepare dry => exact ⟨_, List.append_cons _ _ _⟩
  | failed own prepare real ship => cases ok
  | done own prepare real ship => cases real

/-- For every sink: the stream of a bootstrap tells the truth just when the dry run fails. After one
that succeeds it tells of a completion, enters another phase and tells how provisioning ended. -/
theorem bootstrap_truthful_iff (d : Deployer σ) (document : Document) (domain : Option String)
    (overrides : SeoOverrides) (project : Except ProjectError (List Candidate)) (s : σ)
    (detailed : Bool) :
    let dry := d.execute document (bootstrapOptions overrides) project s
    let out := d.bootstrap document domain overrides project s
    let answer := (d.services.provision d.settings.repo domain s).1
    (Truthful out.result (told detailed out.events) ↔ ∃ e, dry.result = .error e) ∧
    ∀ preview, dry.result = .ok preview → out.result.isOk = answer.isOk ∧
      ∃ front, told detailed out.events =
        front ++ [.completed none none true, .entered .publishing, provisioned answer] := by
  intro dry out answer
  have goes_on : ∀ preview, dry.result = .ok preview → out.result.isOk = answer.isOk ∧
      ∃ front, told detailed out.events =
        front ++ [.completed none none true, .entered .publishing, provisioned answer] := by
    intro preview ok
    obtain ⟨front, completes⟩ := dry_completes ok
    have plain : (provisioned answer).isDetail = false := by cases answer <;> rfl
    obtain ⟨result, events⟩ : _ ∧ out.events = dry.events ++ _ ++ _ := bootstrap_of_dry_ok ok
    refine ⟨result, told detailed front, ?_⟩
    rw [events, completes, List.append_assoc, List.append_assoc, DeployEvent.told_append]
    congr 1
    exact DeployEvent.told_of_plain (List.forall_mem_cons.mpr
      ⟨rfl, List.forall_mem_cons.mpr ⟨rfl, List.forall_mem_singleton.mpr plain⟩⟩)
  refine ⟨⟨fun truthful => ?_, fun ⟨e, failed⟩ => ?_⟩, goes_on⟩
  · cases hr : dry.result with
    | error e => exact ⟨e, rfl⟩
    | ok preview =>
      obtain ⟨-, front, events⟩ := goes_on preview hr
      rw [events] at truthful
      cases truthful.last_of_terminal rfl
  · obtain ⟨result, events⟩ : out.result = _ ∧ out.events = _ := bootstrap_of_dry_error failed
    have conducted := (d.execute_ends document (bootstrapOptions overrides) project s).conducted
    have truthful := (conducted.told detailed).truthful
    rw [result, events]
    refine ⟨truthful.ends, fun event mem completion => ?_⟩
    obtain ⟨a, ok⟩ := truthful.honest event mem completion
    rw [failed] at ok
    cases ok

end Deployer

namespace Bakery

/-- The host refuses to provision, after the completion has been told of. -/
theorem refused_bootstrap_completes :
    let out := deployer.bootstrap blank none [] (.ok []) closed
    out.result.isOk = false ∧ .completed none none true ∈ out.events ∧
      ¬ Truthful out.result out.events := by
  have rehearsed : deployer.rehearsal blank (Deployer.bootstrapOptions []) (.ok []) =
      .ok (.ofBatch .production bareBatch) :=
    rehearsal_blank rfl rfl rfl batch_bare rfl
  have ok := (Deployer.execute_of_rehearsal_dry (s := closed) rehearsed rfl).1
  obtain ⟨front, completes⟩ := Deployer.dry_completes ok
  obtain ⟨fails, events⟩ :
      (deployer.bootstrap blank none [] (.ok []) closed).result.isOk = false ∧ _ = _ ++ _ ++ _ :=
    Deployer.bootstrap_of_dry_ok ok
  have completes :
      .completed none none true ∈ (deployer.bootstrap blank none [] (.ok []) closed).events := by
    rw [events, completes]
    simp
  refine ⟨fails, completes, fun truthful => ?_⟩
  obtain ⟨a, ok⟩ := truthful.honest _ completes rfl
  rw [ok] at fails
  cases fails

end Bakery

end SitePublish
