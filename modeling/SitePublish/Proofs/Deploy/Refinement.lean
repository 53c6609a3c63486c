import SitePublish.Deploy.Run

/-!
# Services that answer alike

If every call on some services is answered as by others, whose states are seen in theirs, then every
deployment, publication and bootstrap over the first ones ends as over the others.
-/

set_option autoImplicit false

namespace SitePublish

/-- What is answered on `v` is answered on `u`, whose states `view` sees in those of `v`. -/
structure Services.Refines {σ ρ : Type} (v : Services σ) (u : Services ρ) (view : σ → ρ) :
    Prop where
  snapshot : ∀ branch s,
    ((v.snapshot branch s).1, view (v.snapshot branch s).2) = u.snapshot branch (view s)
  write : ∀ branch expected files message s,
    ((v.write branch expected files message s).1,
      view (v.write branch expected files message s).2) =
      u.write branch expected files message (view s)
  publish : ∀ request s,
    ((v.publish request s).1, view (v.publish request s).2) = u.publish request (view s)
  provision : ∀ repo domain s,
    ((v.provision repo domain s).1, view (v.provision repo domain s).2) =
      u.provision repo domain (view s)
  lock : ∀ branch s, ((v.lock branch s).1, view (v.lock branch s).2) = u.lock branch (view s)
  unlock : ∀ branch s, view (v.unlock branch s) = u.unlock branch (view s)

def Outcome.mapState {σ ρ α : Type} (f : σ → ρ) (o : Outcome σ α) : Outcome ρ α :=
  ⟨o.result, o.events, f o.state⟩

namespace Deployer

variable {σ ρ : Type}

def onto (d : Deployer σ) (u : Services ρ) : Deployer ρ := ⟨d.pipeline, d.settings, u⟩

variable {d : Deployer σ} {u : Services ρ} {view : σ → ρ} (hr : d.services.Refines u view)
include hr

theorem commit_refines (branch message : String) (plan : CommitPlan) (s : σ) :
    (d.onto u).commit branch message plan (view s) =
      ((d.commit branch message plan s).1, (d.commit branch message plan s).2.1,
        view (d.commit branch message plan s).2.2) := by
  have hw := hr.write branch plan.base plan.writes message s
  unfold commit
  cases plan.isNoop with
  | true => rfl
  | false =>
    simp only [Bool.false_eq_true, ↓reduceIte, onto, ← hw]
    rcases d.services.write branch plan.base plan.writes message s with ⟨e | receipt, t⟩ <;> rfl

theorem publish_refines (target : Target) (branch : String) (head : Option String) (s : σ) :
    (d.onto u).publish target branch head (view s) =
      ((d.publish target branch head s).1, (d.publish target branch head s).2.1,
        view (d.publish target branch head s).2.2) := by
  unfold publish
  simp only [onto]
  cases d.settings.hostingProject with
  | none => rfl
  | some project =>
    have hp := hr.publish ⟨project, d.settings.repo, branch, head, target⟩ s
    simp only [← hp]
    rcases d.services.publish ⟨project, d.settings.repo, branch, head, target⟩ s
      with ⟨e | deployment, t⟩ <;> rfl

theorem ship_refines (document : Document) (options : DeployOptions) (branch : String)
    (prepared : Prepared) (s : σ) :
    (d.onto u).ship document options branch prepared (view s) =
      ((d.ship document options branch prepared s).1,
        (d.ship document options branch prepared s).2.1,
        view (d.ship document options branch prepared s).2.2) := by
  have hs := hr.snapshot branch s
  have hc := fun message plan t => commit_refines hr branch message plan t
  have hp := fun head t => publish_refines hr options.target branch head t
  unfold ship
  simp only [onto] at hc hp ⊢
  simp only [← hs]
  rcases d.services.snapshot branch s with ⟨e | snapshot, t⟩
  · rfl
  · simp only [hc]
    generalize d.commit branch _ _ t = committed
    rcases committed with ⟨e | c, events, t⟩
    · rfl
    · simp only [hp]
      rcases d.publish options.target branch c.head t with ⟨e | deployment, more, t⟩ <;> rfl

theorem shipLocked_refines (document : Document) (options : DeployOptions) (branch : String)
    (prepared : Prepared) (s : σ) :
    (d.onto u).shipLocked document options branch prepared (view s) =
      ((d.shipLocked document options branch prepared s).1,
        (d.shipLocked document options branch prepared s).2.1,
        view (d.shipLocked document options branch prepared s).2.2) := by
  have hl := hr.lock branch s
  have hs := fun t => ship_refines hr document options branch prepared t
  unfold shipLocked
  simp only [onto] at hs ⊢
  simp only [← hl]
  rcases d.services.lock branch s with ⟨e | _, t⟩
  · rfl
  · simp only [hs, hr.unlock]

theorem execute_refines (document : Document) (options : DeployOptions)
    (project : Except ProjectError (List Candidate)) (s : σ) :
    (d.onto u).execute document options project (view s) =
      (d.execute document options project s).mapState view := by
  have hs := fun branch prepared => shipLocked_refines hr document options branch prepared s
  unfold execute
  simp only [onto] at hs ⊢
  split
  · rfl
  · split
    · rfl
    · next prepared events _ =>
      split
      · rfl
      · simp only [hs]
        generalize d.shipLocked document options _ prepared s = shipped
        rcases shipped with ⟨fault | done, more, t⟩ <;> rfl

theorem republish_refines (target : Target) (asked : Option String) (s : σ) :
    (d.onto u).republish target asked (view s) =
      (d.republish target asked s).mapState view := by
  have hl := fun branch => hr.lock branch s
  have hp := fun branch t => publish_refines hr target branch none t
  unfold republish
  simp only [onto] at hp ⊢
  split
  · rfl
  · simp only [← hl]
    generalize d.services.lock _ s = locked
    rcases locked with ⟨e | _, t⟩
    · rfl
    · simp only [hp]
      generalize d.publish target _ none t = published
      rcases published with ⟨e | deployment, events, t⟩ <;>
        simp only [Outcome.mapState, Run.fail, hr.unlock]

theorem bootstrap_refines (document : Document) (domain : Option String)
    (overrides : SeoOverrides) (project : Except ProjectError (List Candidate)) (s : σ) :
    (d.onto u).bootstrap document domain overrides project (view s) =
      (d.bootstrap document domain overrides project s).mapState view := by
  have he := execute_refines hr document (bootstrapOptions overrides) project s
  have hp := fun t => hr.provision d.settings.repo domain t
  unfold bootstrap
  rw [he]
  rcases d.execute document (bootstrapOptions overrides) project s with ⟨e | preview, events, t⟩
  · rfl
  · simp only [Outcome.mapState, onto, ← hp]
    rcases d.services.provision d.settings.repo domain t with ⟨e | made, t⟩ <;> rfl

end Deployer

end SitePublish
