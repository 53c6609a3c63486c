import SitePublish.Proofs.FirstFault
import SitePublish.Proofs.Page.Layout
import SitePublish.Proofs.Site.Respelling
import SitePublish.Proofs.Site.Route

/-!
# Why a generation fails

A generation fails for the first of the faults that its document has: a page without a route or with
the route of an earlier page, then a component that cannot be placed, then a path that two files
share. What comes before the fault is sound, and with a sound document, for a layout whose directories
are written as they are meant, nothing else can go wrong. Without modules for components two files
share a path only if a page has the name of the index.
-/

set_option autoImplicit false

namespace SitePublish

namespace Document

structure Routable (keys : List String) : Prop where
  routed : ∀ key ∈ keys, ∃ r, Route.ofKey key = .ok r
  apart : (keys.map Route.ofKey).Nodup

theorem Routable.front (a b : List String) (h : Routable (a ++ b)) : Routable a :=
  ⟨fun key mem => h.routed key (List.mem_append_left b mem), (List.map_append ▸ h.apart).of_append_left⟩

/-- A key without a route, or with the route of a key in front. -/
inductive RouteBlame (before : List String) (key : String) : GenerationError → Prop
  | invalid {cause : RouteError} (refused : Route.ofKey key = .error cause) :
      RouteBlame before key (.invalidRoute key cause)
  | collision {first : String} {r : Route} (mem : first ∈ before)
      (there : Route.ofKey first = .ok r) (here : Route.ofKey key = .ok r) :
      RouteBlame before key (.routeCollision r.text first key)

/-- The first key without a route of its own; as those in front have routes of their own, only one of
them has the route that it shares. -/
def RouteFault (keys : List String) : GenerationError → Prop := FirstFault Routable RouteBlame keys

variable {before keys : List String} {key : String} {r : Route} {seen : List (Route × String)}

theorem Routable.snoc (h : Routable before) (here : Route.ofKey key = .ok r)
    (fresh : ∀ first ∈ before, Route.ofKey first ≠ .ok r) : Routable (before ++ [key]) where
  routed := List.forall_mem_append.mpr ⟨h.routed, List.forall_mem_singleton.mpr ⟨r, here⟩⟩
  apart := by
    rw [List.map_append, List.map_singleton, ← List.concat_eq_append, here]
    refine h.apart.concat fun mem => ?_
    obtain ⟨first, hfirst, there⟩ := List.mem_map.mp mem
    exact fresh first hfirst there

theorem not_routable_of_blame (before : List String) (key : String) (e : GenerationError)
    (h : RouteBlame before key e) :
    ¬ Routable (before ++ [key]) := by
  intro sound
  cases h with
  | invalid refused =>
    obtain ⟨r, here⟩ := sound.routed key (by simp)
    rw [here] at refused
    cases refused
  | collision mem there here =>
    have apart := sound.apart
    rw [List.map_append, List.map_singleton, here, ← there] at apart
    exact (List.nodup_append.mp apart).2.2 _ (List.mem_map_of_mem mem) _
      (List.mem_singleton_self _) rfl

theorem routeBlame_unique (before : List String) (key : String) (e e' : GenerationError)
    (sound : Routable before)
    (h : RouteBlame before key e) (h' : RouteBlame before key e') : e = e' := by
  cases h with
  | invalid refused =>
    cases h' with
    | invalid refused' => rw [Except.error.inj (refused.symm.trans refused')]
    | collision _ _ here => cases refused.symm.trans here
  | collision mem there here =>
    cases h' with
    | invalid refused => cases refused.symm.trans here
    | collision mem' there' here' =>
      obtain rfl := Except.ok.inj (here.symm.trans here')
      rw [List.inj_on_of_nodup_map sound.apart mem mem' (there.trans there'.symm)]

theorem not_routable_of_fault {e : GenerationError} (h : RouteFault keys e) : ¬ Routable keys :=
  h.not_sound Routable.front not_routable_of_blame

theorem routeFault_unique {e e' : GenerationError} (h : RouteFault keys e) (h' : RouteFault keys e') :
    e = e' :=
  h.unique Routable.front not_routable_of_blame routeBlame_unique h'

def Seen (before : List String) (seen : List (Route × String)) : Prop :=
  ∀ r first, Dict.get? seen r = some first ↔ first ∈ before ∧ Route.ofKey first = .ok r

theorem Seen.snoc (h : Seen before seen) (here : Route.ofKey key = .ok r)
    (fresh : Dict.get? seen r = none) : Seen (before ++ [key]) ((r, key) :: seen) := by
  intro r' first
  rw [Dict.get?, List.mem_append, List.mem_singleton]
  split
  · next same =>
    subst same
    have none : ¬ (first ∈ before ∧ Route.ofKey first = .ok r) := fun known => by
      rw [(h r first).mpr known] at fresh
      cases fresh
    rw [Option.some.injEq]
    constructor
    · rintro rfl
      exact ⟨Or.inr rfl, here⟩
    · rintro ⟨mem | rfl, there⟩
      · exact absurd ⟨mem, there⟩ none
      · rfl
  · next other =>
    rw [h r' first]
    constructor
    · exact fun known => ⟨Or.inl known.1, known.2⟩
    · rintro ⟨mem | rfl, there⟩
      · exact ⟨mem, there⟩
      · exact absurd (Except.ok.inj (here.symm.trans there)) other

theorem routesFrom_spec (sound : Routable before) (known : Seen before seen) :
    (∀ routes, routesFrom seen keys = .ok routes → Routable (before ++ keys)) ∧
      ∀ e, routesFrom seen keys = .error e →
        RouteFault (before ++ keys) (GenerationError.ofRouteError e) := by
  induction keys generalizing before seen with
  | nil =>
    rw [List.append_nil]
    exact ⟨fun _ _ => sound, fun _ h => (by cases h)⟩
  | cons key rest ih =>
    rw [routesFrom]
    split
    · next cause refused =>
      refine ⟨fun _ h => (by cases h), ?_⟩
      rintro _ ⟨⟩
      exact .intro rfl sound (.invalid refused)
    · next r here =>
      split
      · next first found =>
        refine ⟨fun _ h => (by cases h), ?_⟩
        rintro _ ⟨⟩
        obtain ⟨mem, there⟩ := (known r first).mp found
        exact .intro rfl sound (.collision mem there here)
      · next fresh =>
        have new : ∀ first ∈ before, Route.ofKey first ≠ .ok r := fun first mem there => by
          rw [(known r first).mpr ⟨mem, there⟩] at fresh
          cases fresh
        have more := ih (sound.snoc here new) (known.snoc here fresh)
        rw [← List.append_cons] at more
        split
        · next routes ok => exact ⟨fun _ _ => more.1 _ ok, fun _ h => (by cases h)⟩
        · next e failed =>
          refine ⟨fun _ h => (by cases h), ?_⟩
          rintro _ ⟨⟩
          exact more.2 _ failed

theorem routes_spec (d : Document) :
    (∀ routes, d.routes = .ok routes → Routable (Dict.keys d.pages)) ∧
      ∀ e, d.routes = .error e → RouteFault (Dict.keys d.pages) (GenerationError.ofRouteError e) :=
  have sound : Routable [] := ⟨nofun, .nil⟩
  routesFrom_spec sound fun _ _ =>
    ⟨fun h => (by cases h), fun h => absurd h.1 List.not_mem_nil⟩

end Document

def Registry.Resolves (reg : Registry) (c : Component) : Prop :=
  ∃ design props, reg.get? c.type = some design ∧ Props.resolve design c = .ok props

namespace Generator

/-- What is wrong with a component that stands behind others on a page. -/
inductive Blames (reg : Registry) (key : String) (ready : List Component) (c : Component) :
    GenerationError → Prop
  | unknown (missing : reg.get? c.type = none) :
      Blames reg key ready c (.unknownComponent key ready.length c.type)
  | invalid {design : Design} {prop : String} {kind : FieldKind}
      (known : reg.get? c.type = some design)
      (refused : Props.resolve design c = .error (.invalidValue prop kind)) :
      Blames reg key ready c (.invalidProp key ready.length c.type prop kind)
  | conflict {design : Design} {prop blockedAt : String} (known : reg.get? c.type = some design)
      (refused : Props.resolve design c = .error (.pathConflict prop blockedAt)) :
      Blames reg key ready c (.propPathConflict key ready.length c.type prop blockedAt)

def Resolved (reg : Registry) (cs : List Component) : Prop := ∀ c ∈ cs, reg.Resolves c

def Placeable (reg : Registry) (pages : List (String × Page)) : Prop :=
  ∀ e ∈ pages, Resolved reg e.2.components

def PageBlame (reg : Registry) (e : String × Page) : GenerationError → Prop :=
  FirstFault (Resolved reg) (Blames reg e.1) e.2.components

def ComponentFault (reg : Registry) (pages : List (String × Page)) : GenerationError → Prop :=
  FirstFault (Placeable reg) (fun _ => PageBlame reg) pages

/-- The first place that is used a second time. -/
def PathFault (places : List String) : GenerationError → Prop :=
  FirstFault List.Nodup (fun before place e => place ∈ before ∧ e = .duplicatePath place) places

variable {g : Generator} {reg : Registry} {l : Layout} {key : String} {r : Route}

section Unique

variable {e e' : GenerationError}

theorem not_resolved_of_blames (ready : List Component) (c : Component) (e : GenerationError)
    (h : Blames reg key ready c e) : ¬ Resolved reg (ready ++ [c]) := by
  intro all
  obtain ⟨design, props, known, resolved⟩ := all c (by simp)
  cases h with
  | unknown missing => simp [missing] at known
  | invalid known' refused | conflict known' refused =>
    cases known.symm.trans known'
    cases resolved.symm.trans refused

theorem blames_unique (ready : List Component) (c : Component) (e e' : GenerationError)
    (h : Blames reg key ready c e) (h' : Blames reg key ready c e') : e = e' := by
  cases h with
  | unknown missing =>
    cases h' with
    | unknown => rfl
    | invalid known | conflict known => simp [missing] at known
  | invalid known refused | conflict known refused =>
    cases h' with
    | unknown missing => simp [missing] at known
    | invalid known' refused' | conflict known' refused' =>
      cases known.symm.trans known'
      cases refused.symm.trans refused' <;> rfl

theorem resolved_front (a b : List Component) (h : Resolved reg (a ++ b)) : Resolved reg a :=
  fun c mem => h c (List.mem_append_left b mem)

theorem placeable_front (a b : List (String × Page)) (h : Placeable reg (a ++ b)) :
    Placeable reg a := fun e mem => h e (List.mem_append_left b mem)

theorem not_placeable_of_blame (before : List (String × Page)) (entry : String × Page)
    (e : GenerationError) (h : PageBlame reg entry e) : ¬ Placeable reg (before ++ [entry]) :=
  fun all => h.not_sound resolved_front not_resolved_of_blames (all entry (by simp))

theorem pageBlame_unique {entry : String × Page} (h : PageBlame reg entry e)
    (h' : PageBlame reg entry e') : e = e' :=
  h.unique resolved_front not_resolved_of_blames
    (fun ready c e e' _ => blames_unique ready c e e') h'

theorem not_placeable_of_fault {pages : List (String × Page)} (h : ComponentFault reg pages e) :
    ¬ Placeable reg pages := h.not_sound placeable_front not_placeable_of_blame

theorem componentFault_unique {pages : List (String × Page)} (h : ComponentFault reg pages e)
    (h' : ComponentFault reg pages e') : e = e' :=
  h.unique placeable_front not_placeable_of_blame (fun _ _ _ _ _ => pageBlame_unique) h'

theorem not_nodup_of_again (before : List String) (place : String) (e : GenerationError)
    (h : place ∈ before ∧ e = .duplicatePath place) : ¬ (before ++ [place]).Nodup := fun apart =>
  (List.nodup_append.mp apart).2.2 place h.1 place (List.mem_singleton_self place) rfl

theorem nodup_front (a b : List String) (h : (a ++ b).Nodup) : a.Nodup := h.of_append_left

theorem not_nodup_of_fault {places : List String} (h : PathFault places e) : ¬ places.Nodup :=
  h.not_sound nodup_front not_nodup_of_again

theorem pathFault_unique {places : List String} (h : PathFault places e)
    (h' : PathFault places e') : e = e' :=
  h.unique nodup_front not_nodup_of_again (fun _ _ _ _ _ again again' => again.2.trans again'.2.symm) h'

end Unique

theorem componentFault_cons {pages : List (String × Page)} {e : GenerationError}
    {entry : String × Page} (h : ComponentFault reg pages e)
    (sound : ∀ c ∈ entry.2.components, reg.Resolves c) : ComponentFault reg (entry :: pages) e := by
  obtain ⟨rfl, others, blame⟩ := h
  exact .intro List.cons_append.symm (List.forall_mem_cons.mpr ⟨sound, others⟩) blame

theorem resolves_of_places {located : List (Component × Nat)} {placed : List PlacedComponent}
    (h : List.Forall₂ (Places reg r) located placed) : ∀ e ∈ located, reg.Resolves e.1 := by
  induction h with
  | nil => exact nofun
  | cons first _ ih =>
    refine List.forall_mem_cons.mpr ⟨?_, ih⟩
    cases first with
    | intro known resolved => exact ⟨_, _, known, resolved⟩

theorem blames_ofPropError {ready : List Component} {c : Component} {design : Design} {e : PropError}
    (known : reg.get? c.type = some design) (refused : Props.resolve design c = .error e) :
    Blames reg key ready c (.ofPropError key ready.length c.type e) := by
  cases e with
  | invalidValue => exact .invalid known refused
  | pathConflict => exact .conflict known refused

theorem fault_of_placeFrom {ready components : List Component} (sound : Resolved reg ready)
    {e : GenerationError} (h : placeFrom reg key r ready.length components = .error e) :
    FirstFault (Resolved reg) (Blames reg key) (ready ++ components) e := by
  induction components generalizing ready with
  | nil => cases h
  | cons c rest ih =>
    rw [placeFrom] at h
    split at h
    · next missing =>
      cases h
      exact .intro rfl sound (.unknown missing)
    · next design known =>
      split at h
      · next refused =>
        cases h
        exact .intro rfl sound (blames_ofPropError known refused)
      · next props resolved =>
        split at h
        · next failed =>
          cases h
          have next : Resolved reg (ready ++ [c]) := List.forall_mem_append.mpr
            ⟨sound, List.forall_mem_singleton.mpr ⟨design, props, known, resolved⟩⟩
          have more := ih next
          rw [List.length_append, List.length_singleton, ← List.append_cons] at more
          exact more failed
        · cases h

/-- A name that cannot be given below one of the two directories. -/
def Unnameable (l : Layout) (e : GenerationError) : Prop :=
  ∃ rest : String, SitePath.Tidy rest.toList ∧
    (join l.dataDir rest = .error e ∨ join l.appDir rest = .error e)

theorem unnameable_of_componentFiles (route : Route.ofKey key = .ok r) {index : Nat}
    {placed : List PlacedComponent} {e : GenerationError}
    (h : componentFiles l r index placed = .error e) : Unnameable l e := by
  induction placed generalizing index with
  | nil => cases h
  | cons c rest ih =>
    rw [componentFiles] at h
    split at h
    · next failed =>
      cases h
      exact ⟨_, tidy_componentName route index c.type, Or.inl failed⟩
    · split at h
      · next failed =>
        cases h
        exact ih failed
      · cases h

theorem fault_of_pageFiles (route : Route.ofKey key = .ok r) {page : Page} {upper : Option Seo}
    {e : GenerationError} (h : pageFiles g key r page upper = .error e) :
    placeFrom g.registry key r 0 page.components = .error e ∨ Unnameable g.layout e := by
  rcases cases_of_bind_eq_error h with failed | ⟨placed, -, h⟩
  · exact Or.inl failed
  rcases cases_of_bind_eq_error h with failed | ⟨dataPath, -, h⟩
  · exact Or.inr ⟨_, tidy_dataName route, Or.inl failed⟩
  rcases cases_of_bind_eq_error h with failed | ⟨modulePath, -, h⟩
  · rw [routeModulePath_eq] at failed
    exact Or.inr ⟨_, tidy_moduleName route, Or.inr failed⟩
  dsimp only at h
  split at h
  · rcases cases_of_bind_eq_error h with failed | ⟨modules, -, h⟩
    · exact Or.inr (unnameable_of_componentFiles route failed)
    · cases h
  · cases h

theorem resolves_of_made {w : PageWork} (made : w.Made g) :
    ∀ c ∈ w.page.components, g.registry.Resolves c := by
  intro c mem
  rw [← List.zipIdx_map_fst 0 w.page.components] at mem
  obtain ⟨e, he, rfl⟩ := List.mem_map.mp mem
  exact resolves_of_places made.placed e he

/-- A page of a document with its row among the routes. -/
structure RowOf (d : Document) (e : String × Page) (row : String × Route) : Prop where
  key : row.1 = e.1
  page : Dict.get? d.pages e.1 = some e.2
  route : Route.ofKey row.1 = .ok row.2

variable {d : Document} {overrides : SeoOverrides}

theorem rowsOf_pages {pages : List (String × Page)} {routes : List (String × Route)}
    (keys : routes.map Prod.fst = Dict.keys pages)
    (found : ∀ e ∈ pages, Dict.get? d.pages e.1 = some e.2)
    (routed : ∀ row ∈ routes, Route.ofKey row.1 = .ok row.2) :
    List.Forall₂ (RowOf d) pages routes := by
  induction pages generalizing routes with
  | nil =>
    rw [List.map_eq_nil_iff.mp keys]
    exact .nil
  | cons e pages ih =>
    cases routes with
    | nil => cases keys
    | cons row routes =>
      obtain ⟨key, keys⟩ := List.cons.inj keys
      obtain ⟨page, found⟩ := List.forall_mem_cons.mp found
      obtain ⟨route, routed⟩ := List.forall_mem_cons.mp routed
      exact .cons ⟨key, page, route⟩ (ih keys found routed)

theorem rowsOf_routes {routes : List (String × Route)} (h : d.routes = .ok routes) :
    List.Forall₂ (RowOf d) d.pages routes := by
  obtain ⟨keys, routed⟩ := Document.rows_of_routesFrom h
  exact rowsOf_pages keys (fun e he => Dict.get?_of_mem (Document.nodup_of_routesFrom h) he) routed

theorem fault_of_pagesFrom {pages : List (String × Page)} {routes : List (String × Route)}
    (rows : List.Forall₂ (RowOf d) pages routes) {e : GenerationError}
    (h : pagesFrom g d overrides routes = .error e) :
    ComponentFault g.registry pages e ∨ Unnameable g.layout e := by
  induction rows with
  | nil => cases h
  | @cons entry row pages routes first _ ih =>
    obtain ⟨key, page⟩ := entry
    obtain ⟨_, r⟩ := row
    obtain ⟨rfl, here, route⟩ := first
    dsimp only at here route
    rw [pagesFrom, here] at h
    dsimp only at h
    split at h
    · next failed =>
      cases h
      rcases fault_of_pageFiles route failed with unplaced | unnamed
      · have none : Resolved g.registry [] := List.forall_mem_nil _
        have first : Placeable g.registry [] := List.forall_mem_nil _
        exact Or.inl (.intro (List.nil_append _).symm first (fault_of_placeFrom none unplaced))
      · exact Or.inr unnamed
    · next out single =>
      obtain ⟨w, made, source, -⟩ := made_of_pageFiles single route
      obtain ⟨-, rfl⟩ := Prod.mk.inj source
      split at h
      · next failed =>
        cases h
        rcases ih failed with fault | unnamed
        · exact Or.inl (componentFault_cons fault (resolves_of_made made))
        · exact Or.inr unnamed
      · cases h

def place (f : GeneratedFile) : String := f.path.text

theorem repeatedPath_spec {seen : List SitePath} {before files : List GeneratedFile}
    (sound : (before.map place).Nodup) (known : ∀ p : SitePath, p ∈ seen ↔ p.text ∈ before.map place) :
    (repeatedPath seen files = none → ((before ++ files).map place).Nodup) ∧
      ∀ p, repeatedPath seen files = some p →
        PathFault ((before ++ files).map place) (.duplicatePath p.text) := by
  induction files generalizing seen before with
  | nil =>
    rw [List.append_nil]
    exact ⟨fun _ => sound, fun _ h => (by cases h)⟩
  | cons f rest ih =>
    rw [repeatedPath, List.contains_eq_mem]
    split
    · next again =>
      refine ⟨fun h => (by cases h), ?_⟩
      rintro _ ⟨⟩
      rw [List.map_append, List.map_cons]
      exact .intro rfl sound ⟨(known f.path).mp (decide_eq_true_iff.mp again), rfl⟩
    · next fresh =>
      have new : f.path.text ∉ before.map place :=
        fun mem => fresh (decide_eq_true ((known f.path).mpr mem))
      have sound' : ((before ++ [f]).map place).Nodup := by
        rw [List.map_append, List.map_singleton, ← List.concat_eq_append]
        exact sound.concat new
      have known' : ∀ p : SitePath, p ∈ f.path :: seen ↔ p.text ∈ (before ++ [f]).map place := by
        intro p
        rw [List.mem_cons, known, List.map_append, List.mem_append, List.map_singleton,
          List.mem_singleton, or_comm]
        exact or_congr_right SitePath.text_injective.eq_iff.symm
      have more := ih sound' known'
      rwa [← List.append_cons] at more

theorem repeatedPath_all (files : List GeneratedFile) :
    (repeatedPath [] files = none → (files.map place).Nodup) ∧
      ∀ p, repeatedPath [] files = some p → PathFault (files.map place) (.duplicatePath p.text) :=
  have sound : (([] : List GeneratedFile).map place).Nodup := List.nodup_nil
  repeatedPath_spec sound (by simp)

theorem fault_of_generate {e : GenerationError} (h : g.generate d overrides = .error e) :
    Document.RouteFault (Dict.keys d.pages) e ∨
      Document.Routable (Dict.keys d.pages) ∧ (ComponentFault g.registry d.pages e ∨
        Unnameable g.layout e ∨
        ∃ works index files, Composed g d overrides works index files ∧
          PathFault (files.map place) e) := by
  unfold generate at h
  split at h
  · next failed =>
    cases h
    exact Or.inl (d.routes_spec.2 _ failed)
  · next routes hr =>
    refine Or.inr ⟨d.routes_spec.1 _ hr, ?_⟩
    split at h
    · next failed =>
      cases h
      rcases fault_of_pagesFrom (rowsOf_routes hr) failed with fault | unnamed
      · exact Or.inl fault
      · exact Or.inr (Or.inl unnamed)
    · next files entries built =>
      split at h
      · next failed =>
        cases h
        exact Or.inr (Or.inl ⟨_, tidy_indexName, Or.inl failed⟩)
      · next index index_eq =>
        obtain ⟨works, composed⟩ := composed_of_pagesFrom hr built index_eq
        dsimp only at h
        split at h
        · next again =>
          cases h
          exact Or.inr (Or.inr ⟨works, index, _, composed,
            (repeatedPath_all _).2 _ again⟩)
        · cases h

theorem nodup_of_generate {files : List GeneratedFile} (h : g.generate d overrides = .ok files) :
    (files.map place).Nodup := by
  unfold generate at h
  split at h
  · cases h
  · split at h
    · cases h
    · split at h
      · cases h
      · dsimp only at h
        split at h
        · cases h
        · next fresh =>
          cases h
          exact (repeatedPath_all _).1 fresh

theorem nodup_paths_of_generate {files : List GeneratedFile}
    (h : g.generate d overrides = .ok files) : (files.map GeneratedFile.path).Nodup := by
  apply List.Nodup.of_map SitePath.text
  rw [List.map_map]
  exact nodup_of_generate h

end Generator

end SitePublish
