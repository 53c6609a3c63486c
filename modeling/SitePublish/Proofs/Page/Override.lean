import SitePublish.Proofs.Page.Locality

/-!
# Overrides as edits

An override says nothing that an edit of its page could not say. The page takes the fields that the
override has and keeps its own for the others, and the document with its pages so edited is
generated like the first one with the overrides. Which fields are present decides, not what they
hold, so an empty text covers a title as any other does. Overrides over overrides are edits of an
edited document.
-/

set_option autoImplicit false

namespace SitePublish

namespace Seo

theorem empty_overlay (upper : Seo) : empty.overlay upper = upper := by
  simp only [overlay, empty, Option.or_none]

theorem overlay_assoc (base middle upper : Seo) :
    (base.overlay middle).overlay upper = base.overlay (middle.overlay upper) := by
  simp only [overlay, Option.or_assoc]

end Seo

namespace Page

def overlaid (p : Page) : Option Seo → Page
  | none => p
  | some upper => { p with seo := some ((p.seo.getD Seo.empty).overlay upper) }

theorem components_overlaid (p : Page) (upper : Option Seo) :
    (p.overlaid upper).components = p.components := by
  cases upper <;> rfl

theorem overlaid_overlaid (p : Page) (middle upper : Option Seo) :
    (p.overlaid middle).overlaid upper = p.overlaid (middle.merge Seo.overlay upper) := by
  cases middle with
  | none => cases upper <;> rfl
  | some m =>
    cases upper with
    | none => rfl
    | some u => simp only [overlaid, Option.getD_some, Seo.overlay_assoc, Option.merge]

end Page

namespace SeoOverrides

def overlay (lower upper : SeoOverrides) : SeoOverrides :=
  Dict.insertAll lower
    (upper.map fun e => (e.1, ((lower.get? e.1).getD Seo.empty).overlay e.2)).reverse

theorem get?_overlay (lower upper : SeoOverrides) (key : String) :
    Dict.get? (lower.overlay upper) key =
      (Dict.get? lower key).merge Seo.overlay (Dict.get? upper key) := by
  rw [overlay, Dict.get?_insertAll_eq, List.reverse_reverse,
    Dict.get?_map_entries fun k u => ((lower.get? k).getD Seo.empty).overlay u]
  cases Dict.get? upper key with
  | none => cases Dict.get? lower key <;> rfl
  | some u =>
    cases Dict.get? lower key with
    | none => exact congrArg some (Seo.empty_overlay u)
    | some l => rfl

end SeoOverrides

namespace Document

def overlaid (d : Document) (o : SeoOverrides) : Document :=
  { d with pages := d.pages.map fun e => (e.1, e.2.overlaid (o.get? e.1)) }

variable (d : Document) (o o' : SeoOverrides)

theorem keys_overlaid : Dict.keys (d.overlaid o).pages = Dict.keys d.pages :=
  Dict.keys_map_entries (fun key (p : Page) => p.overlaid (o.get? key)) d.pages

theorem get?_overlaid (key : String) : Dict.get? (d.overlaid o).pages key =
    (Dict.get? d.pages key).map fun p => p.overlaid (o.get? key) :=
  Dict.get?_map_entries (fun key (p : Page) => p.overlaid (o.get? key)) d.pages key

theorem overlaid_overlaid : (d.overlaid o).overlaid o' = d.overlaid (o.overlay o') := by
  have pages (e : String × Page) :
      (e.1, (e.2.overlaid (o.get? e.1)).overlaid (o'.get? e.1)) =
        (e.1, e.2.overlaid (Dict.get? (o.overlay o') e.1)) := by
    rw [Page.overlaid_overlaid, SeoOverrides.get?_overlay]
  simp only [overlaid, List.map_map, Function.comp_def, pages]

variable {d o o'}

theorem overlaid_congr (agree : Generator.Agree o o' d) : d.overlaid o = d.overlaid o' := by
  have pages : d.pages.map (fun e => (e.1, e.2.overlaid (o.get? e.1))) =
      d.pages.map fun e => (e.1, e.2.overlaid (o'.get? e.1)) := by
    apply List.map_congr_left
    intro e mem
    rw [agree e.1 (List.mem_map_of_mem mem)]
  rw [overlaid, overlaid, pages]

end Document

namespace Generator

namespace SeoBlock

theorem ofPage_overlaid (p : Page) (upper : Option Seo) (r : Route) :
    ofPage (p.overlaid upper) none r = ofPage p upper r := by
  cases upper <;> rfl

/-- A field that the override leaves out is what it is without the override. -/
theorem ofPage_some (p : Page) (upper : Seo) (r : Route) :
    ofPage p (some upper) r =
      ⟨upper.title.getD (ofPage p none r).title,
        upper.description.getD (ofPage p none r).description,
        upper.keywords.getD (ofPage p none r).keywords,
        upper.ogImage.or (ofPage p none r).ogImage⟩ := by
  obtain ⟨title, description, keywords, image⟩ := upper
  cases title <;> cases description <;> cases keywords <;> cases image <;> rfl

end SeoBlock

variable (g : Generator) (d : Document) (o : SeoOverrides)

theorem pageFiles_overlaid (key : String) (r : Route) (page : Page) (upper : Option Seo) :
    pageFiles g key r (page.overlaid upper) none = pageFiles g key r page upper := by
  rw [pageFiles, pageFiles, SeoBlock.ofPage_overlaid, Page.components_overlaid]

theorem pagesFrom_overlaid (routes : List (String × Route)) :
    pagesFrom g (d.overlaid o) [] routes = pagesFrom g d o routes := by
  induction routes with
  | nil => rfl
  | cons row rest ih =>
    obtain ⟨key, r⟩ := row
    have nothing : Dict.get? ([] : SeoOverrides) key = none := rfl
    rw [pagesFrom, pagesFrom, Document.get?_overlaid, ih]
    cases Dict.get? d.pages key with
    | none => rfl
    | some page => simp only [Option.map_some, nothing, pageFiles_overlaid]

theorem generate_overlaid : g.generate (d.overlaid o) [] = g.generate d o := by
  have routes : (d.overlaid o).routes = d.routes := by
    rw [Document.routes, Document.routes, Document.keys_overlaid]
  simp only [generate, routes, pagesFrom_overlaid]

/-- A document is generated with overrides as it is, edited by them, without any. Overrides for
other pages change nothing, a field that an override leaves out stays what it is without the
override, and overrides after others come to those laid over the others. -/
theorem overrides_are_edits :
    g.generate d o = g.generate (d.overlaid o) [] ∧
    (∀ o', Agree o o' d → g.generate d o = g.generate d o') ∧
    (∀ (p : Page) (upper : Seo) (r : Route), SeoBlock.ofPage p (some upper) r =
      ⟨upper.title.getD (SeoBlock.ofPage p none r).title,
        upper.description.getD (SeoBlock.ofPage p none r).description,
        upper.keywords.getD (SeoBlock.ofPage p none r).keywords,
        upper.ogImage.or (SeoBlock.ofPage p none r).ogImage⟩) ∧
    ∀ o', (d.overlaid o).overlaid o' = d.overlaid (o.overlay o') ∧
      g.generate (d.overlaid o) o' = g.generate d (o.overlay o') := by
  refine ⟨(g.generate_overlaid d o).symm, fun o' agree => ?_, SeoBlock.ofPage_some, fun o' => ?_⟩
  · rw [← generate_overlaid, ← generate_overlaid g d o', Document.overlaid_congr agree]
  · have both := d.overlaid_overlaid o o'
    exact ⟨both, by rw [← generate_overlaid, ← generate_overlaid g d (o.overlay o'), both]⟩

end Generator

/-- Overrides for both pages of the card document, one with an empty title, and for a page that it
does not have. -/
def cardOverrides : SeoOverrides :=
  [("Blog/First post", ⟨some "", none, none, none⟩), ("about", ⟨some "About", none, none, none⟩),
    ("index", ⟨none, some "Cards", some [], none⟩)]

def cardBlocks : List (String × Option Seo) :=
  [("index", some ⟨none, some "Cards", some [], none⟩),
    ("Blog/First post", some ⟨some "", none, some ["news"], some "/cover.png"⟩)]

theorem card_overrides_are_edits :
    (cardDocument.overlaid cardOverrides).pages.map (fun e => (e.1, e.2.seo)) = cardBlocks ∧
    (cardGenerator.generate cardDocument cardOverrides).isOk = true ∧
    cardGenerator.generate cardDocument cardOverrides =
      cardGenerator.generate (cardDocument.overlaid cardOverrides) [] ∧
    Generator.Agree cardOverrides (cardOverrides.erase "about") cardDocument ∧
    cardGenerator.generate cardDocument cardOverrides =
      cardGenerator.generate cardDocument (cardOverrides.erase "about") := by
  have agree : Generator.Agree cardOverrides (cardOverrides.erase "about") cardDocument := by
    unfold Generator.Agree
    decide
  obtain ⟨edited, others, -⟩ :=
    Generator.overrides_are_edits cardGenerator cardDocument cardOverrides
  exact ⟨by decide, by decide +kernel, edited, agree, others _ agree⟩

end SitePublish
