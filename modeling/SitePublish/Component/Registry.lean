import SitePublish.Component.Field

/-!
# Designs and their registry

The closed set of designs that a page may use. A list of designs is accepted when the names are
distinct and each design has distinct, well-formed field keys and defaults that its fields take.
The first fault in the order of the list is reported, a design's fields before its own name.
-/

set_option autoImplicit false

namespace SitePublish

structure Design where
  name : String
  fields : List Field
deriving DecidableEq

def Design.field? (d : Design) (key : String) : Option Field := d.fields.find? (·.key = key)

inductive RegistryError where
  | duplicateDesign (name : String)
  | duplicateField (design field : String)
  | invalidDefault (design field : String) (kind : FieldKind)
  | invalidKey (design field : String)
deriving DecidableEq

def RegistryError.message : RegistryError → String
  | .duplicateDesign name => "design '" ++ name ++ "' is registered twice"
  | .duplicateField d f => "design '" ++ d ++ "' declares field '" ++ f ++ "' twice"
  | .invalidDefault d f kind =>
    "design '" ++ d ++ "' field '" ++ f ++ "' has a default that is not " ++ kind.expectation
  | .invalidKey d f => "design '" ++ d ++ "' field '" ++ f ++ "' has an invalid key"

structure Registry where
  designs : Dict String Design
deriving DecidableEq

namespace Registry

def checkFields (design : String) (seen : List String) : List Field → Except RegistryError Unit
  | [] => .ok ()
  | f :: rest =>
    if !f.hasValidKey then .error (.invalidKey design f.key)
    else if seen.contains f.key then .error (.duplicateField design f.key)
    else if !f.kind.accepts f.default then .error (.invalidDefault design f.key f.kind)
    else checkFields design (f.key :: seen) rest

def addDesigns (accepted : Dict String Design) : List Design → Except RegistryError Registry
  | [] => .ok ⟨accepted⟩
  | d :: rest =>
    match checkFields d.name [] d.fields with
    | .error e => .error e
    | .ok () =>
      if accepted.contains d.name then .error (.duplicateDesign d.name)
      else addDesigns (accepted.insert d.name d) rest

def ofDesigns (designs : List Design) : Except RegistryError Registry := addDesigns [] designs

def get? (r : Registry) (name : String) : Option Design := Dict.get? r.designs name

def contains (r : Registry) (name : String) : Bool := Dict.contains r.designs name

def names (r : Registry) : List String := Dict.keys r.designs

def size (r : Registry) : Nat := r.designs.length

def isEmpty (r : Registry) : Bool := r.designs.isEmpty

def builtinDesigns : List Design :=
  [⟨"Navbar",
    [⟨"brandName", .text, .str "My Site"⟩,
     ⟨"logo", .image, .str ""⟩,
     ⟨"links", .items, .arr [.obj [("href", .str "/"), ("title", .str "Home")]]⟩,
     ⟨"backgroundColor", .color, .str "#ffffff"⟩,
     ⟨"textColor", .color, .str "#111827"⟩]⟩,
   ⟨"Hero",
    [⟨"title", .text, .str "Welcome"⟩,
     ⟨"subtitle", .text, .str ""⟩,
     ⟨"ctaText", .text, .str "Get started"⟩,
     ⟨"ctaLink", .text, .str "#"⟩,
     ⟨"images.main", .image, .str ""⟩,
     ⟨"background", .gradient, .str "linear-gradient(135deg, #6366f1 0%, #8b5cf6 100%)"⟩,
     ⟨"textColor", .color, .str "#ffffff"⟩]⟩,
   ⟨"Features",
    [⟨"heading", .text, .str "Features"⟩,
     ⟨"subheading", .text, .str ""⟩,
     ⟨"items", .items, .arr []⟩,
     ⟨"backgroundColor", .color, .str "#ffffff"⟩]⟩,
   ⟨"Testimonials",
    [⟨"heading", .text, .str "What our customers say"⟩,
     ⟨"testimonials", .testimonials, .arr []⟩,
     ⟨"backgroundColor", .color, .str "#f9fafb"⟩]⟩,
   ⟨"Gallery",
    [⟨"heading", .text, .str "Gallery"⟩,
     ⟨"images", .items, .arr []⟩]⟩,
   ⟨"CallToAction",
    [⟨"title", .text, .str "Ready to get started?"⟩,
     ⟨"buttonText", .text, .str "Contact us"⟩,
     ⟨"buttonLink", .text, .str "#contact"⟩,
     ⟨"background", .gradient, .obj [("from", .str "#0ea5e9"), ("to", .str "#6366f1")]⟩]⟩,
   ⟨"Footer",
    [⟨"copyright", .text, .str ""⟩,
     ⟨"links", .items, .arr []⟩,
     ⟨"backgroundColor", .color, .str "#111827"⟩,
     ⟨"textColor", .color, .str "#f9fafb"⟩]⟩]

def builtin : Registry :=
  ⟨Dict.ofList (builtinDesigns.map fun d => (d.name, d))⟩

end Registry

end SitePublish
