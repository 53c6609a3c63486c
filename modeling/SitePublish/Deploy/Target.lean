import SitePublish.Text.Blank
import SitePublish.Text.LetterCase

/-!
# Deployment targets

The environment that a deployment is for. A preview only reports what the filter would drop; a
production deployment drops it.
-/

set_option autoImplicit false

namespace SitePublish

inductive Target where
  | preview
  | production
deriving DecidableEq

namespace Target

def standard : Target := .preview

def name : Target → String
  | .preview => "preview"
  | .production => "production"

def appliesExclusions (t : Target) : Bool := t = .production

/-- The target that a word names, whatever its case; otherwise the word that was not understood. -/
def parse (s : String) : Except String Target :=
  let word := Text.asciiLower (Text.trim s)
  if word = "preview" ∨ word = "dev" ∨ word = "development" then .ok .preview
  else if word = "production" ∨ word = "prod" then .ok .production
  else .error word

def unknownMessage (word : String) : String :=
  "unknown deploy target '" ++ word ++ "' (expected 'preview' or 'production')"

end Target

end SitePublish
