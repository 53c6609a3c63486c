import SitePublish.Content

/-!
# Output layouts

Where generated files land: page data and the page index below one directory, route modules below
another. A path is owned when only the generator writes to it.
-/

set_option autoImplicit false

namespace SitePublish

structure Layout where
  dataDir : SitePath
  appDir : SitePath
  /-- The module from which route modules import the renderer. -/
  rendererImport : String
  /-- Whether every component also gets a module of its own. -/
  componentModules : Bool
deriving DecidableEq

namespace Layout

def routeModuleFile : String := "page.tsx"

def indexFile : String := "_index.ts"

def standardDataDir : SitePath :=
  { text := "src/data/pages"
    normal := ⟨["src".toList, "data".toList, "pages".toList], by simp,
      by simp [SitePath.IsSegment], rfl⟩ }

def standardAppDir : SitePath :=
  { text := "src/app"
    normal := ⟨["src".toList, "app".toList], by simp, by simp [SitePath.IsSegment], rfl⟩ }

def standard : Layout := ⟨standardDataDir, standardAppDir, "@/components/PageRenderer", false⟩

def owns (l : Layout) (p : SitePath) : Bool :=
  p.isUnder l.dataDir.text || (p.isUnder l.appDir.text && p.fileName = routeModuleFile)

end Layout

end SitePublish
