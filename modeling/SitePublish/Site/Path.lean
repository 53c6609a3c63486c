import SitePublish.Text.Blank
import SitePublish.Text.LetterCase
import SitePublish.Text.Split

/-!
# Site paths

A path inside the generated project: segments joined by slashes, none of them empty, a dot or two
dots. Text from outside is trimmed, its backslashes become slashes and its empty and dot segments
are dropped; two dots are refused, so no path leads out of the project.
-/

set_option autoImplicit false

namespace SitePublish

inductive PathError where
  | containsTraversal
  | empty
deriving DecidableEq

def PathError.message : PathError → String
  | .containsTraversal => "path contains traversal components (..)"
  | .empty => "path is empty"

namespace SitePath

def IsSegment (s : List Char) : Prop :=
  s ≠ [] ∧ s ≠ ['.'] ∧ s ≠ ['.', '.'] ∧ '/' ∉ s ∧ '\\' ∉ s

def IsNormal (s : List Char) : Prop :=
  ∃ segments : List (List Char), segments ≠ [] ∧ (∀ p ∈ segments, IsSegment p) ∧
    s = Text.joinChars '/' segments

end SitePath

structure SitePath where
  text : String
  normal : SitePath.IsNormal text.toList
deriving DecidableEq

namespace SitePath

def slashed (c : Char) : Char := if c = '\\' then '/' else c

def rawSegments (raw : String) : List (List Char) :=
  Text.splitChars '/' ((Text.trimChars raw.toList).map slashed)

def isKept (s : List Char) : Bool := s ≠ [] && s ≠ ['.']

theorem not_mem_of_mem_splitChars {sep : Char} {s p : List Char}
    (h : p ∈ Text.splitChars sep s) : sep ∉ p := by
  induction s generalizing p with
  | nil => simp [Text.splitChars] at h; simp [h]
  | cons c s ih =>
    simp only [Text.splitChars] at h
    split at h
    · rcases List.mem_cons.mp h with rfl | h
      · simp
      · exact ih h
    · next hc =>
      split at h
      · simp at h
        simp [h, Ne.symm hc]
      · next q qs hq =>
        rcases List.mem_cons.mp h with rfl | h
        · have := ih (p := q) (by simp [hq])
          simp [Ne.symm hc, this]
        · exact ih (by simp [hq, h])

theorem subset_of_mem_splitChars {sep : Char} {s p : List Char}
    (h : p ∈ Text.splitChars sep s) : ∀ c ∈ p, c ∈ s := by
  induction s generalizing p with
  | nil => simp [Text.splitChars] at h; simp [h]
  | cons c s ih =>
    simp only [Text.splitChars] at h
    split at h
    · rcases List.mem_cons.mp h with rfl | h
      · simp
      · intro d hd
        exact List.mem_cons_of_mem _ (ih h d hd)
    · split at h
      · simp at h
        simp [h]
      · next q qs hq =>
        rcases List.mem_cons.mp h with rfl | h
        · intro d hd
          rcases List.mem_cons.mp hd with rfl | hd
          · simp
          · exact List.mem_cons_of_mem _ (ih (p := q) (by simp [hq]) d hd)
        · intro d hd
          exact List.mem_cons_of_mem _ (ih (p := p) (by simp [hq, h]) d hd)

theorem backslash_not_mem_rawSegments {raw : String} {p : List Char}
    (h : p ∈ rawSegments raw) : '\\' ∉ p := by
  intro hb
  have := subset_of_mem_splitChars h _ hb
  simp only [List.mem_map, slashed] at this
  obtain ⟨c, -, hc⟩ := this
  split at hc
  · exact absurd hc (by decide)
  · next h => exact h hc

def ofText (raw : String) : Except PathError SitePath :=
  if hd : ['.', '.'] ∈ rawSegments raw then .error .containsTraversal
  else if he : (rawSegments raw).filter isKept = [] then .error .empty
  else .ok
    { text := String.ofList (Text.joinChars '/' ((rawSegments raw).filter isKept))
      normal := by
        refine ⟨_, he, ?_, by simp⟩
        intro p hp
        obtain ⟨hp, hk⟩ := List.mem_filter.mp hp
        simp only [isKept, ne_eq, decide_not, Bool.and_eq_true, Bool.not_eq_eq_eq_not,
          Bool.not_true, decide_eq_false_iff_not] at hk
        exact ⟨hk.1, hk.2, fun h => hd (h ▸ hp), not_mem_of_mem_splitChars hp,
          backslash_not_mem_rawSegments hp⟩ }

instance : LT SitePath := ⟨fun p q => p.text < q.text⟩

instance : DecidableLT SitePath := fun p q => inferInstanceAs (Decidable (p.text < q.text))

def segments (p : SitePath) : List String := Text.splitOn '/' p.text

def lastSegment (s : List Char) : List Char :=
  match Text.cutLast '/' s with
  | some (_, name) => name
  | none => s

def fileName (p : SitePath) : String := String.ofList (lastSegment p.text.toList)

/-- A name before and after its last dot; a dot in front is part of the name. -/
def cutExtension (name : List Char) : List Char × Option (List Char) :=
  match Text.cutLast '.' name with
  | some ([], _) => (name, none)
  | some (stem, ext) => (stem, some ext)
  | none => (name, none)

def fileStem (p : SitePath) : String :=
  String.ofList (cutExtension (lastSegment p.text.toList)).1

def extension (p : SitePath) : Option String :=
  (cutExtension (lastSegment p.text.toList)).2.map fun e => Text.asciiLower (String.ofList e)

def isRootFile (p : SitePath) : Bool := !p.text.toList.contains '/'

/-- The directory itself or something below it; slashes at the end of `dir` do not count. -/
def isUnder (p : SitePath) (dir : String) : Bool :=
  match Text.stripPrefix (Text.dropWhileEnd (· = '/') dir.toList) p.text.toList with
  | some [] => true
  | some (c :: _) => c = '/'
  | none => false

end SitePath

end SitePublish
