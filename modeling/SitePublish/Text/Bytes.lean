/-!
# Bytes of a text

The UTF-8 form of a text as a list of bytes, and back where the bytes are a text.
-/

set_option autoImplicit false

namespace SitePublish.Text

def utf8 (s : String) : List UInt8 := s.toUTF8.data.toList

def ofUtf8? (bytes : List UInt8) : Option String := String.fromUTF8? ⟨bytes.toArray⟩

theorem ofUtf8?_utf8 (s : String) : ofUtf8? (utf8 s) = some s := by
  have h : (⟨(utf8 s).toArray⟩ : ByteArray) = s.toByteArray := by
    simp [utf8, String.toUTF8]
  rw [ofUtf8?, String.fromUTF8?, h]
  simp only [s.isValidUTF8, ↓reduceDIte, Option.some.injEq]
  rfl

theorem utf8_of_ofUtf8? {bytes : List UInt8} {s : String} (h : ofUtf8? bytes = some s) :
    utf8 s = bytes := by
  simp only [ofUtf8?, String.fromUTF8?] at h
  split at h
  · cases h
    simp [utf8, String.toUTF8, String.fromUTF8]
  · cases h

theorem utf8_append (s t : String) : utf8 (s ++ t) = utf8 s ++ utf8 t := by
  simp [utf8, String.toUTF8, String.toByteArray_append]

/-- Lines of bytes: a line feed ends a line, and a carriage return right before it belongs to the
ending. `line` holds the bytes of the current line in reverse. -/
def byteLinesFrom (line : List UInt8) : List UInt8 → List (List UInt8)
  | [] => if line.isEmpty then [] else [line.reverse]
  | b :: rest =>
    if b = 10 then
      (match line with
        | 13 :: before => before.reverse
        | _ => line.reverse) :: byteLinesFrom [] rest
    else byteLinesFrom (b :: line) rest

def byteLines (bytes : List UInt8) : List (List UInt8) := byteLinesFrom [] bytes

end SitePublish.Text
