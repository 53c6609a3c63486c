import Mathlib.Algebra.Group.Nat.Defs
import Mathlib.Data.List.Basic
import SitePublish.Content

/-!
# Framed entries

A part behind its length can be told from what follows it, whatever bytes it has, as long as the
length fits into its word. So the bytes that identify a sequence of entries stand for no other
sequence, however the entries are cut, and two sequences have one hash only where the digest takes
two messages for each other.
-/

set_option autoImplicit false

namespace SitePublish

namespace Digest

theorem hexBytes_injective : Function.Injective hexBytes := by
  intro bytes bytes' same
  have read := bytesOfHex?_hexBytes bytes
  rw [same, bytesOfHex?_hexBytes] at read
  exact (Option.some.inj read).symm

@[simp] theorem length_littleEndian (n v : Nat) : (littleEndian n v).length = n := by
  induction n generalizing v with
  | zero => rfl
  | succ n ih => rw [littleEndian, List.length_cons, ih]

def ofLittleEndian : List UInt8 → Nat
  | [] => 0
  | b :: bytes => b.toNat + 256 * ofLittleEndian bytes

theorem ofLittleEndian_littleEndian {n v : Nat} (fits : v < 256 ^ n) :
    ofLittleEndian (littleEndian n v) = v := by
  induction n generalizing v with
  | zero => exact (Nat.lt_one_iff.mp fits).symm
  | succ n ih =>
    have high : v / 256 < 256 ^ n := Nat.div_lt_of_lt_mul (by rwa [Nat.pow_succ'] at fits)
    rw [littleEndian, ofLittleEndian, ih high, UInt8.toNat_ofNat_of_lt' (Nat.mod_lt v (by decide))]
    exact Nat.mod_add_div v 256

/-- Two messages that the digest takes for each other. -/
def Sha256.Collide (m m' : List UInt8) : Prop := m ≠ m' ∧ digest m = digest m'

instance (m m' : List UInt8) : Decidable (Sha256.Collide m m') :=
  inferInstanceAs (Decidable (m ≠ m' ∧ Sha256.digest m = Sha256.digest m'))

theorem Sha256.hex_eq_iff {m m' : List UInt8} (apart : ¬ Collide m m') :
    hex m = hex m' ↔ m = m' := by
  constructor
  · intro same
    by_contra differ
    exact apart ⟨differ, hexBytes_injective same⟩
  · exact congrArg hex

end Digest

namespace ContentHash

def Fits (part : List UInt8) : Prop := part.length < 2 ^ 64

instance (part : List UInt8) : Decidable (Fits part) :=
  inferInstanceAs (Decidable (part.length < 2 ^ 64))

theorem Fits.length_eq {part : List UInt8} (fits : Fits part) :
    Digest.ofLittleEndian (Digest.littleEndian 8 part.length) = part.length :=
  Digest.ofLittleEndian_littleEndian (show part.length < 256 ^ 8 from fits)

/-- A framed part ends where it says, so it can be told from all that follows. -/
theorem framed_append_inj {part part' rest rest' : List UInt8} (fits : Fits part)
    (fits' : Fits part') (same : framed part ++ rest = framed part' ++ rest') :
    part = part' ∧ rest = rest' := by
  rw [framed, framed, List.append_assoc, List.append_assoc] at same
  obtain ⟨words, behind⟩ := List.append_inj same (by simp)
  have lengths : part.length = part'.length := by
    rw [← fits.length_eq, words, fits'.length_eq]
  exact List.append_inj behind lengths

def Framable (entries : List (String × List UInt8)) : Prop :=
  ∀ e ∈ entries, Fits (Text.utf8 e.1) ∧ Fits e.2

instance (entries : List (String × List UInt8)) : Decidable (Framable entries) :=
  inferInstanceAs (Decidable (∀ e ∈ entries, Fits (Text.utf8 e.1) ∧ Fits e.2))

theorem stream_cons (e : String × List UInt8) (entries : List (String × List UInt8)) :
    stream (e :: entries) = framed (Text.utf8 e.1) ++ (framed e.2 ++ stream entries) := by
  rw [stream, List.flatMap_cons, List.append_assoc, stream]

theorem stream_cons_ne_nil (e : String × List UInt8) (entries : List (String × List UInt8)) :
    stream (e :: entries) ≠ [] := by
  rw [stream_cons, framed, List.append_assoc]
  exact List.append_ne_nil_of_left_ne_nil (List.ne_nil_of_length_pos (by simp)) _

theorem stream_inj {entries entries' : List (String × List UInt8)} (h : Framable entries)
    (h' : Framable entries') (same : stream entries = stream entries') : entries = entries' := by
  induction entries generalizing entries' with
  | nil =>
    cases entries' with
    | nil => rfl
    | cons e' entries' => exact absurd same.symm (stream_cons_ne_nil e' entries')
  | cons e entries ih =>
    cases entries' with
    | nil => exact absurd same (stream_cons_ne_nil e entries)
    | cons e' entries' =>
      obtain ⟨⟨path, content⟩, rest⟩ := List.forall_mem_cons.mp h
      obtain ⟨⟨path', content'⟩, rest'⟩ := List.forall_mem_cons.mp h'
      rw [stream_cons, stream_cons] at same
      obtain ⟨paths, same⟩ := framed_append_inj path path' same
      obtain ⟨contents, same⟩ := framed_append_inj content content' same
      have texts : e.1 = e'.1 := by
        have read := Text.ofUtf8?_utf8 e.1
        rw [paths, Text.ofUtf8?_utf8] at read
        exact (Option.some.inj read).symm
      rw [Prod.ext texts contents, ih rest rest' same]

/-- Where the digest tells their bytes apart, sequences of entries have the same hash just when they
are the same. -/
theorem ofEntries_eq_iff {entries entries' : List (String × List UInt8)} (h : Framable entries)
    (h' : Framable entries') (apart : ¬ Digest.Sha256.Collide (stream entries) (stream entries')) :
    ofEntries entries = ofEntries entries' ↔ entries = entries' := by
  have same_iff : ofEntries entries = ofEntries entries' ↔
      Digest.Sha256.hex (stream entries) = Digest.Sha256.hex (stream entries') := by
    simp only [ofEntries, ofBytes, ContentHash.mk.injEq, String.append_right_inj]
  rw [same_iff, Digest.Sha256.hex_eq_iff apart]
  exact ⟨stream_inj h h', congrArg stream⟩

end ContentHash

end SitePublish
