/-!
# Hexadecimal text

Two lowercase digits for a byte, the high half first.
-/

set_option autoImplicit false

namespace SitePublish.Digest

def hexDigit (n : Nat) : Char :=
  if n < 10 then Char.ofNat (48 + n) else Char.ofNat (87 + n)

def hexByte (b : UInt8) : List Char := [hexDigit (b.toNat / 16), hexDigit (b.toNat % 16)]

def hexBytes (bytes : List UInt8) : String := String.ofList (bytes.flatMap hexByte)

def hexValue? (c : Char) : Option Nat :=
  if '0' ≤ c ∧ c ≤ '9' then some (c.toNat - 48)
  else if 'a' ≤ c ∧ c ≤ 'f' then some (c.toNat - 87)
  else if 'A' ≤ c ∧ c ≤ 'F' then some (c.toNat - 55)
  else none

theorem hexValue?_hexDigit : ∀ n < 16, hexValue? (hexDigit n) = some n := by decide

def bytesOfHex? : List Char → Option (List UInt8)
  | [] => some []
  | [_] => none
  | a :: b :: rest => do
    let high ← hexValue? a
    let low ← hexValue? b
    let bytes ← bytesOfHex? rest
    return UInt8.ofNat (16 * high + low) :: bytes

theorem bytesOfHex?_hexBytes (bytes : List UInt8) :
    bytesOfHex? (hexBytes bytes).toList = some bytes := by
  rw [hexBytes, String.toList_ofList]
  induction bytes with
  | nil => rfl
  | cons b bytes ih =>
    have high := hexValue?_hexDigit (b.toNat / 16) (by have := b.toNat_lt; omega)
    have low := hexValue?_hexDigit (b.toNat % 16) (Nat.mod_lt _ (by decide))
    have halves : 16 * (b.toNat / 16) + b.toNat % 16 = b.toNat := Nat.div_add_mod b.toNat 16
    rw [List.flatMap_cons, hexByte, List.cons_append, List.cons_append, List.nil_append,
      bytesOfHex?, high, low, ih]
    simp only [Option.bind_eq_bind, Option.bind_some, Option.pure_def, halves, UInt8.ofNat_toNat]

end SitePublish.Digest
