import SitePublish.Digest.Block
import SitePublish.Digest.Hex

/-!
# SHA-1

The digest of FIPS 180-4 over a list of bytes.
-/

set_option autoImplicit false

namespace SitePublish.Digest.Sha1

structure State where
  a : UInt32
  b : UInt32
  c : UInt32
  d : UInt32
  e : UInt32

def initial : State := ⟨0x67452301, 0xefcdab89, 0x98badcfe, 0x10325476, 0xc3d2e1f0⟩

def nextWord (w : Array UInt32) : UInt32 :=
  rotateLeft (recent w 3 ^^^ recent w 8 ^^^ recent w 14 ^^^ recent w 16) 1

def schedule (block : List UInt32) : List UInt32 :=
  (extendSchedule nextWord 64 block.toArray).toList

def mix (t : Nat) (b c d : UInt32) : UInt32 × UInt32 :=
  if t < 20 then ((b &&& c) ||| (~~~b &&& d), 0x5a827999)
  else if t < 40 then (b ^^^ c ^^^ d, 0x6ed9eba1)
  else if t < 60 then ((b &&& c) ||| (b &&& d) ||| (c &&& d), 0x8f1bbcdc)
  else (b ^^^ c ^^^ d, 0xca62c1d6)

def round (s : State) (tw : UInt32 × Nat) : State :=
  let fk := mix tw.2 s.b s.c s.d
  ⟨rotateLeft s.a 5 + fk.1 + s.e + fk.2 + tw.1, s.a, rotateLeft s.b 30, s.c, s.d⟩

def compress (s : State) (block : List UInt32) : State :=
  let t := (schedule block).zipIdx.foldl round s
  ⟨s.a + t.a, s.b + t.b, s.c + t.c, s.d + t.d, s.e + t.e⟩

def digest (message : List UInt8) : List UInt8 :=
  let s := (blocks message).foldl compress initial
  [s.a, s.b, s.c, s.d, s.e].flatMap wordBytes

def hex (message : List UInt8) : String := hexBytes (digest message)

end SitePublish.Digest.Sha1
