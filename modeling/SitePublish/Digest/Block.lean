/-!
# Message blocks

Both digests read a message as big-endian words of 32 bits in blocks of sixteen. A message is
closed by a one bit, zero bits up to 56 bytes of a block, and its length in bits.
-/

set_option autoImplicit false

namespace SitePublish.Digest

def bigEndian : Nat → Nat → List UInt8
  | 0, _ => []
  | n + 1, v => bigEndian n (v / 256) ++ [UInt8.ofNat (v % 256)]

def littleEndian : Nat → Nat → List UInt8
  | 0, _ => []
  | n + 1, v => UInt8.ofNat (v % 256) :: littleEndian n (v / 256)

def padded (message : List UInt8) : List UInt8 :=
  message ++ 0x80 :: List.replicate ((119 - message.length % 64) % 64) 0
    ++ bigEndian 8 (8 * message.length)

def word (a b c d : UInt8) : UInt32 :=
  (a.toUInt32 <<< 24) ||| (b.toUInt32 <<< 16) ||| (c.toUInt32 <<< 8) ||| d.toUInt32

/-- An incomplete last word is dropped; `padded` leaves none. -/
def words : List UInt8 → List UInt32
  | a :: b :: c :: d :: rest => word a b c d :: words rest
  | _ => []

/-- Groups of sixteen, filled in order; an incomplete last group is dropped. -/
def blocksFrom (block : List UInt32) (room : Nat) : List UInt32 → List (List UInt32)
  | [] => []
  | w :: rest =>
    match room with
    | 0 => []
    | 1 => (w :: block).reverse :: blocksFrom [] 16 rest
    | room + 2 => blocksFrom (w :: block) (room + 1) rest

def blocks (message : List UInt8) : List (List UInt32) :=
  blocksFrom [] 16 (words (padded message))

def rotateLeft (w : UInt32) (n : UInt32) : UInt32 := (w <<< n) ||| (w >>> (32 - n))

def rotateRight (w : UInt32) (n : UInt32) : UInt32 := (w >>> n) ||| (w <<< (32 - n))

def wordBytes (w : UInt32) : List UInt8 := bigEndian 4 w.toNat

def extendSchedule (next : Array UInt32 → UInt32) : Nat → Array UInt32 → Array UInt32
  | 0, w => w
  | n + 1, w => extendSchedule next n (w.push (next w))

def recent (w : Array UInt32) (back : Nat) : UInt32 := w.getD (w.size - back) 0

end SitePublish.Digest
