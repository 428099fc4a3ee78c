import ReplicatedStore.Encoding.Reader

/-!
Fixed-width numbers as big-endian bytes, and the changes of bits that make unsigned order the order
of signed numbers and of floats.
-/

namespace ReplicatedStore

inductive Width where
  | w8 | w16 | w32 | w64
  deriving DecidableEq, Repr

namespace Width

def bytes : Width → Nat
  | .w8 => 1
  | .w16 => 2
  | .w32 => 4
  | .w64 => 8

def bits (w : Width) : Nat := 8 * w.bytes

end Width

namespace FixedWidth

def write (w : Width) (bits : BitVec w.bits) : Bytes :=
  Bytes.bigEndian w.bytes bits.toNat

def read (w : Width) : Reader (BitVec w.bits) := do
  return BitVec.ofNat w.bits (Bytes.ofBigEndian (← Reader.bytes w.bytes))

def flipSign (bits : BitVec w) : BitVec w :=
  bits ^^^ BitVec.intMin w

/-- IEEE bits with the sign turned round, and inverted below zero, so that their unsigned order is
the total order of the floats. -/
def orderFloat (bits : BitVec w) : BitVec w :=
  if bits.msb then ~~~bits else bits ||| BitVec.intMin w

def unorderFloat (bits : BitVec w) : BitVec w :=
  if bits.msb then bits &&& ~~~BitVec.intMin w else ~~~bits

-- The place of a float in the total order, from its IEEE bits: as sign and magnitude, with negative zero just
-- below zero.
def floatRank (bits : BitVec w) : Int :=
  if bits.msb then -((bits &&& ~~~BitVec.intMin w).toNat : Int) - 1 else bits.toNat

end FixedWidth

end ReplicatedStore
