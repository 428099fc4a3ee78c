import ReplicatedStore.Encoding.Reader

/-!
Variable-length integers whose byte order is their numeric order. The first byte tells the length
of the whole.

Signed:
* `01` to `08`: below -118, then 8 to 1 inverted big-endian bytes of `-119 - v`;
* `09` to `f6`: the byte less 127;
* `f7` to `fe`: above 119, then 1 to 8 big-endian bytes of `v - 120`.

Unsigned: `00` to `f7` are the value itself, `f8` to `ff` come before 1 to 8 big-endian bytes.
-/

namespace ReplicatedStore

namespace VarInt

def byteLength (u : UInt64) : Nat :=
  if u = 0 then 1 else u.toNat.log2 / 8 + 1

def signedSize (first : UInt8) : Except EncodingError Nat :=
  if first = 0x00 ∨ first = 0xff then
    .error (.malformed s!"0x{Bytes.hexByte first} never starts a signed varint")
  else if first < 0x09 then .ok (1 + (0x09 - first.toNat))
  else if first ≤ 0xf6 then .ok 1
  else .ok (1 + (first.toNat - 0xf6))

def unsignedSize (first : UInt8) : Nat :=
  if first ≤ 0xf7 then 1 else 1 + (first.toNat - 0xf7)

def excessAbove (v : Int64) : UInt64 := (v - 120).toUInt64

def excessBelow (v : Int64) : UInt64 := (-(v + 119)).toUInt64

def writeSigned (v : Int64) : Bytes :=
  if -118 ≤ v ∧ v ≤ 119 then [(v + 127).toUInt64.toUInt8]
  else if 119 < v then
    let u := excessAbove v
    let n := byteLength u
    UInt8.ofNat (0xf6 + n) :: Bytes.bigEndian n u.toNat
  else
    let u := excessBelow v
    let n := byteLength u
    UInt8.ofNat (0x09 - n) :: Bytes.bigEndian n (~~~u).toNat

def writeUnsigned (v : UInt64) : Bytes :=
  if v ≤ 0xf7 then [v.toUInt8]
  else
    let n := byteLength v
    UInt8.ofNat (0xf7 + n) :: Bytes.bigEndian n v.toNat

def ensureShortest (u : UInt64) (n : Nat) : Reader Unit :=
  if byteLength u = n then pure ()
  else throw (.malformed s!"non-canonical {n}-byte integer encoding")

def enter (length : Nat) : Reader Unit := fun input =>
  if input.length < length then .error (.truncated length input.length) input
  else .ok () (input.drop 1)

def payloadMask (n : Nat) : UInt64 :=
  if n = 8 then 0xffffffffffffffff else (1 <<< UInt64.ofNat (8 * n)) - 1

def readSigned : Reader Int64 := do
  let first ← Reader.peek
  let length ← liftExcept (signedSize first)
  enter length
  let n := length - 1
  if n = 0 then
    return Int64.ofInt (first.toNat - 127 : Int)
  let raw := UInt64.ofNat (Bytes.ofBigEndian (← Reader.bytes n))
  if 0xf6 < first then
    ensureShortest raw n
    if 0x7fffffffffffffff - 120 < raw then
      throw (.malformed "signed varint overflows i64")
    return raw.toInt64 + 120
  else
    let u := ~~~raw &&& payloadMask n
    ensureShortest u n
    if 0x7fffffffffffffff - 119 + 1 < u then
      throw (.malformed "signed varint underflows i64")
    return -119 - u.toInt64
where
  liftExcept (r : Except EncodingError Nat) : Reader Nat :=
    match r with
    | .ok n => pure n
    | .error e => throw e

def readUnsigned : Reader UInt64 := do
  let first ← Reader.peek
  let length := unsignedSize first
  enter length
  if length = 1 then
    return first.toUInt64
  let n := length - 1
  let u := UInt64.ofNat (Bytes.ofBigEndian (← Reader.bytes n))
  ensureShortest u n
  if u ≤ 0xf7 then
    throw (.malformed "non-canonical unsigned varint encoding")
  return u

def readLength : Reader Nat :=
  UInt64.toNat <$> readUnsigned

def skipSigned : Reader Unit := do
  let first ← Reader.peek
  match signedSize first with
  | .ok length => Reader.skip length
  | .error e => throw e

def writeChunk (chunk : Bytes) : Bytes :=
  writeUnsigned (UInt64.ofNat chunk.length) ++ chunk

def readChunk : Reader Bytes := do
  Reader.bytes (← readLength)

end VarInt

end ReplicatedStore
