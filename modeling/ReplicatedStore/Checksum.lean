import ReplicatedStore.Bytes

/-!
The cyclic redundancy check CRC-32: the reflected polynomial `edb88320`, all ones before and after.
-/

namespace ReplicatedStore

namespace Checksum

def polynomial : UInt32 := 0xedb88320

def step (crc : UInt32) : UInt32 :=
  if crc &&& 1 = 1 then (crc >>> 1) ^^^ polynomial else crc >>> 1

def update (crc : UInt32) (b : UInt8) : UInt32 :=
  Nat.repeat step 8 (crc ^^^ b.toUInt32)

def crc32 (bytes : Bytes) : UInt32 :=
  ~~~(bytes.foldl update 0xffffffff)

end Checksum

end ReplicatedStore
