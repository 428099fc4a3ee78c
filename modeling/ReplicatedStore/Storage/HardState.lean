import ReplicatedStore.Checksum
import ReplicatedStore.Encoding.Binary
import ReplicatedStore.Storage.Volume

/-!
The term a node is in and the vote it gave in that term, kept in the file `hard_state` with a
checksum behind.
-/

namespace ReplicatedStore

structure HardState where
  term : Nat := 0
  votedFor : Option String := none
  deriving DecidableEq, Repr, Inhabited

namespace HardState

def fileName : String := "hard_state"

def body (state : HardState) : Bytes :=
  Binary.writeWord state.term ++ Binary.writeOption Binary.writeText state.votedFor

def encode (state : HardState) : Bytes :=
  body state ++ Bytes.littleEndian 4 (Checksum.crc32 (body state)).toNat

def read : BinaryReader HardState := do
  return { term := ← Binary.readWord, votedFor := ← Binary.readOption Binary.readText }

def decode (input : Bytes) : Except Error HardState :=
  let body := input.take (input.length - 4)
  if input.length < 4 then .error (.corrupted "hard state too short")
  else if (Checksum.crc32 body).toNat ≠ Bytes.ofLittleEndian (input.drop (input.length - 4)) then
    .error (.corrupted "hard state checksum mismatch")
  else
    match Binary.decode read body with
    | .ok state => .ok state
    | .error e => .error (.serialization e.message)

def load : Disk HardState := do
  match ← Disk.read? fileName with
  | none => return {}
  | some content =>
    match decode content with
    | .ok state => return state
    | .error e => throw e

def save (state : HardState) : Disk Unit :=
  Disk.replace fileName (encode state)

end HardState

end ReplicatedStore
