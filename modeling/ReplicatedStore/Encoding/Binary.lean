import ReplicatedStore.Encoding.Utf8

/-!
The fixed-width binary layout of messages: little-endian numbers, 64-bit lengths before lists and
texts, one byte before an optional value, a 32-bit number for the case of a sum. What follows a value
is not looked at.
-/

namespace ReplicatedStore

inductive BinaryError where
  | endOfInput
  | cutText
  | badText (fault : Utf8.Fault)
  | badBool (found : Nat)
  | badTag (found : Nat)
  | badCase (found cases : Nat)
  deriving DecidableEq, Repr

def BinaryError.message : BinaryError → String
  | .endOfInput => "io error: unexpected end of file"
  | .cutText => "io error: "
  | .badText fault => s!"string is not valid utf8: {fault.message}"
  | .badBool found => s!"invalid u8 while decoding bool, expected 0 or 1, found {found}"
  | .badTag found => s!"tag for enum is not valid, found {found}"
  | .badCase found cases =>
    s!"invalid value: integer `{found}`, expected variant index 0 <= i < {cases}"

abbrev BinaryReader := EStateM BinaryError Bytes

namespace Binary

def writeWord (n : Nat) : Bytes := Bytes.littleEndian 8 n

def writeCase (n : Nat) : Bytes := Bytes.littleEndian 4 n

def writeBool (b : Bool) : Bytes := [if b then 1 else 0]

def writeBytes (b : Bytes) : Bytes := writeWord b.length ++ b

def writeText (text : String) : Bytes := writeBytes (Bytes.ofText text)

def writeOption (write : α → Bytes) : Option α → Bytes
  | none => [0]
  | some a => 1 :: write a

def writeList (write : α → Bytes) (items : List α) : Bytes :=
  writeWord items.length ++ items.flatMap write

def takeOr (short : BinaryError) (count : Nat) : BinaryReader Bytes := fun input =>
  if input.length < count then .error short input
  else .ok (input.take count) (input.drop count)

def take (count : Nat) : BinaryReader Bytes := takeOr .endOfInput count

def readWord : BinaryReader Nat := Bytes.ofLittleEndian <$> take 8

def readByte : BinaryReader Nat := Bytes.ofLittleEndian <$> take 1

def readCase (cases : Nat) : BinaryReader Nat := do
  let found := Bytes.ofLittleEndian (← take 4)
  if found < cases then return found
  throw (.badCase found cases)

def readBool : BinaryReader Bool := do
  match ← readByte with
  | 0 => return false
  | 1 => return true
  | found => throw (.badBool found)

def readBytes : BinaryReader Bytes := do
  take (← readWord)

def readText : BinaryReader String := do
  match Utf8.decode (← takeOr .cutText (← readWord)) with
  | .ok text => return text
  | .error fault => throw (.badText fault)

def readOption (read : BinaryReader α) : BinaryReader (Option α) := do
  match ← readByte with
  | 0 => return none
  | 1 => return some (← read)
  | found => throw (.badTag found)

def readList (read : BinaryReader α) : BinaryReader (List α) := do
  go (← readWord)
where
  go : Nat → BinaryReader (List α)
    | 0 => pure []
    | n + 1 => do
      let a ← read
      let rest ← go n
      pure (a :: rest)

def decode (read : BinaryReader α) (input : Bytes) : Except BinaryError α :=
  match read input with
  | .ok a _ => .ok a
  | .error e _ => .error e

end Binary

end ReplicatedStore
