import ReplicatedStore.Encoding.BasicType

/-!
Field types: the built-in types closed under `nullable`, whose null comes after every other value.
A present value carries a marker only where its own encoding could be taken for null.
-/

namespace ReplicatedStore

inductive FieldType where
  | basic (type : BasicType)
  | nullable (inner : FieldType)
  deriving DecidableEq, Repr

namespace NullMarker

def null : UInt8 := 0xff

def present : UInt8 := 0x01

def read (escaped : Bool) : Reader Bool := do
  if (← Reader.peek) = null then
    let _ ← Reader.byte
    return true
  if escaped then
    let marker ← Reader.byte
    if marker ≠ present then
      throw (.malformed s!"expected non-null marker 0x01, found 0x{Bytes.hexByte marker}")
  return false

end NullMarker

namespace FieldType

def Value : FieldType → Type
  | .basic type => type.Value
  | .nullable inner => Option inner.Value

def name : FieldType → String
  | .basic type => type.name
  | .nullable inner => inner.name ++ "?"

def startsWithFF : FieldType → Bool
  | .basic type => type.startsWithFF
  | .nullable _ => true

def startsWith00 : FieldType → Bool
  | .basic type => type.startsWith00
  | .nullable inner => !inner.startsWithFF && inner.startsWith00

def selfDelimiting : FieldType → Bool
  | .basic type => type.selfDelimiting
  | .nullable inner => inner.selfDelimiting

def write : (type : FieldType) → type.Value → Bytes
  | .basic type, v => type.write v
  | .nullable _, none => [NullMarker.null]
  | .nullable inner, some v =>
    if inner.startsWithFF then NullMarker.present :: inner.write v else inner.write v

def read : (type : FieldType) → Reader type.Value
  | .basic type => type.read
  | .nullable inner => do
    if ← NullMarker.read inner.startsWithFF then return none
    return some (← inner.read)

def skip : FieldType → Reader Unit
  | .basic type => type.skip
  | .nullable inner => do
    if ← NullMarker.read inner.startsWithFF then return
    inner.skip

def compare : (type : FieldType) → type.Value → type.Value → Ordering
  | .basic type, a, b => type.compare a b
  | .nullable _, none, none => .eq
  | .nullable _, none, some _ => .gt
  | .nullable _, some _, none => .lt
  | .nullable inner, some a, some b => inner.compare a b

def decode (type : FieldType) (input : Bytes) : Except EncodingError type.Value :=
  type.read.decode input

/-- Decodes `a`, then `b`, and compares the values. -/
def compareAsValues (type : FieldType) (a b : Bytes) : Except EncodingError Ordering := do
  let x ← type.decode a
  let y ← type.decode b
  return type.compare x y

end FieldType

def Reader.decodeExactly (length : Nat) (input : Bytes) : Except EncodingError Bytes :=
  (Reader.bytes length).decode input

end ReplicatedStore
