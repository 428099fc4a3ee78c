import ReplicatedStore.Encoding.FixedWidth
import ReplicatedStore.Encoding.Terminated
import ReplicatedStore.Encoding.Utf8
import ReplicatedStore.Encoding.VarInt
import ReplicatedStore.Timestamp

/-!
The built-in field types: their values, their order, and encodings whose byte order is that order.
-/

namespace ReplicatedStore

inductive BasicType where
  | boolean
  | int (w : Width)
  | uint (w : Width)
  | f32
  | f64
  | varlong
  | date
  | string
  | bytes
  deriving DecidableEq, Repr

namespace BasicType

def Value : BasicType → Type
  | .boolean => Bool
  | .int w => BitVec w.bits
  | .uint w => BitVec w.bits
  | .f32 => BitVec Width.w32.bits
  | .f64 => BitVec Width.w64.bits
  | .varlong => Int64
  | .date => Timestamp
  | .string => String
  | .bytes => Bytes

def name : BasicType → String
  | .boolean => "boolean"
  | .int w => s!"i{w.bits}"
  | .uint w => s!"u{w.bits}"
  | .f32 => "f32"
  | .f64 => "f64"
  | .varlong => "varlong"
  | .date => "date"
  | .string => "string"
  | .bytes => "bytes"

def all : List BasicType :=
  [.boolean, .int .w8, .int .w16, .int .w32, .int .w64, .uint .w8, .uint .w16, .uint .w32,
   .uint .w64, .f32, .f64, .varlong, .date, .string, .bytes]

def write : (type : BasicType) → type.Value → Bytes
  | .boolean, (b : Bool) => [if b then 0x01 else 0x00]
  | .int w, v => FixedWidth.write w (FixedWidth.flipSign v)
  | .uint w, v => FixedWidth.write w v
  | .f32, v => FixedWidth.write .w32 (FixedWidth.orderFloat v)
  | .f64, v => FixedWidth.write .w64 (FixedWidth.orderFloat v)
  | .varlong, v => VarInt.writeSigned v
  | .date, (t : Timestamp) => VarInt.writeSigned (Int64.ofInt t.millis)
  | .string, text => Terminated.write (Bytes.ofText text)
  | .bytes, raw => raw

def read : (type : BasicType) → Reader type.Value
  | .boolean => do
    let b ← Reader.byte
    if b = 0x00 then return false
    else if b = 0x01 then return true
    else throw (.malformed s!"invalid boolean byte 0x{Bytes.hexByte b}")
  | .int w => do return FixedWidth.flipSign (← FixedWidth.read w)
  | .uint w => FixedWidth.read w
  | .f32 => do return FixedWidth.unorderFloat (← FixedWidth.read .w32)
  | .f64 => do return FixedWidth.unorderFloat (← FixedWidth.read .w64)
  | .varlong => VarInt.readSigned
  | .date => do
    let millis ← VarInt.readSigned
    match Timestamp.ofMillis? millis.toInt with
    | some t => return t
    | none => throw (.malformed s!"timestamp {millis.toInt}ms out of range")
  | .string => do
    match Utf8.decode (← Terminated.read) with
    | .ok text => return text
    | .error fault => throw (.malformed s!"invalid UTF-8: {fault.message}")
  | .bytes => Reader.remaining

-- Passes over one value. The length alone counts, so this also passes over some malformed ones.
def skip : BasicType → Reader Unit
  | .boolean => Reader.skip 1
  | .int w => Reader.skip w.bytes
  | .uint w => Reader.skip w.bytes
  | .f32 => Reader.skip 4
  | .f64 => Reader.skip 8
  | .varlong => VarInt.skipSigned
  | .date => VarInt.skipSigned
  | .string => do let _ ← Terminated.read
  | .bytes => do let _ ← Reader.remaining

def compare : (type : BasicType) → type.Value → type.Value → Ordering
  | .boolean, (a : Bool), (b : Bool) => Ord.compare a.toNat b.toNat
  | .int _, a, b => Ord.compare (BitVec.toInt a) (BitVec.toInt b)
  | .uint _, a, b => Ord.compare (BitVec.toNat a) (BitVec.toNat b)
  | .f32, a, b => Ord.compare (FixedWidth.floatRank a) (FixedWidth.floatRank b)
  | .f64, a, b => Ord.compare (FixedWidth.floatRank a) (FixedWidth.floatRank b)
  | .varlong, a, b => Ord.compare (Int64.toInt a) (Int64.toInt b)
  | .date, a, b => Timestamp.compare a b
  | .string, a, b => Bytes.compare (Bytes.ofText a) (Bytes.ofText b)
  | .bytes, a, b => Bytes.compare a b

def startsWith00 : BasicType → Bool
  | .varlong | .date => false
  | _ => true

def startsWithFF : BasicType → Bool
  | .boolean | .varlong | .date | .string => false
  | _ => true

def selfDelimiting : BasicType → Bool
  | .bytes => false
  | _ => true

end BasicType

end ReplicatedStore
