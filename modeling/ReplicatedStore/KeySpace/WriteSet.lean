import ReplicatedStore.KeySpace.KeyMap
import ReplicatedStore.KeySpace.KeyRanges

/-!
What a transaction writes: ranges of keys that it removes, then pairs that it puts. The stored form
has the number of removals, each as its least key, a flag and its end if it has one, and then the
pairs.
-/

namespace ReplicatedStore

structure WriteSet where
  removes : KeyRanges := {}
  puts : KeyMap := .empty
  deriving DecidableEq, Repr, Inhabited

inductive KeyFate where
  | put (value : Bytes)
  | removed
  | untouched
  deriving DecidableEq, Repr

namespace WriteSet

def isEmpty (writes : WriteSet) : Bool :=
  writes.removes.isEmpty && writes.puts.isEmpty

def put (writes : WriteSet) (key value : Bytes) : WriteSet :=
  { writes with puts := writes.puts.insert key value }

def removeRange (writes : WriteSet) (range : KeyRange) : WriteSet :=
  if range.isEmpty then writes
  else
    { removes := writes.removes.add range
      puts := writes.puts.filter (fun key => !range.contains key) }

def remove (writes : WriteSet) (key : Bytes) : WriteSet :=
  writes.removeRange (.single key)

def fate (writes : WriteSet) (key : Bytes) : KeyFate :=
  match writes.puts.get? key with
  | some value => .put value
  | none => if writes.removes.contains key then .removed else .untouched

def disturbs (writes : WriteSet) (reads : KeyRanges) : Bool :=
  !reads.isEmpty &&
    (writes.puts.keys.any reads.contains || writes.removes.meets reads)

def touched (writes : WriteSet) : KeyRanges :=
  writes.puts.keys.foldl KeyRanges.insert writes.removes

def clear (map : KeyMap) (range : KeyRange) : KeyMap :=
  map.filter (fun key => !range.contains key)

def performOn (writes : WriteSet) (map : KeyMap) : KeyMap :=
  (writes.removes.ranges.foldl clear map).insertAll writes.puts.pairs

def writeRange (range : KeyRange) : Bytes :=
  VarInt.writeChunk range.min ++
    match range.max with
    | some max => 1 :: VarInt.writeChunk max
    | none => [0]

def readRange : Reader KeyRange := do
  let min ← VarInt.readChunk
  let flag ← Reader.byte
  if flag = 0 then return ⟨min, none⟩
  else if flag = 1 then return ⟨min, some (← VarInt.readChunk)⟩
  else throw (.malformed s!"invalid range bound flag 0x{Bytes.hexByte flag}")

def encode (writes : WriteSet) : Bytes :=
  VarInt.writeUnsigned (UInt64.ofNat writes.removes.size) ++
    writes.removes.ranges.flatMap writeRange ++ KeyMap.writePairs writes.puts.pairs

def read : Reader WriteSet := do
  let removes ← Reader.many readRange (← VarInt.readLength)
  let puts ← Reader.many KeyMap.readPair (← VarInt.readLength)
  return { removes := .ofList removes, puts := .ofList puts }

def decode (input : Bytes) : Except EncodingError WriteSet :=
  read.decode input

end WriteSet

end ReplicatedStore
