import ReplicatedStore.Encoding.Binary
import ReplicatedStore.Error
import ReplicatedStore.KeySpace.KeyRanges
import ReplicatedStore.Storage.LogRecord

/-!
The messages that nodes exchange, and their bytes on the wire.
-/

namespace ReplicatedStore

abbrev NodeId := String

structure VoteRequest where
  term : Nat
  candidate : NodeId
  lastIndex : Nat
  lastTerm : Nat
  deriving DecidableEq, Repr, Inhabited

structure VoteResponse where
  term : Nat
  granted : Bool
  deriving DecidableEq, Repr, Inhabited

structure AppendRequest where
  term : Nat
  leader : NodeId
  prevIndex : Nat
  prevTerm : Nat
  entries : List LogEntry
  commit : Nat
  deriving DecidableEq, Repr, Inhabited

structure AppendResponse where
  term : Nat
  success : Bool
  agreesThrough : Nat
  resumeAt : Nat
  deriving DecidableEq, Repr, Inhabited

structure SnapshotRequest where
  term : Nat
  leader : NodeId
  index : Nat
  indexTerm : Nat
  data : Bytes
  deriving DecidableEq, Repr, Inhabited

structure SnapshotResponse where
  term : Nat
  deriving DecidableEq, Repr, Inhabited

structure CommitRequest where
  baseTerm : Nat
  baseIndex : Nat
  reads : KeyRanges
  mutations : Bytes
  deriving DecidableEq, Repr, Inhabited

inductive CommitOutcome where
  | committed (term index : Nat)
  | conflict (what : String)
  | notLeader (leader : Option NodeId)
  | indeterminate (what : String)
  | failed (what : String)
  deriving DecidableEq, Repr, Inhabited

namespace CommitOutcome

def ofError : Error → CommitOutcome
  | .conflict what => .conflict what
  | .notLeader leader => .notLeader leader
  | .indeterminate what => .indeterminate what
  | e => .failed e.message

def ofResult : Except Error (Nat × Nat) → CommitOutcome
  | .ok (term, index) => .committed term index
  | .error e => ofError e

def toResult : CommitOutcome → Except Error (Nat × Nat)
  | .committed term index => .ok (term, index)
  | .conflict what => .error (.conflict what)
  | .notLeader leader => .error (.notLeader leader)
  | .indeterminate what => .error (.indeterminate what)
  | .failed what => .error (.internal what)

end CommitOutcome

class Wire (α : Type) where
  write : α → Bytes
  read : BinaryReader α

namespace Wire

def decode (α : Type) [Wire α] (input : Bytes) : Except BinaryError α :=
  Binary.decode Wire.read input

open Binary

instance : Wire LogEntry where
  write entry := writeWord entry.term ++ writeWord entry.index ++ writeBytes entry.command
  read := do
    return { term := ← readWord, index := ← readWord, command := ← readBytes }

instance : Wire KeyRange where
  write range := writeBytes range.min ++ writeOption writeBytes range.max
  read := do
    return { min := ← readBytes, max := ← readOption readBytes }

instance : Wire VoteRequest where
  write m := writeWord m.term ++ writeText m.candidate ++ writeWord m.lastIndex ++ writeWord m.lastTerm
  read := do
    return {
      term := ← readWord
      candidate := ← readText
      lastIndex := ← readWord
      lastTerm := ← readWord }

instance : Wire VoteResponse where
  write m := writeWord m.term ++ writeBool m.granted
  read := do
    return { term := ← readWord, granted := ← readBool }

instance : Wire AppendRequest where
  write m :=
    writeWord m.term ++ writeText m.leader ++ writeWord m.prevIndex ++ writeWord m.prevTerm ++
      writeList Wire.write m.entries ++ writeWord m.commit
  read := do
    return {
      term := ← readWord
      leader := ← readText
      prevIndex := ← readWord
      prevTerm := ← readWord
      entries := ← readList Wire.read
      commit := ← readWord }

instance : Wire AppendResponse where
  write m :=
    writeWord m.term ++ writeBool m.success ++ writeWord m.agreesThrough ++ writeWord m.resumeAt
  read := do
    return {
      term := ← readWord
      success := ← readBool
      agreesThrough := ← readWord
      resumeAt := ← readWord }

instance : Wire SnapshotRequest where
  write m :=
    writeWord m.term ++ writeText m.leader ++ writeWord m.index ++ writeWord m.indexTerm ++
      writeBytes m.data
  read := do
    return {
      term := ← readWord
      leader := ← readText
      index := ← readWord
      indexTerm := ← readWord
      data := ← readBytes }

instance : Wire SnapshotResponse where
  write m := writeWord m.term
  read := do
    return { term := ← readWord }

instance : Wire CommitRequest where
  write m :=
    writeWord m.baseTerm ++ writeWord m.baseIndex ++ writeList Wire.write m.reads.ranges ++
      writeBytes m.mutations
  read := do
    return {
      baseTerm := ← readWord
      baseIndex := ← readWord
      reads := ⟨← readList Wire.read⟩
      mutations := ← readBytes }

instance : Wire CommitOutcome where
  write
    | .committed term index => writeCase 0 ++ writeWord term ++ writeWord index
    | .conflict what => writeCase 1 ++ writeText what
    | .notLeader leader => writeCase 2 ++ writeOption writeText leader
    | .indeterminate what => writeCase 3 ++ writeText what
    | .failed what => writeCase 4 ++ writeText what
  read := do
    match ← readCase 5 with
    | 0 => return .committed (← readWord) (← readWord)
    | 1 => return .conflict (← readText)
    | 2 => return .notLeader (← readOption readText)
    | 3 => return .indeterminate (← readText)
    | _ => return .failed (← readText)

end Wire

end ReplicatedStore
