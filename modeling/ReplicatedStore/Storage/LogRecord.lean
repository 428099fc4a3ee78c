import ReplicatedStore.Checksum

/-!
The stored form of log entries: a mark, the term, the index, the length of the command, the command,
and a checksum over all but the mark. Numbers are little-endian.
-/

namespace ReplicatedStore

structure LogEntry where
  term : Nat
  index : Nat
  command : Bytes
  deriving DecidableEq, Repr, Inhabited

def LogEntry.isNoop (entry : LogEntry) : Bool := entry.command.isEmpty

namespace LogRecord

def mark : Bytes := [0x51, 0x4c, 0x47, 0x31]

def overhead : Nat := 28

def body (entry : LogEntry) : Bytes :=
  Bytes.littleEndian 8 entry.term ++ Bytes.littleEndian 8 entry.index ++
    Bytes.littleEndian 4 entry.command.length ++ entry.command

def encode (entry : LogEntry) : Bytes :=
  mark ++ body entry ++ Bytes.littleEndian 4 (Checksum.crc32 (body entry)).toNat

def size (entry : LogEntry) : Nat := overhead + entry.command.length

def read? (input : Bytes) : Option LogEntry :=
  let length := Bytes.ofLittleEndian ((input.drop 20).take 4)
  if input.length < 24 || input.take 4 ≠ mark || input.length < overhead + length then none
  else
    let body := (input.drop 4).take (20 + length)
    if (Checksum.crc32 body).toNat ≠ Bytes.ofLittleEndian ((input.drop (24 + length)).take 4) then none
    else some {
      term := Bytes.ofLittleEndian (body.take 8)
      index := Bytes.ofLittleEndian ((body.drop 8).take 8)
      command := body.drop 20 }

def scan (start : Nat) (input : Bytes) : List (Nat × LogEntry) × Nat :=
  match input with
  | [] => ([], start)
  | b :: rest =>
    match read? (b :: rest) with
    | none => ([], start)
    | some entry =>
      let (records, stop) := scan (start + size entry) (rest.drop (size entry - 1))
      ((start, entry) :: records, stop)
termination_by input.length
decreasing_by
  simp only [List.length_drop, List.length_cons]
  omega

end LogRecord

structure Snapshot where
  index : Nat
  term : Nat
  data : Bytes
  deriving DecidableEq, Repr, Inhabited

namespace Snapshot

def mark : Bytes := [0x51, 0x53, 0x4e, 0x31]

def body (snapshot : Snapshot) : Bytes :=
  Bytes.littleEndian 8 snapshot.index ++ Bytes.littleEndian 8 snapshot.term ++
    Bytes.littleEndian 8 snapshot.data.length ++ snapshot.data

def encode (snapshot : Snapshot) : Bytes :=
  mark ++ body snapshot ++ Bytes.littleEndian 4 (Checksum.crc32 (body snapshot)).toNat

def decode (input : Bytes) : Except String Snapshot :=
  let body := (input.drop 4).take (input.length - 8)
  let length := Bytes.ofLittleEndian ((body.drop 16).take 8)
  if input.length < 32 || input.take 4 ≠ mark then .error "snapshot header"
  else if (Checksum.crc32 body).toNat ≠ Bytes.ofLittleEndian (input.drop (input.length - 4)) then
    .error "snapshot checksum mismatch"
  else if body.length ≠ 24 + length then .error "snapshot length mismatch"
  else .ok {
    index := Bytes.ofLittleEndian (body.take 8)
    term := Bytes.ofLittleEndian ((body.drop 8).take 8)
    data := body.drop 24 }

end Snapshot

end ReplicatedStore
