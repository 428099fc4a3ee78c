import ReplicatedStore.Storage.LogRecord
import ReplicatedStore.Storage.Volume

/-!
The durable log. Entries after a snapshot are in the file `log`, in memory, and in part in the buffer
of the writer; a snapshot takes the place of the entries up to its index. On opening, whatever
follows the last undamaged record is cut off.
-/

namespace ReplicatedStore

inductive SyncPolicy where
  | always
  | interval
  | never
  deriving DecidableEq, Repr, Inhabited

namespace SyncPolicy

def name : SyncPolicy → String
  | .always => "always"
  | .interval => "interval"
  | .never => "never"

def ofName? : String → Option SyncPolicy
  | "always" => some .always
  | "interval" => some .interval
  | "never" => some .never
  | _ => none

end SyncPolicy

structure LogWriter where
  file : Nat
  buffer : Bytes := []
  deriving DecidableEq, Repr, Inhabited

def LogWriter.capacity : Nat := 8192

structure LogStore where
  disk : Volume
  writer : LogWriter
  entries : List LogEntry := []
  offsets : List Nat := []
  fileLength : Nat := 0
  snapshotIndex : Nat := 0
  snapshotTerm : Nat := 0
  policy : SyncPolicy := .always
  deriving DecidableEq, Repr, Inhabited

abbrev LogM := EStateM Error LogStore

namespace LogStore

def logName : String := "log"

def snapshotName : String := "snapshot"

def firstIndex (log : LogStore) : Nat := log.snapshotIndex + 1

def lastIndex (log : LogStore) : Nat :=
  (log.entries.getLast?.map (·.index)).getD log.snapshotIndex

def lastTerm (log : LogStore) : Nat :=
  (log.entries.getLast?.map (·.term)).getD log.snapshotTerm

def size (log : LogStore) : Nat := log.entries.length

def isEmpty (log : LogStore) : Bool := log.entries.isEmpty

def position (log : LogStore) (index : Nat) : Nat := index - log.snapshotIndex - 1

def get? (log : LogStore) (index : Nat) : Option LogEntry :=
  if index ≤ log.snapshotIndex then none else log.entries[log.position index]?

def termAt? (log : LogStore) (index : Nat) : Option Nat :=
  if index = 0 then some 0
  else if index = log.snapshotIndex then some log.snapshotTerm
  else (log.get? index).map (·.term)

def takeFrom (log : LogStore) (start max : Nat) : List LogEntry :=
  if start ≤ log.snapshotIndex then [] else (log.entries.drop (log.position start)).take max

def between (log : LogStore) (after through : Nat) : List LogEntry :=
  log.entries.filter fun e => after < e.index && e.index ≤ through

def onDisk (step : Disk α) : LogM α := fun log =>
  match step log.disk with
  | .ok a disk => .ok a { log with disk }
  | .error e disk => .error e { log with disk }

def readSnapshot : Disk (Option Snapshot) := do
  match ← Disk.read? snapshotName with
  | none => return none
  | some content =>
    match Snapshot.decode content with
    | .ok snapshot => return some snapshot
    | .error what => throw (.corrupted what)

/-- The entries after a snapshot among the records of a file, with their offsets. Records that the
snapshot covers are left over from a crash; after them there must be no gap. -/
def select (snapshotIndex : Nat) :
    Nat → List (Nat × LogEntry) → Except Error (List (Nat × LogEntry))
  | _, [] => .ok []
  | count, (offset, entry) :: rest =>
    let expected := snapshotIndex + count + 1
    if entry.index ≤ snapshotIndex then select snapshotIndex count rest
    else if entry.index ≠ expected then
      .error (.corrupted s!"log gap: expected index {expected}, found {entry.index}")
    else do return (offset, entry) :: (← select snapshotIndex (count + 1) rest)

def readRecords : Disk (List (Nat × LogEntry) × Nat) := do
  match (← get).content? logName with
  | some content => return LogRecord.scan 0 content
  | none => return ([], 0)

def «open» (policy : SyncPolicy) : Disk LogStore := do
  let snapshot ← readSnapshot
  let (records, length) ← readRecords
  let file ← Disk.openOrCreate logName
  if length < ((← get).content? logName).elim 0 List.length then
    Disk.setLength file length
    Disk.sync file
  let snapshotIndex := (snapshot.map (·.index)).getD 0
  match select snapshotIndex 0 records with
  | .error e => throw e
  | .ok kept =>
    let file ← Disk.openExisting logName
    return {
      disk := ← get
      writer := { file }
      entries := kept.map (·.2)
      offsets := kept.map (·.1)
      fileLength := length
      snapshotIndex
      snapshotTerm := (snapshot.map (·.term)).getD 0
      policy }

-- Empties the buffer into the file. What was stored before a fault does not stay in the buffer.
def flush : LogM Unit := do
  let writer := (← get).writer
  if writer.buffer.isEmpty then return
  let (stored, fault) ← onDisk (Disk.append writer.file writer.buffer)
  modify fun log => { log with writer := { writer with buffer := writer.buffer.drop stored } }
  if let some e := fault then throw e

-- Writes a record through the buffer. One that does not fit empties the buffer first, and one as large as the
-- buffer goes past it.
def write (record : Bytes) : LogM Unit := do
  if LogWriter.capacity - (← get).writer.buffer.length < record.length then flush
  let writer := (← get).writer
  if LogWriter.capacity ≤ record.length then
    let (_, fault) ← onDisk (Disk.append writer.file record)
    if let some e := fault then throw e
  else
    modify fun log => { log with writer := { writer with buffer := writer.buffer ++ record } }

def settle : LogM Unit := do
  match (← get).policy with
  | .always =>
    flush
    onDisk (Disk.sync (← get).writer.file)
  | .interval => flush
  | .never => return

def greatestCommand : Nat := 4294967295

def appendOne (entry : LogEntry) : LogM Unit := do
  let expected := (← get).lastIndex + 1
  if entry.index ≠ expected then
    throw (.log s!"non-contiguous append: expected index {expected}, got {entry.index}")
  if greatestCommand < entry.command.length then
    throw (.log s!"entry {entry.index} command too large ({entry.command.length} bytes)")
  write (LogRecord.encode entry)
  modify fun log =>
    { log with
      offsets := log.offsets ++ [log.fileLength]
      fileLength := log.fileLength + LogRecord.size entry
      entries := log.entries ++ [entry] }

def append (entries : List LogEntry) : LogM Unit := do
  if entries.isEmpty then return
  entries.forM appendOne
  settle

-- Opens the file `log` anew for writing. The buffer of the old writer goes to its own file.
def renewWriter : LogM Unit := do
  let file ← onDisk (Disk.openExisting logName)
  let old := (← get).writer
  if !old.buffer.isEmpty then
    let _ ← onDisk (Disk.append old.file old.buffer)
  modify fun log => { log with writer := { file } }

def discardFrom (index : Nat) : LogM Unit := do
  let log ← get
  if index ≤ log.snapshotIndex then
    throw (.log s!"cannot truncate at {index}: compacted through {log.snapshotIndex}")
  if log.lastIndex < index then return
  let kept := log.position index
  let offset := log.offsets.getD kept 0
  flush
  let file ← onDisk (Disk.openExisting logName)
  onDisk (Disk.setLength file offset)
  onDisk (Disk.sync file)
  modify fun log =>
    { log with
      entries := log.entries.take kept
      offsets := log.offsets.take kept
      fileLength := offset }
  renewWriter

def offsetsOf (start : Nat) : List LogEntry → List Nat
  | [] => []
  | entry :: rest => start :: offsetsOf (start + LogRecord.size entry) rest

def retained (log : LogStore) (index term : Nat) : List LogEntry :=
  if log.termAt? index = some term then log.entries.filter (index < ·.index) else []

/-- Puts a snapshot in the place of the entries up to its index. -/
def putSnapshot (index term : Nat) (data : Bytes) : LogM Unit := do
  let log ← get
  if index < log.snapshotIndex then
    throw (.log s!"snapshot at {index} is older than current snapshot {log.snapshotIndex}")
  onDisk (Disk.replace snapshotName (Snapshot.encode { index, term, data }))
  let kept := log.retained index term
  let content := kept.flatMap LogRecord.encode
  flush
  onDisk (Disk.replace logName content)
  modify fun log =>
    { log with
      fileLength := content.length
      entries := kept
      offsets := offsetsOf 0 kept
      snapshotIndex := index
      snapshotTerm := term }
  renewWriter

def storedSnapshot : LogM (Option Snapshot) := onDisk readSnapshot

def sync : LogM Unit := do
  flush
  onDisk (Disk.sync (← get).writer.file)

def close (log : LogStore) : Volume :=
  match flush log with
  | .ok _ log => log.disk
  | .error _ log => log.disk

end LogStore

end ReplicatedStore
