import ReplicatedStore.KeySpace.TransactionView
import ReplicatedStore.Storage.LogStore

/-!
A store of one process with optimistic transactions. Each commit that writes gets the next version. A
transaction conflicts if a commit after its base wrote a key that it read; only the latest commits
are remembered, and a reader on an older base is refused. A durable store writes each commit to a
journal before it takes effect, and folds the journal into a snapshot once it is long enough.
-/

namespace ReplicatedStore

structure StandaloneStore where
  map : KeyMap := .empty
  version : Nat := 0
  journal : Option LogStore := none
  history : List (Nat × KeyRanges) := []
  oldestBase : Nat := 0
  journalLimit : Nat := 1024
  deriving Inhabited

structure StandaloneTransaction where
  view : TransactionView
  baseVersion : Nat
  deriving DecidableEq, Repr, Inhabited

namespace StandaloneStore

abbrev StoreM := EStateM Error StandaloneStore

def entryTerm : Nat := 1

def rememberedCommits : Nat := 4096

def empty : StandaloneStore := {}

def replay (map : KeyMap) : List LogEntry → Except EncodingError KeyMap
  | [] => .ok map
  | entry :: rest => do
    let map ← if entry.isNoop then pure map
      else do pure ((← WriteSet.decode entry.command).performOn map)
    replay map rest

def restore : Option Snapshot → Except EncodingError KeyMap
  | none => .ok .empty
  | some snapshot => KeyMap.decode snapshot.data

def «open» (policy : SyncPolicy) (journalLimit : Nat) : Disk StandaloneStore := do
  let journal ← LogStore.open policy
  let snapshot ← LogStore.readSnapshot
  match restore snapshot >>= (replay · journal.entries) with
  | .error e => throw (.encoding e)
  | .ok map =>
    return {
      map
      version := journal.lastIndex
      journal := some journal
      oldestBase := journal.lastIndex
      journalLimit := max journalLimit 1 }

def begin (store : StandaloneStore) : StandaloneTransaction :=
  { view := { base := store.map }, baseVersion := store.version }

def firstConflict? (store : StandaloneStore) (base : Nat) (reads : KeyRanges) : Option Nat :=
  (store.history.find? fun (version, written) =>
    base < version && written.meets reads).map (·.1)

def remember (store : StandaloneStore) (version : Nat) (written : KeyRanges) : StandaloneStore :=
  let history := store.history ++ [(version, written)]
  let excess := history.length - rememberedCommits
  { store with
    history := history.drop excess
    oldestBase := ((history.take excess).getLast?.map (·.1)).getD store.oldestBase }

def onJournal (operation : LogM Unit) : StoreM Unit := fun store =>
  match store.journal with
  | none => .ok () store
  | some journal =>
    match operation journal with
    | .ok _ journal => .ok () { store with journal := some journal }
    | .error e journal => .error e { store with journal := some journal }

def compact : StoreM Unit := do
  let store ← get
  if (store.journal.map (·.size)).any (store.journalLimit ≤ ·) then
    try
      onJournal (LogStore.putSnapshot store.version entryTerm store.map.encode)
    catch _ => pure ()

/-- Commits what a transaction on version `base` read and wrote. -/
def commit (base : Nat) (reads : KeyRanges) (writes : WriteSet) : StoreM Unit := do
  let store ← get
  if base < store.oldestBase ∧ !reads.isEmpty then
    throw (.conflict s!"transaction base version {base} is too old to validate")
  if let some version := store.firstConflict? base reads then
    throw (.conflict s!"read set overlaps commit at version {version}")
  if writes.isEmpty then return
  let version := store.version + 1
  onJournal (LogStore.append [⟨entryTerm, version, writes.encode⟩])
  modify fun store =>
    { store with map := writes.performOn store.map, version }.remember version writes.touched
  compact

def commitTransaction (transaction : StandaloneTransaction) :
    StandaloneStore → Except Error Unit × StandaloneTransaction × StandaloneStore := fun store =>
  if transaction.view.closed then (.error .transactionClosed, transaction, store)
  else
    let ((reads, writes), view) := transaction.view.take
    let transaction := { transaction with view }
    match commit transaction.baseVersion reads writes store with
    | .ok _ store => (.ok (), transaction, store)
    | .error e store => (.error e, transaction, store)

def close (store : StandaloneStore) : Option Volume :=
  store.journal.map LogStore.close

end StandaloneStore

end ReplicatedStore
