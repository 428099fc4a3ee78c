import ReplicatedStore.Consensus.Application

/-!
Replication: what a leader sends to bring a peer up to date, how the peer takes it in, and what the
leader makes of the answer.
-/

namespace ReplicatedStore

inductive CatchUp where
  | append (request : AppendRequest)
  | snapshot (request : SnapshotRequest)
  deriving DecidableEq, Repr

namespace Progress

def appendedThrough (index : Nat) (p : Progress) : Progress :=
  { p with matched := max p.matched index, next := max p.next (max p.matched index + 1) }

-- unlike after an append, `next` is not kept above what matched before
def installedThrough (index : Nat) (p : Progress) : Progress :=
  { p with matched := max p.matched index, next := max p.next (index + 1) }

end Progress

namespace NodeM

def nextMessage (peer : NodeId) : NodeM (Option CatchUp) := do
  let node ← get
  let last := node.log.lastIndex
  let next := max 1 (min (((node.progress? peer).map (·.next)).getD (last + 1)) (last + 1))
  if next ≤ node.log.snapshotIndex then
    match ← attempt (onLog LogStore.storedSnapshot) with
    | some (some snapshot) =>
      return some (.snapshot {
        term := node.term
        leader := node.id
        index := snapshot.index
        indexTerm := snapshot.term
        data := snapshot.data })
    | _ => return none
  else
    match node.log.termAt? (next - 1) with
    | none => return none
    | some prevTerm =>
      return some (.append {
        term := node.term
        leader := node.id
        prevIndex := next - 1
        prevTerm
        entries := node.log.takeFrom next (max 1 node.config.entriesPerAppend)
        commit := node.commitIndex })

def messageFor (peer : NodeId) : NodeM (Option CatchUp) := do
  let node ← get
  if node.halted || !node.role.isLeader then return none
  nextMessage peer

def acknowledged (peer : NodeId) (sentTerm responseTerm : Nat) : NodeM Bool := do
  let node ← get
  if node.halted then return false
  if node.term < responseTerm then
    let _ ← attempt (adoptTerm responseTerm none)
    return false
  if !node.role.isLeader || node.term ≠ sentTerm then return false
  let now := (← read).now
  modify (·.updateProgress peer fun p => { p with ackedAt := some now })
  return true

def isBehind (node : Node) (peer : NodeId) : Bool :=
  ((node.progress? peer).map (·.next)).getD 0 ≤ node.log.lastIndex

/-- The entry to try next after a peer rejected those from `p.next` on: where the peer says, if that is
earlier, and else one earlier, but never one that is known to agree. -/
def backOff (p : Progress) (hint : Nat) : Nat :=
  max 1 (max (p.matched + 1) (if 0 < hint ∧ hint < p.next then hint else p.next - 1))

def onAppendResponse (peer : NodeId) (sentTerm : Nat) (carried : Bool) (response : AppendResponse) :
    NodeM (Bool × List Order) := do
  unless ← acknowledged peer sentTerm response.term do return (false, [])
  if response.success then
    modify (·.updateProgress peer (·.appendedThrough response.agreesThrough))
    let behind := isBehind (← get) peer
    commitByMajority
    return (true, if carried && behind then [.replicate peer] else [])
  else
    match (← get).progress? peer with
    | none => return (true, [])
    | some p =>
      let next := backOff p response.resumeAt
      modify (·.updateProgress peer fun p => { p with next })
      return (true, if next ≠ p.next then [.replicate peer] else [])

def onSnapshotResponse (peer : NodeId) (sentTerm index : Nat) (response : SnapshotResponse) :
    NodeM (Bool × List Order) := do
  unless ← acknowledged peer sentTerm response.term do return (false, [])
  modify (·.updateProgress peer (·.installedThrough index))
  let behind := isBehind (← get) peer
  commitByMajority
  return (true, if behind then [.replicate peer] else [])

def runStart (log : LogStore) (term : Option Nat) : Nat → Nat
  | 0 => 0
  | index + 1 =>
    if log.firstIndex < index + 1 ∧ log.termAt? index = term then runStart log term index
    else index + 1

-- Where a leader should go on after the entry before its own did not match: the start of the conflicting
-- term, or behind the last entry.
def resumePoint (log : LogStore) (prev : Nat) : Nat :=
  if log.lastIndex < prev then log.lastIndex + 1
  else max 1 (runStart log (log.termAt? prev) prev)

/-- The entries of a request that are not in the log yet. Entries that conflict with them are removed
first, and committed ones never. -/
def reconcile (snapshotIndex : Nat) : List LogEntry → NodeM (List LogEntry)
  | [] => return []
  | entry :: rest => do
    if entry.index ≤ snapshotIndex then reconcile snapshotIndex rest
    else
      let missing := entry :: rest.filter (snapshotIndex < ·.index)
      match (← get).log.termAt? entry.index with
      | none => return missing
      | some term =>
        if term = entry.term then reconcile snapshotIndex rest
        else
          if entry.index ≤ (← get).commitIndex then
            throw (.internal s!"refusing to truncate committed entry {entry.index}")
          onLog (LogStore.discardFrom entry.index)
          rejectFrom entry.index
          return missing

def follow (term : Nat) (leader : NodeId) : NodeM Unit := do
  adoptTerm term (some leader)
  let now := (← read).now
  modify fun node => { node with leaderSeen := some now }

-- Takes in entries from a leader. What the snapshot covers is committed and therefore agrees.
def onAppendRequest (request : AppendRequest) : NodeM AppendResponse := do
  ensureRunning
  let node ← get
  if request.term < node.term then
    return { term := node.term, success := false, agreesThrough := 0, resumeAt := 0 }
  follow request.term request.leader
  let node ← get
  let snapshotIndex := node.log.snapshotIndex
  if snapshotIndex ≤ request.prevIndex ∧
      node.log.termAt? request.prevIndex ≠ some request.prevTerm then
    return {
      term := node.term
      success := false
      agreesThrough := 0
      resumeAt := resumePoint node.log request.prevIndex }
  let lastNew := request.prevIndex + request.entries.length
  onLog (LogStore.append (← reconcile snapshotIndex request.entries))
  commitThrough (min request.commit lastNew)
  return {
    term := node.term
    success := true
    agreesThrough := max lastNew snapshotIndex
    resumeAt := 0 }

-- Takes in the snapshot of a leader, unless the node has applied as much. Whether entries that clients wait
-- for survive in it cannot be told.
def onSnapshotRequest (request : SnapshotRequest) : NodeM SnapshotResponse := do
  ensureRunning
  let node ← get
  if request.term < node.term then return { term := node.term }
  follow request.term request.leader
  let node ← get
  if request.index ≤ node.lastApplied then return { term := node.term }
  match KeyMap.decode request.data with
  | .error e => throw (.encoding e)
  | .ok map =>
    onLog (LogStore.putSnapshot request.index request.indexTerm request.data)
    modify fun node =>
      { node with
        map
        commitIndex := max node.commitIndex request.index
        lastApplied := request.index }
    settleWhere (· ≤ request.index) fun index =>
      .indeterminate s!"entry {index} was superseded by a snapshot"
    modify fun node => { node with announced := request.index }
    return { term := node.term }

end NodeM

end ReplicatedStore
