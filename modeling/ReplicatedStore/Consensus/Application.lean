import ReplicatedStore.Consensus.Node

/-!
From committed entries to the key/value map: what a majority holds is committed, what is committed is
applied in order, and what is applied may become a snapshot.
-/

namespace ReplicatedStore

namespace NodeM

-- Puts the applied entries into a snapshot once there are more than the threshold. A failure leaves the log
-- for a later time.
def compact : NodeM Unit := do
  let node ← get
  let threshold := node.config.snapshotThreshold
  if threshold = 0 ∨ node.lastApplied - node.log.snapshotIndex ≤ threshold then return
  match node.log.termAt? node.lastApplied with
  | none => return
  | some term =>
    let _ ← attempt (onLog (LogStore.putSnapshot node.lastApplied term node.map.encode))

def halt : NodeM Unit :=
  modify fun node => { node with halted := true }

def change (entry : LogEntry) (map : KeyMap) : Except EncodingError KeyMap := do
  if entry.isNoop then return map
  return (← WriteSet.decode entry.command).performOn map

def resolve (index term : Nat) : NodeM Unit := do
  let node ← get
  match node.pending.lookup index with
  | none => return
  | some waiter =>
    modify fun node => { node with pending := node.pending.filter (·.1 ≠ index) }
    settle waiter.ticket (if waiter.term = term then .ok () else .error (.notLeader node.leader))

def applyNext : Nat → NodeM Bool
  | 0 => return true
  | count + 1 => do
    let node ← get
    let index := node.lastApplied + 1
    match node.log.get? index with
    | none =>
      halt
      return false
    | some entry =>
      match change entry node.map with
      | .error _ =>
        halt
        return false
      | .ok map =>
        modify fun node => { node with map, lastApplied := index }
        resolve index entry.term
        applyNext count

def applyBacklog : NodeM Unit := do
  let node ← get
  if node.halted then return
  if ← applyNext (node.commitIndex - node.lastApplied) then
    modify fun node => { node with announced := node.lastApplied }
    compact

def commitThrough (index : Nat) : NodeM Unit := do
  if (← get).commitIndex < index then
    modify fun node => { node with commitIndex := index }
    applyBacklog

def insertFalling (index : Nat) : List Nat → List Nat
  | [] => [index]
  | other :: rest =>
    if other ≤ index then index :: other :: rest else other :: insertFalling index rest

def majorityIndex (node : Node) : Nat :=
  let matched := node.peers.map fun peer => ((node.progress? peer).map (·.matched)).getD 0
  let falling := (node.log.lastIndex :: matched).foldr insertFalling []
  falling.getD (node.quorum - 1) 0

/-- A leader commits what a majority holds, if it is of the current term. -/
def commitByMajority : NodeM Unit := do
  let node ← get
  unless node.role.isLeader do return
  let candidate := majorityIndex node
  if node.log.termAt? candidate = some node.term then commitThrough candidate

end NodeM

end ReplicatedStore
