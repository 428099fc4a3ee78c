import ReplicatedStore.Consensus.Replication

/-!
Commits at the leader: the reads of a transaction are checked against every entry after the state it
read, and its writes become one entry.
-/

namespace ReplicatedStore

/-- A transaction to commit: the point of the log it read at, what it read and what it writes. -/
structure Proposal where
  baseTerm : Nat
  baseIndex : Nat
  reads : KeyRanges := {}
  writes : WriteSet := {}
  deriving DecidableEq, Repr, Inhabited

namespace Proposal

def ofRequest (request : CommitRequest) : Except EncodingError Proposal := do
  let writes ← if request.mutations.isEmpty then pure {} else WriteSet.decode request.mutations
  return { baseTerm := request.baseTerm, baseIndex := request.baseIndex, reads := request.reads, writes }

def toRequest (proposal : Proposal) : CommitRequest where
  baseTerm := proposal.baseTerm
  baseIndex := proposal.baseIndex
  reads := proposal.reads
  mutations := if proposal.writes.isEmpty then [] else proposal.writes.encode

end Proposal

inductive Accepted where
  | readOnly
  | appended (term index ticket : Nat)
  deriving DecidableEq, Repr

namespace NodeM

def checkEntries (reads : KeyRanges) : List LogEntry → Except Error Unit
  | [] => .ok ()
  | entry :: rest =>
    if entry.isNoop then checkEntries reads rest
    else
      match WriteSet.decode entry.command with
      | .error e => .error (.encoding e)
      | .ok writes =>
        if writes.disturbs reads then
          .error (.conflict s!"read set overlaps entry {entry.index}")
        else checkEntries reads rest

def validateReads (log : LogStore) (proposal : Proposal) : Except Error Unit :=
  let index := proposal.baseIndex
  if proposal.reads.isEmpty then .ok ()
  else if index < log.snapshotIndex then
    .error (.conflict s!"transaction base {index} has been compacted")
  else if log.termAt? index ≠ some proposal.baseTerm then
    .error (.conflict s!"transaction base {index}@{proposal.baseTerm} is no longer in the log")
  else checkEntries proposal.reads (log.between index log.lastIndex)

def ensureLeader : NodeM Unit := do
  let node ← get
  if node.halted || !node.role.isLeader then throw (.notLeader node.leader)

def propose (proposal : Proposal) : NodeM Accepted := do
  ensureLeader
  let node ← get
  match validateReads node.log proposal with
  | .error e => throw e
  | .ok () =>
    if proposal.writes.isEmpty then return .readOnly
    let term := node.term
    let index := node.log.lastIndex + 1
    onLog (LogStore.append [{ term, index, command := proposal.writes.encode }])
    let ticket ← enlist index term
    commitByMajority
    return .appended term index ticket

def openRound : NodeM (List (NodeId × CatchUp)) := do
  ensureLeader
  let messages ← (← get).peers.mapM fun peer => do
    return (← nextMessage peer).map (peer, ·)
  return messages.filterMap id

end NodeM

end ReplicatedStore
