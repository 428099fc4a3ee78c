import ReplicatedStore.Config.Consensus
import ReplicatedStore.Consensus.Message
import ReplicatedStore.KeySpace.WriteSet
import ReplicatedStore.Storage.HardState
import ReplicatedStore.Storage.LogStore

/-!
The state of one member of a cluster, and what its handlers are built from. A handler is one atomic
step on the node: it never waits, and a failed one keeps what it did before it failed.
-/

namespace ReplicatedStore

structure Progress where
  next : Nat
  matched : Nat := 0
  ackedAt : Option Nat := none
  deriving DecidableEq, Repr, Inhabited

structure Leadership where
  since : Nat
  heartbeatDue : Nat
  peers : List (NodeId × Progress)
  deriving DecidableEq, Repr, Inhabited

inductive Role where
  | follower
  | candidate (votes : List NodeId)
  | leader (leadership : Leadership)
  deriving DecidableEq, Repr, Inhabited

namespace Role

def name : Role → String
  | .follower => "follower"
  | .candidate _ => "candidate"
  | .leader _ => "leader"

def isLeader : Role → Bool
  | .leader _ => true
  | _ => false

end Role

structure Waiter where
  ticket : Nat
  term : Nat
  deriving DecidableEq, Repr, Inhabited

structure Node where
  id : NodeId
  peers : List NodeId
  config : ConsensusConfig
  log : LogStore
  hard : HardState := {}
  role : Role := .follower
  leader : Option NodeId := none
  commitIndex : Nat := 0
  lastApplied : Nat := 0
  announced : Nat := 0
  electionDue : Nat := 0
  leaderSeen : Option Nat := none
  pending : List (Nat × Waiter) := []
  nextTicket : Nat := 0
  settled : List (Nat × Except Error Unit) := []
  map : KeyMap := .empty
  halted : Bool := false

-- What a handler reads from outside the node: the monotonic clock, and how long the election timer is to run
-- if it is set. Both are in microseconds.
structure Clock where
  now : Nat
  electionTimeout : Nat
  deriving DecidableEq, Repr, Inhabited

abbrev NodeM := ReaderT Clock (EStateM Error Node)

inductive Order where
  | askVote (peer : NodeId) (request : VoteRequest)
  | replicate (peer : NodeId)
  deriving DecidableEq, Repr

namespace Node

def quorum (node : Node) : Nat := (node.peers.length + 1) / 2 + 1

def term (node : Node) : Nat := node.hard.term

def contactWindow (node : Node) : Nat := 1000 * node.config.electionTimeoutMax

def heartbeatInterval (node : Node) : Nat := 1000 * node.config.heartbeatInterval

def readPoint (node : Node) : Nat × Nat :=
  (node.lastApplied, (node.log.termAt? node.lastApplied).getD 0)

def stopped (node : Node) : Error := .unavailable s!"node {node.id} is stopped"

def progress? (node : Node) (peer : NodeId) : Option Progress :=
  match node.role with
  | .leader leadership => leadership.peers.lookup peer
  | _ => none

def recentAcks (node : Node) (now window : Nat) : Nat :=
  node.peers.countP fun peer =>
    match (node.progress? peer).bind (·.ackedAt) with
    | some moment => now - moment ≤ window
    | none => false

def inContact (node : Node) (now : Nat) : Bool :=
  let window := node.contactWindow
  if node.halted then false
  else
    match node.role with
    | .leader leadership =>
      now - leadership.since ≤ window || node.quorum ≤ node.recentAcks now window + 1
    | .follower =>
      match node.leader, node.leaderSeen with
      | some _, some moment => now - moment ≤ window
      | _, _ => false
    | .candidate _ => false

def broadcast (node : Node) : List Order :=
  node.peers.map .replicate

def updateProgress (node : Node) (peer : NodeId) (f : Progress → Progress) : Node :=
  match node.role with
  | .leader leadership =>
    { node with role := .leader { leadership with
        peers := leadership.peers.map fun (id, p) => (id, if id = peer then f p else p) } }
  | _ => node

/-- Opens the member that a directory belongs to. Its map starts at the snapshot; the entries after it
are applied again once the node learns that they are committed. -/
def «open» (id : NodeId) (members : List NodeId) (config : ConsensusConfig) (clock : Clock) :
    Disk Node := do
  let log ← LogStore.open config.policy
  let hard ← HardState.load
  let map ← match ← LogStore.readSnapshot with
    | none => pure .empty
    | some snapshot =>
      match KeyMap.decode snapshot.data with
      | .ok map => pure map
      | .error e => throw (.encoding e)
  return {
    id
    peers := members.filter (· ≠ id)
    config
    log
    hard
    commitIndex := log.snapshotIndex
    lastApplied := log.snapshotIndex
    announced := log.snapshotIndex
    electionDue := clock.now + clock.electionTimeout
    map }

end Node

namespace NodeM

def onLog (operation : LogM α) : NodeM α := fun _ node =>
  match operation node.log with
  | .ok a log => .ok a { node with log }
  | .error e log => .error e { node with log }

def attempt (action : NodeM α) : NodeM (Option α) := fun clock node =>
  match action clock node with
  | .ok a node => .ok (some a) node
  | .error _ node => .ok none node

def saveHardState : NodeM Unit := do
  onLog (LogStore.onDisk (HardState.save (← get).hard))

def resetTimer : NodeM Unit := do
  let clock ← read
  modify fun node => { node with electionDue := clock.now + clock.electionTimeout }

/-- Adopts a term, if it is newer, and follows a leader. A newer term is saved before anything else
depends on it. -/
def adoptTerm (term : Nat) (leader : Option NodeId) : NodeM Unit := do
  if (← get).term < term then
    modify fun node => { node with hard := { term } }
    saveHardState
  modify fun node => { node with role := .follower, leader }
  resetTimer

def ensureRunning : NodeM Unit := do
  let node ← get
  if node.halted then throw node.stopped

def settle (ticket : Nat) (outcome : Except Error Unit) : NodeM Unit :=
  modify fun node => { node with settled := node.settled ++ [(ticket, outcome)] }

def enlist (index term : Nat) : NodeM Nat := do
  let node ← get
  let ticket := node.nextTicket
  for (i, old) in node.pending do
    if i = index then
      settle old.ticket (.error (.indeterminate s!"entry {index} was abandoned before it resolved"))
  modify fun node =>
    { node with
      nextTicket := ticket + 1
      pending := node.pending.filter (·.1 < index) ++ (index, ⟨ticket, term⟩) ::
        node.pending.filter (index < ·.1) }
  return ticket

def settleWhere (p : Nat → Bool) (outcome : Nat → Error) : NodeM Unit := do
  for (index, waiter) in (← get).pending do
    if p index then settle waiter.ticket (.error (outcome index))
  modify fun node => { node with pending := node.pending.filter fun (index, _) => !p index }

def rejectFrom (index : Nat) : NodeM Unit := do
  let leader := (← get).leader
  settleWhere (index ≤ ·) fun _ => .notLeader leader

def stop : NodeM Unit := do
  modify fun node => { node with halted := true, role := .follower, leader := none }
  settleWhere (fun _ => true) fun index =>
    .indeterminate s!"node stopped before entry {index} resolved"

end NodeM

end ReplicatedStore
