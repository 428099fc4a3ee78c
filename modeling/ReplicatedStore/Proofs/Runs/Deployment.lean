import Mathlib.Algebra.Group.Nat.Defs
import Mathlib.Logic.Function.Basic
import ReplicatedStore.Cluster.World

/-!
Runs of a cluster. In which order members take their steps, which messages arrive, when and how often,
what the clocks show, and who crashes and opens again: all that is up to the events of a run.
-/

namespace ReplicatedStore

structure Cluster where
  ids : List NodeId
  distinct : ids.Nodup
  short : ∀ id ∈ ids, (Bytes.ofText id).length < 2 ^ 64

def Cluster.others (K : Cluster) (n : NodeId) : List NodeId :=
  K.ids.filter (· ≠ n)

def Node.hasRoom (node : Node) : Bool :=
  node.hard.term + 1 < 2 ^ 64 && node.log.lastIndex + 1 < 2 ^ 64

theorem Node.hasRoom_iff {node : Node}
    : node.hasRoom = true ↔ node.hard.term + 1 < 2 ^ 64 ∧ node.log.lastIndex + 1 < 2 ^ 64 := by
  unfold Node.hasRoom
  simp

def CatchUp.request : CatchUp → Request
  | .append q => .append q
  | .snapshot q => .snapshot q

def CatchUp.term : CatchUp → Nat
  | .append q => q.term
  | .snapshot q => q.term

inductive Packet where
  | request (source target : NodeId) (request : Request)
  | response (asker answerer : NodeId) (request : Request) (response : Response)
  deriving DecidableEq

def Order.packet? (source : NodeId) : Order → Option Packet
  | .askVote peer request => some (.request source peer (.vote request))
  | .replicate _ => none

/-- A step of a running node. -/
inductive Move where
  | tick
  | message (peer : NodeId)
  | openRound
  | propose (proposal : Proposal)
  | collect (ticket : Nat)
  | handle (source : NodeId) (request : Request)
  | take (answerer : NodeId) (request : Request) (response : Response)
  | stop

namespace Move

def possible (n : NodeId) (packets : List Packet) (node : Node) : Move → Bool
  | .tick => node.hasRoom
  | .propose _ => node.hasRoom
  | .handle source request => packets.contains (.request source n request)
  | .take answerer request response =>
    packets.contains (.response n answerer request response) && node.hasRoom
  | _ => true

def action (n : NodeId) : Move → NodeM (List Packet)
  | .tick => do return (← NodeM.tick).filterMap (Order.packet? n)
  | .message peer => do
    return (← NodeM.messageFor peer).toList.map fun catchUp => .request n peer catchUp.request
  | .openRound => do
    return (← NodeM.openRound).map fun (peer, catchUp) => .request n peer catchUp.request
  | .propose proposal => do
    let _ ← NodeM.propose proposal
    return []
  | .collect ticket => do
    modify fun node => { node with settled := node.settled.filter (·.1 ≠ ticket) }
    return []
  | .handle source request => do
    return [.response source n request (← World.rpc request)]
  | .take answerer (.vote request) (.vote response) => do
    return (← NodeM.onVoteResponse answerer request.term response).filterMap (Order.packet? n)
  | .take answerer (.append request) (.append response) => do
    let (_, orders) ←
      NodeM.onAppendResponse answerer request.term (!request.entries.isEmpty) response
    return orders.filterMap (Order.packet? n)
  | .take answerer (.snapshot request) (.snapshot response) => do
    let (_, orders) ← NodeM.onSnapshotResponse answerer request.term request.index response
    return orders.filterMap (Order.packet? n)
  | .take .. => return []
  | .stop => do
    NodeM.stop
    return []

end Move

inductive Event where
  | act (member : NodeId) (clock : Clock) (move : Move)
  | crash (member : NodeId) (powerLost : Bool)
  | «open» (member : NodeId) (config : ConsensusConfig) (clock : Clock)

def Event.member : Event → NodeId
  | .act n .. => n
  | .crash n _ => n
  | .open n .. => n

inductive Host where
  | running (node : Node)
  | stopped (disk : Volume)

def Host.disk : Host → Volume
  | .running node => node.log.disk
  | .stopped disk => disk

structure Deployment where
  hosts : NodeId → Host := fun _ => .stopped {}
  packets : List Packet := []

namespace Deployment

def node? (d : Deployment) (n : NodeId) : Option Node :=
  match d.hosts n with
  | .running node => some node
  | .stopped _ => none

def setHost (d : Deployment) (n : NodeId) (host : Host) : Deployment :=
  { d with hosts := Function.update d.hosts n host }

def act (d : Deployment) (n : NodeId) (clock : Clock) (move : Move) : Deployment :=
  match d.hosts n with
  | .stopped _ => d
  | .running node =>
    if move.possible n d.packets node then
      match move.action n clock node with
      | .ok sent node => { d.setHost n (.running node) with packets := d.packets ++ sent }
      | .error _ node => d.setHost n (.running node)
    else d

def crash (d : Deployment) (n : NodeId) (powerLost : Bool) : Deployment :=
  let disk := (d.hosts n).disk
  d.setHost n (.stopped (if powerLost then disk.crash else disk))

def reopen (K : Cluster) (d : Deployment) (n : NodeId) (config : ConsensusConfig) (clock : Clock) :
    Deployment :=
  match d.hosts n with
  | .running _ => d
  | .stopped disk =>
    if n ∈ K.ids ∧ config.policy = .always then
      match Node.open n K.ids config clock disk with
      | .ok node _ => d.setHost n (.running node)
      | .error _ disk => d.setHost n (.stopped disk)
    else d

def perform (K : Cluster) (d : Deployment) : Event → Deployment
  | .act n clock move => d.act n clock move
  | .crash n powerLost => d.crash n powerLost
  | .open n config clock => d.reopen K n config clock

variable {K : Cluster} {d : Deployment} {n : NodeId} {clock : Clock} {move : Move} {x y : Node}
  {sent : List Packet} {e : Error}

theorem act_ok (hhost : d.hosts n = .running x) (hpossible : move.possible n d.packets x = true)
    (haction : move.action n clock x = .ok sent y)
    : d.act n clock move = { d.setHost n (.running y) with packets := d.packets ++ sent } := by
  unfold act
  rw [hhost]
  dsimp only
  rw [if_pos hpossible, haction]

theorem act_error (hhost : d.hosts n = .running x) (hpossible : move.possible n d.packets x = true)
    (haction : move.action n clock x = .error e y)
    : d.act n clock move = { d.setHost n (.running y) with packets := d.packets ++ [] } := by
  unfold act
  rw [hhost]
  dsimp only
  rw [if_pos hpossible, haction, List.append_nil]
  rfl

theorem act_impossible (hhost : d.hosts n = .running x)
    (hpossible : ¬ move.possible n d.packets x = true)
    : d.act n clock move = d := by
  unfold act
  rw [hhost]
  dsimp only
  rw [if_neg hpossible]

theorem act_stopped {disk : Volume} (hhost : d.hosts n = .stopped disk)
    : d.act n clock move = d := by
  unfold act
  rw [hhost]

theorem node?_eq_some : d.node? n = some x ↔ d.hosts n = .running x := by
  unfold node?
  cases d.hosts n <;> simp

theorem perform_other {event : Event} (h : event.member ≠ n)
    : (d.perform K event).hosts n = d.hosts n := by
  cases event with
  | act m clock move =>
    have hne : n ≠ m := Ne.symm h
    unfold perform act
    dsimp only
    split
    . rfl
    . split
      . split
        . simp [setHost, hne]
        . simp [setHost, hne]
      . rfl
  | crash m powerLost =>
    have hne : n ≠ m := Ne.symm h
    unfold perform crash
    simp [setHost, hne]
  | «open» m config clock =>
    have hne : n ≠ m := Ne.symm h
    unfold perform reopen
    dsimp only
    split
    . rfl
    . split
      . split
        . simp [setHost, hne]
        . simp [setHost, hne]
      . rfl

theorem running_perform {event : Event} (hhost : d.hosts n = .running x)
    (hcrash : ∀ powerLost, event ≠ .crash n powerLost)
    : ∃ y, (d.perform K event).hosts n = .running y := by
  by_cases hevent : event.member = n
  . cases event with
    | act m clock move =>
      change m = n at hevent
      rw [hevent]
      change ∃ y, (d.act n clock move).hosts n = .running y
      by_cases hpossible : move.possible n d.packets x = true
      . cases haction : move.action n clock x with
        | ok sent y =>
          rw [act_ok hhost hpossible haction]
          exact ⟨y, by simp [setHost]⟩
        | error e y =>
          rw [act_error hhost hpossible haction]
          exact ⟨y, by simp [setHost]⟩
      . rw [act_impossible hhost hpossible]
        exact ⟨x, hhost⟩
    | crash m powerLost =>
      change m = n at hevent
      rw [hevent] at hcrash
      exact absurd rfl (hcrash powerLost)
    | «open» m config clock =>
      change m = n at hevent
      rw [hevent]
      unfold perform reopen
      simp [hhost]
  . rw [perform_other hevent]
    exact ⟨x, hhost⟩

end Deployment

namespace Cluster

def run (K : Cluster) (events : List Event) : Deployment :=
  events.foldl (Deployment.perform K) {}

def moment (K : Cluster) (events : List Event) (k : Nat) : Deployment :=
  K.run (events.take k)

end Cluster

end ReplicatedStore
