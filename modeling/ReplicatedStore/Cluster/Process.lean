import ReplicatedStore.Consensus.Proposal
import ReplicatedStore.Fallback.Coordinator

/-!
Activities that wait: sending messages, waiting for a commit, switching stores. An activity is a tree of
atomic steps, each with a continuation for every reply, so that whoever runs it may let others take
steps in between. Activities are written in a monad.
-/

namespace ReplicatedStore

abbrev Handle := Nat

abbrev TransactionId := Nat

inductive Request where
  | vote (message : VoteRequest)
  | append (message : AppendRequest)
  | snapshot (message : SnapshotRequest)
  | commit (message : CommitRequest)
  deriving DecidableEq, Repr

inductive Response where
  | vote (message : VoteResponse)
  | append (message : AppendResponse)
  | snapshot (message : SnapshotResponse)
  | commit (outcome : CommitOutcome)
  deriving DecidableEq, Repr

inductive Dispatch where
  | refused (error : Error)
  | reaches (receiver : Handle)
  | answered (delay : Option Nat) (response : Response)
  | lost
  deriving DecidableEq, Repr

inductive CommitPlan where
  | settled (result : Except Error Unit)
  | lead (node : Handle) (proposal : Proposal)
  | forward (node : Handle) (leader : NodeId) (proposal : Proposal)

structure Standing where
  inContact : Bool
  leads : Bool
  deriving DecidableEq, Repr

inductive Origin where
  | member (node : Handle) (stale : Bool)
  | standalone
  | active
  deriving DecidableEq, Repr

/-- An atomic step, or a wait for one. -/
inductive Effect where
  | config (node : Handle)
  | tick (node : Handle)
  | takeVote (node : Handle) (peer : NodeId) (electionTerm : Nat) (response : VoteResponse)
  | message (node : Handle) (peer : NodeId)
  | takeAppend (node : Handle) (peer : NodeId) (sentTerm : Nat) (carried : Bool)
      (response : AppendResponse)
  | takeSnapshot (node : Handle) (peer : NodeId) (sentTerm index : Nat) (response : SnapshotResponse)
  | handle (node : Handle) (request : Request)
  | propose (node : Handle) (proposal : Proposal)
  | broadcast (node : Handle)
  | openRound (node : Handle)
  | standing (node : Handle)
  | inspect (node : Handle)
  | settlement (node : Handle) (ticket : Nat)
  | applied (node : Handle) (index : Nat)
  | pause
  | sleep (millis : Nat)
  | forever
  | takeTurn
  | passTurn
  | dispatch (source : Handle) (target : NodeId) (request : Request)
  | reply (source : Handle) (target : NodeId)
  | begin (origin : Origin)
  | view (transaction : TransactionId)
  | setView (transaction : TransactionId) (view : TransactionView)
  | planCommit (transaction : TransactionId)
  | release (transaction : TransactionId)
  | drop (transaction : TransactionId)
  | enterGate (alone : Bool)
  | leaveGate (alone : Bool)
  | standaloneSize
  | coordinator
  | coordinated
  | observe (available : Bool)
  | activate (target : ActiveStore) (lastSeen : Option Timestamp)

def Effect.Reply : Effect → Type
  | .config _ => ConsensusConfig
  | .message .. => Option CatchUp
  | .takeAppend .. | .takeSnapshot .. => Bool
  | .handle .. => Except Error Response
  | .propose .. => Except Error Accepted
  | .openRound _ => Except Error (Nat × List (NodeId × CatchUp))
  | .standing _ => Standing
  | .inspect _ => Option Node
  | .standaloneSize => Nat
  | .settlement .. | .reply .. => Except Error Unit
  | .dispatch .. => Dispatch
  | .begin _ => TransactionId
  | .view _ => TransactionView
  | .planCommit _ => CommitPlan
  | .coordinator => Coordinator
  | .coordinated => Handle
  | .observe _ => Option ActiveStore
  | .activate .. => Except Error StoreSwitch
  | _ => Unit

/-- An activity that ends with an answer of type `ρ`, with word of an acknowledgement, or just ends. -/
inductive Process (ρ : Type) where
  | stop
  | acknowledge (acked : Bool)
  | answer (result : ρ)
  | step (effect : Effect) (next : effect.Reply → Process ρ)
  | join (job : String) (next : ρ → Process ρ)
  | setTimer (millis : Nat) (late : Unit → Process ρ) (next : Unit → Process ρ)
  | clearTimer (next : Unit → Process ρ)
  | round (needed : Nat) (members : List (Process ρ)) (next : Bool → Process ρ)

def Script (ρ α : Type) := (α → Process ρ) → Process ρ

namespace Script

instance : Monad (Script ρ) where
  pure a := fun next => next a
  bind script f := fun next => script fun a => f a next

instance : LawfulMonad (Script ρ) :=
  LawfulMonad.mk' _ (fun _ => rfl) (fun _ _ => rfl) (fun _ _ _ => rfl)

def perform (effect : Effect) : Script ρ effect.Reply := Process.step effect

def join (job : String) : Script ρ ρ := Process.join job

def within (millis : Nat) (script : Script ρ α) : Script ρ (Option α) := fun next =>
  Process.setTimer millis (fun _ => next none) fun _ =>
    script fun a => .clearTimer fun _ => next (some a)

def round (needed : Nat) (members : List (Script ρ Bool)) : Script ρ Bool :=
  Process.round needed (members.map fun member => member .acknowledge)

def toProcess (script : Script ρ ρ) : Process ρ := script .answer

def run (script : Script ρ Unit) : Process ρ := script fun _ => .stop

end Script

end ReplicatedStore
