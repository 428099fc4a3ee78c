import ReplicatedStore.Cluster.Process
import ReplicatedStore.Duration

/-!
How nodes work together: elections, replication, commits at the leader and through a follower, and
switches between the cluster and a store of one's own.
-/

namespace ReplicatedStore

namespace Script

variable {ρ : Type}

def call (source : Handle) (target : NodeId) (request : Request) :
    Script ρ (Except Error Response) := do
  perform .takeTurn
  let result ← match ← perform (.dispatch source target request) with
    | .refused e => pure (.error e)
    | .lost => do
      perform .forever
      pure (.error (.transport "lost"))
    | .answered delay response => do
      if let some millis := delay then perform (.sleep millis)
      pure (.ok response)
    | .reaches receiver => do
      perform .pause
      match ← perform (.handle receiver request) with
      | .error e => pure (.error e)
      | .ok response =>
        match ← perform (.reply source target) with
        | .error e => pure (.error e)
        | .ok () => pure (.ok response)
  perform .passTurn
  return result

def askVote (node : Handle) (peer : NodeId) (request : VoteRequest) : Script ρ Unit := do
  let config ← perform (.config node)
  match ← within config.rpcTimeout (call node peer (.vote request)) with
  | some (.ok (.vote response)) => perform (.takeVote node peer request.term response)
  | _ => return

def deliver (node : Handle) (peer : NodeId) (message : CatchUp) : Script ρ Bool := do
  let config ← perform (.config node)
  match message with
  | .append request =>
    match ← within config.rpcTimeout (call node peer (.append request)) with
    | some (.ok (.append response)) =>
      perform (.takeAppend node peer request.term (!request.entries.isEmpty) response)
    | _ => return false
  | .snapshot request =>
    match ← within config.commitTimeout (call node peer (.snapshot request)) with
    | some (.ok (.snapshot response)) =>
      perform (.takeSnapshot node peer request.term request.index response)
    | _ => return false

def replicate (node : Handle) (peer : NodeId) : Script ρ Unit := do
  match ← perform (.message node peer) with
  | none => return
  | some message => let _ ← deliver node peer message

def follow (node : Handle) : Order → Script ρ Unit
  | .askVote peer request => askVote node peer request
  | .replicate peer => replicate node peer

/-- Succeeds once a majority has acknowledged messages sent from now on. -/
def confirmMajority (node : Handle) : Script ρ (Except Error Unit) := do
  match ← perform (.openRound node) with
  | .error e => return .error e
  | .ok (needed, messages) =>
    if needed = 0 then return .ok ()
    if ← round needed (messages.map fun (peer, message) => deliver node peer message) then
      return .ok ()
    else return .error (.notLeader none)

def submit (node : Handle) (proposal : Proposal) : Script ρ (Except Error (Nat × Nat)) := do
  match ← perform (.propose node proposal) with
  | .error e => return .error e
  | .ok .readOnly =>
    match ← confirmMajority node with
    | .error e => return .error e
    | .ok () => return .ok (proposal.baseTerm, proposal.baseIndex)
  | .ok (.appended term index ticket) =>
    perform (.broadcast node)
    let limit := (← perform (.config node)).commitTimeout
    match ← within limit (perform (.settlement node ticket)) with
    | some (.ok ()) => return .ok (term, index)
    | some (.error e) => return .error e
    | none =>
      return .error (.indeterminate s!"entry {index} not committed within {Duration.ofMillis limit}")

def commitForwarded (node : Handle) (request : CommitRequest) : Script ρ CommitOutcome := do
  match Proposal.ofRequest request with
  | .error e => return .failed s!"undecodable mutations: {e.message}"
  | .ok proposal => return .ofResult (← submit node proposal)

def handOn (source : Handle) (target : NodeId) (request : CommitRequest) :
    Script ρ (Except Error CommitOutcome) := do
  match ← perform (.dispatch source target (.commit request)) with
  | .refused e => return .error e
  | .lost =>
    perform .forever
    return .error (.transport "lost")
  | .answered delay response =>
    if let some millis := delay then perform (.sleep millis)
    match response with
    | .commit outcome => return .ok outcome
    | _ => return .error (.transport "answer to another request")
  | .reaches receiver =>
    let outcome ← commitForwarded receiver request
    match ← perform (.reply source target) with
    | .error e => return .error e
    | .ok () => return .ok outcome

def waitForIndex (node : Handle) (index millis : Nat) : Script ρ (Except Error Unit) := do
  match ← within millis (perform (.applied node index)) with
  | some () => return .ok ()
  | none =>
    return .error (.indeterminate
      s!"index {index} not applied locally within {Duration.ofMillis millis}")

def forward (node : Handle) (leader : NodeId) (proposal : Proposal) :
    Script ρ (Except Error Unit) := do
  match ← handOn node leader proposal.toRequest with
  | .error e =>
    -- nothing was written, so the whole transaction may be tried again
    if proposal.writes.isEmpty then return .error (.notLeader (some leader))
    return .error (.indeterminate
      s!"lost contact with leader {leader} during commit: {e.message}")
  | .ok outcome =>
    match outcome.toResult with
    | .error e => return .error e
    | .ok (_, index) =>
      if proposal.writes.isEmpty then return .ok ()
      waitForIndex node index (← perform (.config node)).commitTimeout

def commit (transaction : TransactionId) : Script ρ (Except Error Unit) := do
  let result ← match ← perform (.planCommit transaction) with
    | .settled result => pure result
    | .lead node proposal => do
      match ← submit node proposal with
      | .error e => pure (.error e)
      | .ok _ => pure (.ok ())
    | .forward node leader proposal => forward node leader proposal
  perform (.release transaction)
  return result

def canReachMajority (node : Handle) (probeMillis : Nat) : Script ρ Bool := do
  let standing ← perform (.standing node)
  if !standing.inContact then return false
  if !standing.leads then return true
  match ← within probeMillis (confirmMajority node) with
  | some (.ok ()) => return true
  | _ => return false

def mergeSide (transaction : TransactionId) : MergeSide (Script ρ) where
  view := perform (.view transaction)
  setView view := perform (.setView transaction view)
  commit := commit transaction

/-- Merges the active store into another and makes that one active. The gate has to be ours alone. -/
def switchAlone (target : ActiveStore) : Script ρ (Except Error StoreSwitch) := do
  let coordinator ← perform .coordinator
  let node ← perform .coordinated
  if coordinator.state.active = target then return .ok { source := target, target, strategy := "" }
  let (source, destination) ← match target with
    | .standalone => do
      pure (← perform (.begin (.member node true)), ← perform (.begin .standalone))
    | .replicated => do
      pure (← perform (.begin .standalone), ← perform (.begin (.member node false)))
  let limit := coordinator.config.mergeTimeout
  let merging := (coordinator.strategyFor target).merge (mergeSide source) (mergeSide destination)
  let result ← match ← within limit merging with
    | some (.ok ()) => perform (.activate target coordinator.state.lastSeen)
    | some (.error e) => pure (.error (.mergeFailed e.message))
    | none => pure (.error (.mergeFailed s!"timed out after {Duration.ofMillis limit}"))
  perform (.drop source)
  perform (.drop destination)
  return result

def switchStore (target : ActiveStore) : Script ρ (Except Error StoreSwitch) := do
  let limit := (← perform .coordinator).config.mergeTimeout
  match ← within limit (perform (.enterGate true)) with
  | none =>
    return .error (.timeout s!"in-flight transactions still open after {Duration.ofMillis limit}")
  | some () =>
    let result ← switchAlone target
    perform (.leaveGate true)
    return result

def checkCluster : Script ρ (Except Error (Option StoreSwitch)) := do
  let probe := (← perform .coordinator).config.probeTimeout
  let available ← canReachMajority (← perform .coordinated) probe
  match ← perform (.observe available) with
  | none => return .ok none
  | some target =>
    match ← switchStore target with
    | .error e => return .error e
    | .ok transition => return .ok (some transition)

def beginActive : Script ρ TransactionId := do
  perform (.enterGate false)
  perform (.begin .active)

end Script

end ReplicatedStore
