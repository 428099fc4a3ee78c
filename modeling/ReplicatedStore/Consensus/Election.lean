import ReplicatedStore.Consensus.Application

/-!
Elections: who asks for votes and when, who gives them, and what a majority of them makes of a
candidate.
-/

namespace ReplicatedStore

namespace NodeM

-- Takes the leadership of the current term and appends the entry that opens it. Without that entry there is
-- no leadership.
def takeLeadership : NodeM Bool := do
  let node ← get
  let next := node.log.lastIndex + 1
  match ← attempt (onLog (LogStore.append [{ term := node.term, index := next, command := [] }])) with
  | none => return false
  | some () =>
    let now := (← read).now
    modify fun node =>
      { node with
        role := .leader {
          since := now
          heartbeatDue := now + node.heartbeatInterval
          peers := node.peers.map fun peer => (peer, { next }) }
        leader := some node.id }
    commitByMajority
    return true

def countVotes (votes : List NodeId) : NodeM (List Order) := do
  if (← get).quorum ≤ votes.length then
    if ← takeLeadership then return (← get).broadcast
  return []

-- Starts an election in a new term with a vote for itself, unless that vote cannot be saved.
def campaign : NodeM (List Order) := do
  let node ← get
  if node.halted || node.role.isLeader || (← read).now < node.electionDue then return []
  modify fun node => { node with hard := { term := node.term + 1, votedFor := some node.id } }
  match ← attempt saveHardState with
  | none =>
    modify fun n => { n with hard := node.hard }
    resetTimer
    return []
  | some () =>
    modify fun node => { node with role := .candidate [node.id], leader := none }
    resetTimer
    if node.quorum ≤ 1 then countVotes [node.id]
    else
      let request := {
        term := node.term + 1
        candidate := node.id
        lastIndex := node.log.lastIndex
        lastTerm := node.log.lastTerm }
      return node.peers.map (.askVote · request)

def onVoteResponse (peer : NodeId) (electionTerm : Nat) (response : VoteResponse) :
    NodeM (List Order) := do
  let node ← get
  if node.halted then return []
  if node.term < response.term then
    let _ ← attempt (adoptTerm response.term none)
    return []
  match node.role with
  | .candidate votes =>
    if node.term = electionTerm && response.granted then
      let votes := if votes.contains peer then votes else votes ++ [peer]
      modify fun node => { node with role := .candidate votes }
      countVotes votes
    else return []
  | _ => return []

def isUpToDate (node : Node) (request : VoteRequest) : Bool :=
  node.log.lastTerm < request.lastTerm ||
    (node.log.lastTerm = request.lastTerm && node.log.lastIndex ≤ request.lastIndex)

-- Answers a request for a vote. A newer term alone does not put off an election of the node's own; only a
-- vote does.
def onVoteRequest (request : VoteRequest) : NodeM VoteResponse := do
  ensureRunning
  let node ← get
  if node.term < request.term then
    adoptTerm request.term none
    unless node.role.isLeader do
      modify fun n => { n with electionDue := node.electionDue }
  let node ← get
  if request.term < node.term then return { term := node.term, granted := false }
  let free := node.hard.votedFor.all (· == request.candidate)
  let granted := free && isUpToDate node request
  if granted then
    modify fun node => { node with hard := { node.hard with votedFor := some request.candidate } }
    saveHardState
    resetTimer
  return { term := node.term, granted }

def tick : NodeM (List Order) := do
  let node ← get
  let now := (← read).now
  if node.halted then return []
  match node.role with
  | .leader leadership =>
    let window := node.contactWindow
    if window < now - leadership.since && node.recentAcks now window + 1 < node.quorum then
      let _ ← attempt (adoptTerm node.term none)
      return []
    else if leadership.heartbeatDue ≤ now then
      let heartbeatDue := now + node.heartbeatInterval
      modify fun node => { node with role := .leader { leadership with heartbeatDue } }
      return node.broadcast
    else return []
  | _ => if node.electionDue ≤ now then campaign else return []

end NodeM

end ReplicatedStore
