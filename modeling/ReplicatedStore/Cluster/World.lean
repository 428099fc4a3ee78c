import ReplicatedStore.Cluster.Network
import ReplicatedStore.Cluster.Protocol
import ReplicatedStore.Consensus.Election
import ReplicatedStore.StandaloneStore

/-!
A cluster in one process: its members, what they do at the same time, and two clocks. The virtual clock
moves only when nothing can be done; the monotonic clock is what nodes read.
-/

namespace ReplicatedStore

structure Member where
  id : NodeId
  config : ConsensusConfig
  handle : Option Handle := none
  volume : Volume := {}

inductive TransactionBase where
  | member (node : Handle) (term index : Nat) (stale : Bool)
  | standalone (version : Nat)
  deriving DecidableEq, Repr, Inhabited

structure ClusterTransaction where
  view : TransactionView
  base : TransactionBase
  gated : Bool := false
  committing : Bool := false
  deriving Inhabited

inductive Wait where
  | nothing
  | pause
  | sleep (deadline order : Nat)
  | ticket (node : Handle) (ticket : Nat)
  | applied (node : Handle)
  | turn
  | gate
  | job (name : String)
  | forever
  deriving DecidableEq, Repr, Inhabited

-- A timer of a strand. Timers that run out at the same time do so in the order they were started.
structure Timer (ρ : Type) where
  deadline : Nat
  order : Option Nat := none
  late : Unit → Process ρ

structure Round (ρ : Type) where
  needed : Nat
  acked : Nat := 0
  members : List Nat
  ready : List Nat
  next : Bool → Process ρ

inductive Service where
  | ticker (node : Handle)
  | health
  deriving DecidableEq, Repr

structure Strand (ρ : Type) where
  process : Process ρ
  timers : List (Timer ρ) := []
  wait : Wait := .nothing
  queued : Bool := false
  owner : Option Nat := none
  round : Option (Round ρ) := none
  again : Option (Unit → Process ρ) := none
  job : Option String := none
  service : Option Service := none
  alone : Bool := false

structure World (ρ : Type) where
  members : List Member
  network : Network
  nodes : List (Handle × Node) := []
  sent : List (NodeId × Request) := []
  now : Nat := 0
  clock : Nat := 0
  strands : List (Nat × Strand ρ) := []
  nextStrand : Nat := 1
  nextOrder : Nat := 0
  queue : List Nat := []
  deferred : List Nat := []
  mainReady : Bool := false
  answer : Option ρ := none
  turn : Option Nat := none
  turnQueue : List Nat := []
  jobs : List (String × Option ρ) := []
  transactions : List (TransactionId × ClusterTransaction) := []
  nextTransaction : TransactionId := 0
  standalone : StandaloneStore := {}
  coordinator : Option Coordinator := none
  coordinated : Handle := 0
  fallbackVolume : Volume := {}
  moment : Timestamp := default

namespace World

variable {ρ : Type}

def main : Nat := 0

def strand? (world : World ρ) (id : Nat) : Option (Strand ρ) :=
  world.strands.lookup id

def waitOf (world : World ρ) (id : Nat) : Wait :=
  ((world.strand? id).map (·.wait)).getD .nothing

def setStrand (world : World ρ) (id : Nat) (strand : Strand ρ) : World ρ :=
  { world with
    strands := world.strands.map fun (i, old) => (i, if i = id then strand else old) }

def modifyStrand (world : World ρ) (id : Nat) (f : Strand ρ → Strand ρ) : World ρ :=
  { world with strands := world.strands.map fun (i, old) => (i, if i = id then f old else old) }

def wakeRoot (world : World ρ) (id : Nat) : World ρ :=
  if id = main then { world with mainReady := true }
  else
    match world.strand? id with
    | none => world
    | some strand =>
      if strand.queued then world
      else { world.modifyStrand id fun s => { s with queued := true } with queue := world.queue ++ [id] }

def wake (world : World ρ) (id : Nat) : World ρ :=
  match world.strand? id with
  | none => world
  | some strand =>
    match strand.owner with
    | none => world.wakeRoot id
    | some owner =>
      if strand.queued then world
      else
        let world := world.modifyStrand id fun s => { s with queued := true }
        let world := world.modifyStrand owner fun s =>
          { s with round := s.round.map fun round => { round with ready := round.ready ++ [id] } }
        world.wakeRoot owner

def wakeAll (world : World ρ) (ids : List Nat) : World ρ :=
  ids.foldl wake world

def waiting (world : World ρ) (p : Wait → Bool) : List Nat :=
  (world.strands.filter fun (_, strand) => p strand.wait).map (·.1)

def spawn (world : World ρ) (strand : Strand ρ) : Nat × World ρ :=
  let id := world.nextStrand
  (id, { world with
    strands := world.strands ++ [(id, { strand with queued := true })]
    nextStrand := id + 1
    queue := world.queue ++ [id] })

def takeOrder (world : World ρ) : Nat × World ρ :=
  (world.nextOrder, { world with nextOrder := world.nextOrder + 1 })

def node? (world : World ρ) (handle : Handle) : Option Node :=
  world.nodes.lookup handle

def member? (world : World ρ) (id : NodeId) : Option Member :=
  world.members.find? (·.id == id)

def updateMember (world : World ρ) (id : NodeId) (f : Member → Member) : World ρ :=
  { world with members := world.members.map fun member => if member.id = id then f member else member }

def readClock (world : World ρ) (config : ConsensusConfig) : Clock :=
  { now := world.clock, electionTimeout := 1000 * config.electionTimeoutMin }

-- Takes a step on a node, and lets those go on who wait for what came of it: first the clients whose entries
-- were settled, then those who wait for an applied index.
def onNode (world : World ρ) (handle : Handle) (action : NodeM α) : Except Error α × World ρ :=
  match world.node? handle with
  | none => (.error (.internal s!"no node {handle}"), world)
  | some node =>
    let world := { world with clock := world.clock + 1 }
    let (result, after) :=
      match action (world.readClock node.config) node with
      | .ok a after => (Except.ok a, after)
      | .error e after => (Except.error e, after)
    let world :=
      { world with
        nodes := world.nodes.map fun (h, old) => (h, if h = handle then after else old) }
    let settled := after.settled.drop node.settled.length
    let clients := settled.flatMap fun (ticket, _) => world.waiting (· == .ticket handle ticket)
    let watchers :=
      if after.announced = node.announced then [] else world.waiting (· == .applied handle)
    (result, (world.wakeAll clients).wakeAll watchers)

def onNodeSending (world : World ρ) (handle : Handle) (action : NodeM (α × List Order))
    (default : α) : α × World ρ :=
  match world.onNode handle action with
  | (.error _, world) => (default, world)
  | (.ok (a, orders), world) =>
    (a, orders.foldl (fun world order =>
      (world.spawn { process := (Script.follow handle order).run }).2) world)

def takeSettled (world : World ρ) (handle : Handle) (ticket : Nat) :
    Option (Except Error Unit) × World ρ :=
  match (world.node? handle).bind (·.settled.lookup ticket) with
  | none => (none, world)
  | some result =>
    (some result,
      { world with
        nodes := world.nodes.map fun (h, node) =>
          (h, if h = handle then
            { node with settled := node.settled.filter (·.1 ≠ ticket) } else node) })

def passTurn (world : World ρ) : World ρ :=
  match world.turnQueue with
  | [] => { world with turn := none }
  | next :: rest => { world with turn := some next, turnQueue := rest }.wake next

def updateGate (world : World ρ) (f : Gate → Gate) : World ρ :=
  match world.coordinator with
  | none => world
  | some coordinator =>
    let gate := f coordinator.gate
    let known := coordinator.gate.admitted
    { world with coordinator := some { coordinator with gate } }.wakeAll
      ((gate.admitted.filter fun entry => !known.contains entry).map Prod.fst)

def giveUp (world : World ρ) (id : Nat) : World ρ :=
  let world := { world with turnQueue := world.turnQueue.filter (· ≠ id) }
  let world := if world.turn = some id then world.passTurn else world
  let world := if world.waitOf id = .gate then world.updateGate (·.giveUp id) else world
  world.modifyStrand id fun strand => { strand with wait := .nothing }

def dropMember (world : World ρ) (id : Nat) : World ρ :=
  let world := world.giveUp id
  { world with strands := world.strands.filter (·.1 ≠ id) }

def dropRound (world : World ρ) (id : Nat) : World ρ :=
  let members := (((world.strand? id).bind (·.round)).map (·.members)).getD []
  let world := members.reverse.foldl dropMember world
  world.modifyStrand id fun strand => { strand with round := none }

def abort (world : World ρ) (id : Nat) : World ρ :=
  let world := (world.dropRound id).giveUp id
  let world := match (world.strand? id).map (·.alone) with
    | some true => world.updateGate (·.leave true)
    | _ => world
  { world with
    strands := world.strands.filter (·.1 ≠ id)
    queue := world.queue.filter (· ≠ id)
    deferred := world.deferred.filter (· ≠ id) }

def transaction? (world : World ρ) (id : TransactionId) : Option ClusterTransaction :=
  world.transactions.lookup id

def setTransaction (world : World ρ) (id : TransactionId) (transaction : ClusterTransaction) :
    World ρ :=
  { world with transactions := (id, transaction) :: world.transactions.filter (·.1 ≠ id) }

def addTransaction (world : World ρ) (transaction : ClusterTransaction) : TransactionId × World ρ :=
  let id := world.nextTransaction
  (id, { world.setTransaction id transaction with nextTransaction := id + 1 })

def memberTransaction (world : World ρ) (handle : Handle) (stale gated : Bool) : ClusterTransaction :=
  match world.node? handle with
  | none => default
  | some node =>
    let (index, term) := node.readPoint
    { view := { base := node.map, readOnly := stale }
      base := .member handle term index stale
      gated }

def standaloneTransaction (world : World ρ) (gated : Bool) : ClusterTransaction :=
  let transaction := world.standalone.begin
  { view := transaction.view, base := .standalone transaction.baseVersion, gated }

def begin (world : World ρ) (origin : Origin) : TransactionId × World ρ :=
  world.addTransaction <|
    match origin with
    | .member handle stale => world.memberTransaction handle stale false
    | .standalone => world.standaloneTransaction false
    | .active =>
      match world.coordinator.map fun coordinator => coordinator.state.active with
      | some ActiveStore.standalone => world.standaloneTransaction true
      | _ => world.memberTransaction world.coordinated false true

def release (world : World ρ) (id : TransactionId) : World ρ :=
  match world.transaction? id with
  | some transaction =>
    let world := world.setTransaction id { transaction with gated := false, committing := false }
    if transaction.gated then world.updateGate (·.leave false) else world
  | none => world

-- Forgets a transaction. While its commit is under way it is still needed, and stays in the gate.
def drop (world : World ρ) (id : TransactionId) : World ρ :=
  if ((world.transaction? id).map (·.committing)).getD false then world
  else
    let world := world.release id
    { world with transactions := world.transactions.filter (·.1 ≠ id) }

/-- Closes a transaction and takes out what is left to commit. -/
def planCommit (world : World ρ) (id : TransactionId) : CommitPlan × World ρ :=
  match world.transaction? id with
  | none => (.settled (.error .transactionClosed), world)
  | some transaction =>
    if transaction.view.closed then (.settled (.error .transactionClosed), world)
    else
      match transaction.base with
      | .standalone baseVersion =>
        let (result, after, standalone) :=
          StandaloneStore.commitTransaction { view := transaction.view, baseVersion } world.standalone
        (.settled result,
          { world.setTransaction id { transaction with view := after.view } with standalone })
      | .member handle baseTerm baseIndex stale =>
        let ((reads, writes), view) := transaction.view.take
        let world := world.setTransaction id { transaction with view, committing := true }
        let proposal : Proposal := { baseTerm, baseIndex, reads, writes }
        match stale, world.node? handle with
        | true, _ | _, none => (.settled (.ok ()), world)
        | false, some node =>
          -- The node is asked twice, whether it leads and who does. It is looked at once here: whom it names may
          -- have lost the office anyway by the time the transaction arrives there.
          if node.role.isLeader then (.lead handle proposal, world)
          else
            match node.leader with
            | none => (.settled (.error (.notLeader none)), world)
            | some leader => (.forward handle leader proposal, world)

def ask (world : World ρ) (handle : Handle) (f : Node → α) (default : α) : α :=
  ((world.node? handle).map f).getD default

def rpc (request : Request) : NodeM Response :=
  match request with
  | .vote message => .vote <$> NodeM.onVoteRequest message
  | .append message => .append <$> NodeM.onAppendRequest message
  | .snapshot message => .snapshot <$> NodeM.onSnapshotRequest message
  | .commit _ => throw (.internal "commits are not answered at once")

def setWait (world : World ρ) (me : Nat) (wait : Wait) : World ρ :=
  world.modifyStrand me fun strand => { strand with wait }

def waitFor (world : World ρ) (me : Nat) (wait : Wait) : World ρ :=
  world.setWait me wait

def perform (world : World ρ) (me : Nat) : (effect : Effect) → Option effect.Reply × World ρ
  | .config handle => (some (world.ask handle (·.config) ({} : ConsensusConfig)), world)
  | .tick handle =>
    let (_, world) := world.onNodeSending handle (do return ((), ← NodeM.tick)) ()
    (some (), world)
  | .takeVote handle peer electionTerm response =>
    let (_, world) := world.onNodeSending handle
      (do return ((), ← NodeM.onVoteResponse peer electionTerm response)) ()
    (some (), world)
  | .message handle peer =>
    match world.onNode handle (NodeM.messageFor peer) with
    | (.ok message, world) => (some message, world)
    | (.error _, world) => (some none, world)
  | .takeAppend handle peer sentTerm carried response =>
    let (acked, world) := world.onNodeSending handle
      (NodeM.onAppendResponse peer sentTerm carried response) false
    (some acked, world)
  | .takeSnapshot handle peer sentTerm index response =>
    let (acked, world) := world.onNodeSending handle
      (NodeM.onSnapshotResponse peer sentTerm index response) false
    (some acked, world)
  | .handle handle request =>
    let (result, world) := world.onNode handle (rpc request)
    (some result, world)
  | .propose handle proposal =>
    let (result, world) := world.onNode handle (NodeM.propose proposal)
    (some result, world)
  | .broadcast handle =>
    let orders := world.ask handle (·.broadcast) []
    (some (), (world.onNodeSending handle (pure ((), orders)) ()).2)
  | .openRound handle =>
    let (result, world) := world.onNode handle do
      let messages ← NodeM.openRound
      return ((← get).quorum - 1, messages)
    (some result, world)
  | .standing handle =>
    let world := { world with clock := world.clock + 1 }
    let standing := world.ask handle
      (fun node => (⟨node.inContact world.clock, node.role.isLeader⟩ : Standing)) ⟨false, false⟩
    (some standing, world)
  | .inspect handle => (some (world.node? handle), world)
  | .standaloneSize => (some world.standalone.map.size, world)
  | .settlement handle ticket =>
    match world.takeSettled handle ticket with
    | (some result, world) => (some result, world)
    | (none, world) => (none, world.waitFor me (.ticket handle ticket))
  | .applied handle index =>
    if world.ask handle (decide <| index ≤ ·.announced) false then (some (), world)
    else (none, world.waitFor me (.applied handle))
  | .pause =>
    match world.waitOf me with
    | .pause => (some (), world)
    | _ => (none, { world.waitFor me .pause with deferred := world.deferred ++ [me] })
  | .sleep millis =>
    match world.waitOf me with
    | .sleep deadline _ =>
      if deadline ≤ world.now then (some (), world) else (none, world)
    | _ =>
      if millis = 0 then (some (), world)
      else
        let (order, world) := world.takeOrder
        (none, world.waitFor me (.sleep (world.now + millis) order))
  | .forever => (none, world.waitFor me .forever)
  | .takeTurn =>
    match world.network with
    | .links _ =>
      if world.turn = some me then (some (), world)
      else if world.turn.isNone then (some (), { world with turn := some me })
      else if world.turnQueue.contains me then (none, world)
      else (none, { world.waitFor me .turn with turnQueue := world.turnQueue ++ [me] })
    | _ => (some (), world)
  | .passTurn =>
    (some (), if world.turn = some me then world.passTurn else world)
  | .dispatch source target request =>
    let (dispatch, network) := world.network.dispatch (world.ask source (·.id) "") target
      ((world.member? target).bind (·.handle)) request
    (some dispatch, { world with network, sent := world.sent ++ [(target, request)] })
  | .reply source target =>
    (some (world.network.reply (world.ask source (·.id) "") target), world)
  | .begin origin =>
    let (id, world) := world.begin origin
    (some id, world)
  | .view id =>
    let view : TransactionView := ((world.transaction? id).map (·.view)).getD default
    (some view, world)
  | .setView id view =>
    (some (), match world.transaction? id with
      | some transaction => world.setTransaction id { transaction with view }
      | none => world)
  | .planCommit id =>
    let (plan, world) := world.planCommit id
    (some plan, world)
  | .release id => (some (), world.release id)
  | .drop id => (some (), world.drop id)
  | .enterGate alone =>
    match world.coordinator with
    | none => (some (), world)
    | some coordinator =>
      let (entered, gate) :=
        if world.waitOf me = .gate then coordinator.gate.notice me else coordinator.gate.enter me alone
      let world := { world with coordinator := some { coordinator with gate } }
      if entered then
        (some (), world.modifyStrand me fun strand => { strand with alone := alone || strand.alone })
      else (none, world.waitFor me .gate)
  | .leaveGate alone =>
    let world := world.modifyStrand me fun strand => { strand with alone := false }
    (some (), world.updateGate (·.leave alone))
  | .coordinator => (world.coordinator, world)
  | .coordinated => (some world.coordinated, world)
  | .observe available =>
    let world := { world with clock := world.clock + 1 }
    match world.coordinator with
    | none => (some none, world)
    | some coordinator =>
      let (due, coordinator) := coordinator.observe available world.clock world.moment
      (some due, { world with coordinator := some coordinator })
  | .activate target lastSeen =>
    match world.coordinator with
    | none => (some (.error (.internal "no coordinator")), world)
    | some coordinator =>
      let (result, coordinator) := coordinator.activate target lastSeen
      (some result, { world with coordinator := some coordinator })

end World

end ReplicatedStore
