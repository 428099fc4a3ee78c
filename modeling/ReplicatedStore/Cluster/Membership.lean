import ReplicatedStore.Cluster.World

/-!
Opening and closing the members of a cluster and its coordinator.
-/

namespace ReplicatedStore

namespace World

variable {ρ : Type}

def handle? (world : World ρ) (id : NodeId) : Option Handle :=
  (world.member? id).bind (·.handle)

def endService (world : World ρ) (service : Service) : World ρ :=
  ((world.strands.filter fun (_, strand) => strand.service == some service).map (·.1)).foldl abort world

def stopMember (world : World ρ) (id : NodeId) : World ρ :=
  match world.handle? id with
  | none => world
  | some handle => ((world.endService (.ticker handle)).onNode handle NodeM.stop).2

def closeMember (world : World ρ) (id : NodeId) : World ρ :=
  let world := world.stopMember id
  match (world.handle? id).bind world.node? with
  | none => world
  | some node =>
    world.updateMember id fun member => { member with handle := none, volume := node.log.close }

def openMember (world : World ρ) (members : List NodeId) (id : NodeId) :
    Except Error Unit × World ρ :=
  let world := world.closeMember id
  match world.member? id with
  | none => (.error (.internal s!"no member {id}"), world)
  | some member =>
    let world := { world with clock := world.clock + 1 }
    match Node.open id members member.config (world.readClock member.config) member.volume with
    | .error e volume => (.error e, world.updateMember id fun member => { member with volume })
    | .ok node _ =>
      let handle := world.nodes.length
      let world := { world with nodes := world.nodes ++ [(handle, node)] }
      (.ok (), world.updateMember id fun member => { member with handle := some handle })

def volumeOf (world : World ρ) (id : NodeId) : Volume :=
  match (world.handle? id).bind world.node?, world.member? id with
  | some node, _ => node.log.disk
  | none, some member => member.volume
  | none, none => {}

def setVolume (world : World ρ) (id : NodeId) (volume : Volume) : World ρ :=
  match world.handle? id with
  | some handle =>
    { world with
      nodes := world.nodes.map fun (h, node) =>
        (h, if h = handle then { node with log := { node.log with disk := volume } } else node) }
  | none => world.updateMember id fun member => { member with volume }

def tickInterval (config : ConsensusConfig) : Nat := max 5 (config.heartbeatInterval / 2)

def tickOnce (config : ConsensusConfig) (handle : Handle) : Process ρ :=
  Script.run do
    Script.perform (.sleep (tickInterval config))
    Script.perform (.tick handle)

def startTicker (world : World ρ) (handle : Handle) (repeating : Bool) : World ρ :=
  let config := world.ask handle (·.config) {}
  (world.spawn {
    process := tickOnce config handle
    again := if repeating then some fun _ => tickOnce config handle else none
    service := some (.ticker handle) }).2

def startJob (world : World ρ) (job : String) (process : Process ρ) : World ρ :=
  let strands := world.strands.map fun (id, strand) =>
    (id, if strand.job = some job then { strand with job := none } else strand)
  { world with strands, jobs := (job, none) :: world.jobs.filter (·.1 ≠ job) }.spawn
    { process, job := some job } |>.2

def stopHealth (world : World ρ) : World ρ :=
  let world := world.endService .health
  { world with
    coordinator := world.coordinator.map fun coordinator => { coordinator with shutDown := true } }

def closeCoordinator (world : World ρ) : World ρ :=
  let world := world.endService .health
  match world.coordinator with
  | none => world
  | some coordinator => { world with
      coordinator := none
      fallbackVolume := coordinator.disk
      transactions := world.transactions.map fun (id, transaction) =>
        (id, { transaction with gated := false }) }

def openCoordinator (world : World ρ) (config : FallbackConfig) (handle : Handle) :
    Except Error Unit × World ρ :=
  let world := world.closeCoordinator
  match Coordinator.open config world.fallbackVolume with
  | .ok coordinator _ => (.ok (), { world with coordinator := some coordinator, coordinated := handle })
  | .error e _ => (.error e, world)

def checkOnce (config : FallbackConfig) : Process ρ :=
  Script.run do
    Script.perform (.sleep config.checkInterval)
    let _ ← Script.checkCluster

def startHealth (world : World ρ) : World ρ :=
  match world.coordinator with
  | some coordinator =>
    if coordinator.config.enabled && !coordinator.shutDown then
      (world.spawn {
        process := checkOnce coordinator.config
        again := some fun _ => checkOnce coordinator.config
        service := some .health }).2
    else world
  | none => world

end World

end ReplicatedStore
