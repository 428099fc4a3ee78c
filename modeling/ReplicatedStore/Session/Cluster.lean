import ReplicatedStore.Cluster.Membership
import ReplicatedStore.Cluster.Scheduler
import ReplicatedStore.Json.Cluster
import ReplicatedStore.Json.Storage

/-!
A session with a cluster: steps, written as JSON objects that name in `do` what is to be done, are done one after
the other, and transactions and jobs go by names.
-/

namespace ReplicatedStore

def TransactionView.performJson (view : TransactionView) (op : Operation) : Json × TransactionView :=
  match view.perform op with
  | .ok (answer, view) => (toJson (.ok answer : Except Error Answer), view)
  | .error e => (toJson e, view)

def Volume.stepJson (volume : Volume) (names : List String) (json : Json) :
    Except String (Option (Json × Volume)) := do
  let change : Option Volume.Edit ← ofJson json
  let what : String ← json.getAs "do"
  match change with
  | some change => return some (.null, volume.edit (← json.getAs "file") change)
  | none => return if what = "files" then some (volume.listing names, volume) else none

structure Session where
  world : World Json
  members : List NodeId
  first : NodeId
  fallback : FallbackConfig := {}
  names : List (String × TransactionId) := []

namespace Session

abbrev Told := Json × Nat × Session

def does (session : Session) (script : Script Json Json) : Told :=
  let (answer, taken, world) := session.world.runStep script.toProcess
  (answer.getD .null, taken, { session with world })

def answers (session : Session) (answer : Json) : Told := session.does (pure answer)

def changes (session : Session) (world : World Json) : Told :=
  { session with world }.answers .null

def waits (session : Session) (millis : Nat) : Told :=
  session.does do
    Script.perform (.sleep millis)
    return .null

def opens (session : Session) (opened : Except Error Unit × World Json) : Told :=
  { session with world := opened.2 }.answers (toJson opened.1)

def closed (session : Session) : Told := session.answers (.string "closed")

def unknown (what : String) : Except String α := .error s!"no such thing: {what}"

def node? (session : Session) (id : NodeId) : Option Node :=
  (session.world.handle? id).bind session.world.node?

def openAll (session : Session) : Session :=
  session.world.members.foldl (fun session member =>
    { session with world := (session.world.openMember session.members member.id).2 }) session

def transaction? (session : Session) (name : String) : Option TransactionId :=
  session.names.lookup name

def transaction (session : Session) (json : Json) : Except String TransactionId := do
  let name ← json.getAs "tx"
  (session.transaction? name).elim (unknown name) .ok

def starts (session : Session) (script : Script Json Json) (json : Json) : Except String Told := do
  return session.changes (session.world.startJob (← json.getAs "job") script.toProcess)

def commits (session : Session) (json : Json) : Except String (Script Json Json) := do
  return toJson <$> Script.commit (← session.transaction json)

def asked (handle : Handle) (node : Node) (what : String) (json : Json) :
    Except String (Script Json Json) := do
  match what with
  | "vote" | "append" | "snapshot" =>
    let request ← Request.ofJson what json
    return do
      let result : Except Error Response ← Script.perform (.handle handle request)
      return toJson result
  | "forwarded" => return toJson <$> Script.commitForwarded handle (← ofJson json)
  | "submit" => return toJson <$> Script.submit handle (← ofJson json)
  | "confirm" => return toJson <$> Script.confirmMajority handle
  | "wait_applied" =>
    return toJson <$> Script.waitForIndex handle (← json.getAs "index") (← json.getAs "ms")
  | "available" => return toJson <$> Script.canReachMajority handle (← json.getOr "ms" 100)
  | "quorum" =>
    return do
      let standing : Standing ← Script.perform (.standing handle)
      return toJson standing.inContact
  | "log" => return pure (toJson node.log.entries)
  | "kv" =>
    let (index, term) := node.readPoint
    return pure (.object [("map", toJson node.map), ("term", toJson term), ("index", toJson index)])
  | "getters" =>
    return pure (.object [
      ("id", toJson node.id),
      ("peers", toJson node.peers),
      ("leader", toJson node.leader),
      ("term", toJson node.term),
      ("is_leader", toJson node.role.isLeader),
      ("commit", toJson node.commitIndex),
      ("applied", toJson node.lastApplied),
      ("status_peers", toJson node.peers),
      ("status_id", toJson node.id)])
  | other => unknown other

def named (session : Session) (name : String) (id : TransactionId) : Session :=
  { session with names := (name, id) :: session.names.filter (·.1 ≠ name) }

def begins (session : Session) (handle : Handle) (stale : Bool) (json : Json) : Except String Told := do
  let name ← json.getAs "tx"
  let (id, world) := session.world.begin (.member handle stale)
  let base := (world.node? handle).elim (0, 0) (·.readPoint)
  let world := (session.transaction? name).elim world world.drop
  return ({ session with world }.named name id).answers
    (.object [("base", toJson base), ("stale", toJson stale)])

def nodeStep (session : Session) (id : NodeId) (handle : Handle) (node : Node) (what : String)
    (json : Json) : Except String Told := do
  let world := session.world
  match what with
  | "tick" =>
    let wait : Bool ← json.getAs "wait"
    let world := if wait then { world with clock := world.clock + 260000 } else world
    return { session with world := world.startTicker handle false }.waits 6
  | "start" => return session.changes (world.startTicker handle true)
  | "stop" => return session.changes (world.stopMember id)
  | "begin" => session.begins handle false json
  | "begin_stale" => session.begins handle true json
  | "begin_submit" | "begin_confirm" =>
    let script ← asked handle node (what.drop "begin_".length).toString json
    session.starts script json
  | _ => return session.does (← asked handle node what json)

def opensCoordinator (session : Session) : Told :=
  match session.world.handle? session.first with
  | none => session.closed
  | some handle => session.opens (session.world.openCoordinator session.fallback handle)

def fallbackStep (session : Session) (what : String) (json : Json) : Except String Told := do
  let world := session.world
  match what with
  | "fb_check" => return session.does (toJson <$> Script.checkCluster)
  | "fb_switch" => return session.does (toJson <$> Script.switchStore (← json.getAs "to"))
  | "fb_begin" =>
    let name ← json.getAs "tx"
    let (answer, taken, after) := session.does do
      let id ← Script.beginActive
      if let some old := session.transaction? name then Script.perform (.drop old)
      return toJson id
    return (.null, taken, after.named name (← ofJson answer))
  | "fb_start" => return session.changes world.startHealth
  | "fb_shutdown" => return session.changes world.stopHealth
  | other => unknown other

def linkStep (session : Session) (links : Links) (what : String) (json : Json) : Except String Told := do
  let links ← match what with
    | "isolate" => pure (links.isolate (← json.getAs "node"))
    | "heal" => pure (links.heal (← json.getAs "node"))
    | "cut_link" => pure (links.sever (← json.getAs "a") (← json.getAs "b"))
    | _ => pure {}
  return session.changes { session.world with network := .links links }

def prepares (session : Session) (replies : List ((String × NodeId) × List PreparedReply))
    (json : Json) : Except String Told := do
  let kind ← json.getAs "kind"
  let peer ← json.getAs "peer"
  let more : List Json ← json.getAs "replies"
  let queue := Network.repliesFor replies kind peer ++ (← more.mapM (PreparedReply.ofJson kind))
  let network := .prepared (Network.setReplies replies kind peer queue)
  return { session with world := { session.world with network } }.answers (toJson queue.length)

def operates (session : Session) (op : Operation) (json : Json) : Except String Told := do
  let id ← session.transaction json
  return session.does do
    let view : TransactionView ← Script.perform (.view id)
    let (answer, view) := view.performJson op
    Script.perform (.setView id view)
    return answer

def rollsBack (session : Session) (json : Json) : Except String Told := do
  let id ← session.transaction json
  return session.does do
    let view : TransactionView ← Script.perform (.view id)
    Script.perform (.setView id view.close)
    Script.perform (.release id)
    return .null

def step (session : Session) (json : Json) : Except String Told := do
  let world := { session.world with sent := [] }
  let session := { session with world }
  let what : String ← json.getAs "do"
  let id ← json.getOr "node" session.first
  let op : Option Operation ← ofJson json
  if let some op := op then return ← session.operates op json
  let names := [LogStore.logName, LogStore.snapshotName, HardState.fileName]
  if let some (answer, volume) ← (world.volumeOf id).stepJson names json then
    return { session with world := world.setVolume id volume }.answers answer
  match what, world.network with
  | "advance", _ => return session.waits (← json.getAs "ms")
  | "elapse", _ => return session.changes { world with clock := world.clock + 1000 * (← json.getAs "ms") }
  | "close", _ => return session.changes (world.closeMember id)
  | "open", _ => return session.opens (world.openMember session.members id)
  | "join", _ => return session.does (Script.join (← json.getAs "job"))
  | "done", _ => return session.answers (toJson (world.jobs.lookup (← json.getAs "job")).join.isSome)
  | "fb_open", _ => return session.opensCoordinator
  | "commit", _ => return session.does (← session.commits json)
  | "begin_commit", _ => session.starts (← session.commits json) json
  | "rollback", _ => session.rollsBack json
  | "drop_tx", _ =>
    return session.changes ((session.transaction? (← json.getAs "tx")).elim world world.drop)
  | "reply", .prepared replies => session.prepares replies json
  | "forget", _ => return session.changes { world with network := .prepared [] }
  | "isolate", .links links | "heal", .links links | "cut_link", .links links
  | "heal_all", .links links => session.linkStep links what json
  | _, _ =>
    if what.startsWith "fb_" then
      return ← if world.coordinator.isSome then session.fallbackStep what json else pure session.closed
    match world.handle? id with
    | none => return session.closed
    | some handle =>
      (world.node? handle).elim (unknown id) fun node => session.nodeStep id handle node what json

end Session

end ReplicatedStore
