import ReplicatedStore.Cluster.Protocol
import ReplicatedStore.Metrics
import ReplicatedStore.Retry
import ReplicatedStore.Server.Route

/-!
What the server of a node does with a request. Nodes send each other messages in their binary layout;
clients read and write keys, each in a transaction of its own that is tried again after failures that
allow it; and operators see the state of the node.
-/

namespace ReplicatedStore

structure Server where
  node : Handle
  metrics : Metrics := {}
  uptime : Nat := 0

namespace Server

variable {ρ : Type}

def version : String := "0.1.0"

def attempts : Nat := 5

def firstDelay : Nat := 50

def bodyLimit : Nat := 2097152

def idHeader : String := "x-request-id"

def isVisible (c : Char) : Bool := c = '\t' || (' ' ≤ c && c ≤ '~')

def requestId (request : HttpRequest) : RequestId :=
  match request.header? idHeader with
  | some text => if text.all isVisible then .given text else .fresh
  | none => .fresh

def decode (α : Type) [Wire α] (body : Bytes) : Except Error α :=
  match Wire.decode α body with
  | .ok message => .ok message
  | .error e => .error (.serialization e.message)

def decodeMessage (kind : MessageKind) (body : Bytes) : Except Error Request :=
  match kind with
  | .vote => Request.vote <$> decode VoteRequest body
  | .append => Request.append <$> decode AppendRequest body
  | .snapshot => Request.snapshot <$> decode SnapshotRequest body
  | .commit => Request.commit <$> decode CommitRequest body

def encodeMessage : Response → Bytes
  | .vote message => Wire.write message
  | .append message => Wire.write message
  | .snapshot message => Wire.write message
  | .commit outcome => Wire.write outcome

def handleMessage (server : Server) : Request → Script ρ (Except Error Response)
  | .commit request => do return .ok (.commit (← Script.commitForwarded server.node request))
  | request => Script.perform (.handle server.node request)

def message (server : Server) (kind : MessageKind) (body : Bytes) : Script ρ HttpResponse := do
  match decodeMessage kind body with
  | .error e => return .ofError e
  | .ok request => return .ofResult (.binary ∘ encodeMessage) (← server.handleMessage request)

def once (op : Operation) : Script ρ (Except Error Answer) := do
  let transaction : TransactionId ← Script.beginActive
  let view : TransactionView ← Script.perform (.view transaction)
  let result ← match view.perform op with
    | .error e => pure (.error e)
    | .ok (answer, view) => do
      Script.perform (.setView transaction view)
      let committed ← Script.commit transaction
      pure (committed.map fun _ => answer)
  Script.perform (.drop transaction)
  return result

def withRetry (op : Operation) : Script ρ (Except Error Answer) :=
  retry (once op) (fun delay => Script.perform (.sleep delay)) attempts firstDelay

def readKey (key : String) : Script ρ HttpResponse := do
  match ← withRetry (.get (Bytes.ofText key)) with
  | .error e => return .ofError e
  | .ok (.value (some value)) => return .binary value
  | .ok _ => return .text 404 s!"{key} not found"

def writeKey (key : String) (value : Bytes) : Script ρ HttpResponse := do
  return .ofResult (fun _ => .text 200 s!"PUT {key} ({value.length} bytes)")
    (← withRetry (.put (Bytes.ofText key) value))

def eraseKey (key : String) : Script ρ HttpResponse := do
  return .ofResult (fun _ => .text 200 s!"DELETE {key}") (← withRetry (.remove (Bytes.ofText key)))

def nodeJson (node : Node) : Json :=
  .object [
    ("node_id", toJson node.id),
    ("role", toJson node.role.name),
    ("term", toJson node.term),
    ("leader_id", toJson node.leader),
    ("commit_index", toJson node.commitIndex),
    ("last_applied", toJson node.lastApplied),
    ("last_log_index", toJson node.log.lastIndex),
    ("last_log_term", toJson node.log.lastTerm),
    ("snapshot_index", toJson node.log.snapshotIndex),
    ("peers", toJson node.peers)]

def status (server : Server) : Script ρ HttpResponse := do
  let node : Option Node ← Script.perform (.inspect server.node)
  let state := (← Script.perform .coordinator).state
  let keys : Nat ← Script.perform .standaloneSize
  return .json 200 (.object [
    ("raft", (node.map nodeJson).getD .null),
    ("active_store", toJson state.active),
    ("last_active_time", FallbackState.momentToJson state.lastSeen),
    ("standalone_keys", toJson keys),
    ("version", toJson version),
    ("uptime_seconds", toJson server.uptime)])

def metricsText (server : Server) : HttpResponse :=
  { status := 200, contentType := "text/plain; version=0.0.4"
    body := Bytes.ofText (server.metrics.text server.uptime) }

def tooLong : HttpResponse :=
  .text 413 "Failed to buffer the request body: length limit exceeded"

def serve (server : Server) (request : HttpRequest) : Route → Script ρ HttpResponse
  | .message kind =>
    if bodyLimit < request.body.length then return tooLong else server.message kind request.body
  | .key written =>
    match keyText? written with
    | none => return .text 400 "Invalid URL: Invalid UTF-8 in \x60key\x60"
    | some key =>
      match request.method with
      | "PUT" => if bodyLimit < request.body.length then return tooLong else writeKey key request.body
      | "DELETE" => eraseKey key
      | _ => readKey key
  | .status => server.status
  | .metrics => return server.metricsText

def identify (request : HttpRequest) (route : Route) (response : HttpResponse) : HttpResponse :=
  match route with
  | .key _ => { response with requestId := some (requestId request) }
  | _ => response

def respond (server : Server) (request : HttpRequest) : Script ρ HttpResponse := do
  match Route.ofPath? request.path with
  | none => return .notFound
  | some route =>
    let response ← if route.methods.contains request.method then server.serve request route
      else pure (.notAllowed route.methods)
    let response := identify request route response
    return if request.method = "HEAD" then response.head else response

end Server

end ReplicatedStore
