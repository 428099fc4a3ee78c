import ReplicatedStore.Cluster.Network
import ReplicatedStore.Json.Consensus

/-!
The JSON forms of what is seen of a cluster from outside: requests and prepared answers, the status of a
node, and switches of the store.
-/

namespace ReplicatedStore

instance : ToJson Request where
  toJson
    | .vote message => toJson message
    | .append message => toJson message
    | .snapshot message => toJson message
    | .commit message => toJson message

instance : ToJson Response where
  toJson
    | .vote message => toJson message
    | .append message => toJson message
    | .snapshot message => toJson message
    | .commit outcome => toJson outcome

def Response.ofJson (kind : String) (json : Json) : Except String Response := do
  match kind with
  | "vote" => return .vote (← ReplicatedStore.ofJson json)
  | "append" => return .append (← ReplicatedStore.ofJson json)
  | "snapshot" => return .snapshot (← ReplicatedStore.ofJson json)
  | "commit" => return .commit (← ReplicatedStore.ofJson json)
  | other => throw s!"no such request: {other}"

def PreparedReply.ofJson (kind : String) (json : Json) : Except String PreparedReply := do
  let reply := if json.has "after_ms" then json.member "reply" else json
  match reply with
  | .string "hang" => return .silence
  | _ => return .answer (← json.getAs "after_ms") (← Response.ofJson kind reply)

def Request.ofJson (kind : String) (json : Json) : Except String Request := do
  match kind with
  | "vote" => return .vote (← ReplicatedStore.ofJson json)
  | "append" => return .append (← ReplicatedStore.ofJson json)
  | "snapshot" => return .snapshot (← ReplicatedStore.ofJson json)
  | "commit" => return .commit (← ReplicatedStore.ofJson json)
  | other => throw s!"no such request: {other}"

instance : OfJson Proposal where
  ofJson json := do
    let (baseIndex, baseTerm) ← json.getPoint "base"
    let mutations ← json.getOr "mutations" ([] : Bytes)
    let writes ← if mutations.isEmpty then pure {} else
      match WriteSet.decode mutations with
      | .ok writes => pure writes
      | .error e => throw e.message
    return { baseTerm, baseIndex, reads := ← json.getAs "reads", writes }

instance : ToJson Node where
  toJson node := .object [
    ("role", toJson node.role.name),
    ("term", toJson node.term),
    ("leader", toJson node.leader),
    ("commit", toJson node.commitIndex),
    ("applied", toJson node.lastApplied),
    ("last", toJson (node.log.lastIndex, node.log.lastTerm)),
    ("snap", toJson node.log.snapshotIndex)]

instance : ToJson StoreSwitch where
  toJson t := .array [toJson t.source, toJson t.target, toJson t.strategy]

end ReplicatedStore
