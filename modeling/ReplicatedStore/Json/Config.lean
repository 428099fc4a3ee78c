import ReplicatedStore.Config
import ReplicatedStore.Json.Storage

/-!
The JSON form of a configuration. Nothing is converted when it is read: a number is not a text, and a
number with a fraction is not a natural one.
-/

namespace ReplicatedStore

instance : Settings Json where
  text?
    | .string text => some text
    | _ => none
  natural?
    | .integer (.ofNat n) => if n < Nat.pow 2 64 then some n else none
    | _ => none
  truth?
    | .bool b => some b
    | _ => none
  choice?
    | .string name | .object [(name, .null)] => some name
    | _ => none
  items?
    | .array items => some items
    | _ => none
  fields? names
    | .object members => some members.reverse
    | .array items => if items.length ≤ names.length then some (names.zip items) else none
    | _ => none

def Json.ofNames (names : List String) (values : List Json) : Json := .object (names.zip values)

instance : ToJson SocketAddress := ⟨fun address => .string address.text⟩

instance : ToJson Peer where
  toJson peer := .ofNames Peer.names [toJson peer.id, toJson peer.address]

instance : ToJson ConsensusConfig where
  toJson c := .ofNames ConsensusConfig.names
    [toJson c.electionTimeoutMin, toJson c.electionTimeoutMax, toJson c.heartbeatInterval,
      toJson c.rpcTimeout, toJson c.commitTimeout, toJson c.entriesPerAppend,
      toJson c.snapshotThreshold, toJson c.policy]

instance : ToJson FallbackConfig where
  toJson c := .ofNames FallbackConfig.names
    [toJson c.enabled, toJson c.checkInterval, toJson c.probeTimeout, toJson c.minUnavailable,
      toJson c.minAvailable, toJson c.mergeTimeout, toJson c.unavailableStrategy,
      toJson c.rejoinStrategy]

instance : ToJson Config where
  toJson c := .ofNames Config.names
    [toJson c.nodeId, toJson c.address, toJson c.directory, toJson c.peers, toJson c.consensus,
      toJson c.fallback, toJson c.logLevel]

def Config.ofJson (json : Json) : Except Error Config :=
  (Config.ofSettings? json).elim (.error (.serialization "not a configuration")) .ok

end ReplicatedStore
