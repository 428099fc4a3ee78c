import ReplicatedStore.Config.Address
import ReplicatedStore.Config.Consensus
import ReplicatedStore.Config.Fallback
import ReplicatedStore.Fallback.MergeStrategy

/-!
The configuration of a node.
-/

namespace ReplicatedStore

structure Peer where
  id : String
  address : String
  deriving DecidableEq, Repr, Inhabited

structure Config where
  nodeId : String := ""
  address : SocketAddress := .anyV4 7000
  directory : String := "./quorumkv-data"
  peers : List Peer := []
  consensus : ConsensusConfig := {}
  fallback : FallbackConfig := {}
  logLevel : String := "info"
  deriving DecidableEq, Repr, Inhabited

namespace Config

def checkPeers (nodeId : String) (seen : List String) : List Peer → Except Error Unit
  | [] => .ok ()
  | peer :: rest =>
    if peer.id = nodeId then
      .error (.invalidConfig s!"peer list contains this node ({peer.id})")
    else if seen.contains peer.id then .error (.invalidConfig s!"duplicate peer {peer.id}")
    else checkPeers nodeId (peer.id :: seen) rest

def validate (config : Config) : Except Error Unit := do
  if config.nodeId.isEmpty then throw (.invalidConfig "node_id cannot be empty")
  config.consensus.validate
  checkPeers config.nodeId [] config.peers
  let _ ← MergeRegistry.builtin.find config.fallback.unavailableStrategy
  let _ ← MergeRegistry.builtin.find config.fallback.rejoinStrategy

def peerIds (config : Config) : List String :=
  config.peers.map (·.id)

def join (directory name : String) : String :=
  if directory.isEmpty then name
  else if directory.endsWith "/" then directory ++ name
  else directory ++ "/" ++ name

def logDirectory (config : Config) : String := join config.directory "raft"

def standaloneDirectory (config : Config) : String := join config.directory "standalone"

def fallbackFile (config : Config) : String := join config.directory "fallback.state"

end Config

def Peer.names : List String := ["id", "addr"]

def Peer.ofSettings? [Settings σ] (value : σ) : Option Peer := do
  let given ← Settings.fields? names value
  return ⟨← Settings.required given "id" Settings.text?, ← Settings.required given "addr" Settings.text?⟩

def Config.names : List String :=
  ["node_id", "bind_addr", "data_dir", "peers", "raft", "fallback", "log_level"]

def Config.ofSettings? [Settings σ] (value : σ) : Option Config := do
  let given ← Settings.fields? names value
  let base : Config := {}
  return {
    nodeId := ← Settings.setting given "node_id" Settings.text? base.nodeId
    address := ← Settings.setting given "bind_addr"
      (fun value => (Settings.text? value).bind SocketAddress.ofText?) base.address
    directory := ← Settings.setting given "data_dir" Settings.text? base.directory
    peers := ← Settings.setting given "peers"
      (fun value => (Settings.items? value).bind (·.mapM Peer.ofSettings?)) base.peers
    consensus := ← Settings.setting given "raft" ConsensusConfig.ofSettings? base.consensus
    fallback := ← Settings.setting given "fallback" FallbackConfig.ofSettings? base.fallback
    logLevel := ← Settings.setting given "log_level" Settings.text? base.logLevel }

end ReplicatedStore
