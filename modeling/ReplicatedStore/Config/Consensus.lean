import ReplicatedStore.Config.Settings
import ReplicatedStore.Error
import ReplicatedStore.Storage.LogStore

/-!
What a member of a cluster is told about timing, batching and durability.
-/

namespace ReplicatedStore

structure ConsensusConfig where
  electionTimeoutMin : Nat := 150
  electionTimeoutMax : Nat := 300
  heartbeatInterval : Nat := 50
  rpcTimeout : Nat := 200
  commitTimeout : Nat := 5000
  entriesPerAppend : Nat := 64
  snapshotThreshold : Nat := 1024
  policy : SyncPolicy := .always
  deriving DecidableEq, Repr, Inhabited

namespace ConsensusConfig

def validate (config : ConsensusConfig) : Except Error Unit :=
  let least := config.electionTimeoutMin
  if least = 0 ∨ config.electionTimeoutMax < least then
    .error (.invalidConfig
      s!"election timeout range {least}..{config.electionTimeoutMax} ms is empty")
  else if config.heartbeatInterval = 0 ∨ least ≤ config.heartbeatInterval then
    .error (.invalidConfig "heartbeat interval must be shorter than the election timeout")
  else if config.entriesPerAppend = 0 then
    .error (.invalidConfig "max_entries_per_append must be positive")
  else .ok ()

def names : List String :=
  ["election_timeout_min_ms", "election_timeout_max_ms", "heartbeat_interval_ms", "rpc_timeout_ms",
    "commit_timeout_ms", "max_entries_per_append", "snapshot_threshold", "sync_policy"]

def ofSettings? [Settings σ] (value : σ) : Option ConsensusConfig := do
  let given ← Settings.fields? names value
  let number (name : String) (default : Nat) := Settings.setting given name Settings.natural? default
  let base : ConsensusConfig := {}
  return {
    electionTimeoutMin := ← number "election_timeout_min_ms" base.electionTimeoutMin
    electionTimeoutMax := ← number "election_timeout_max_ms" base.electionTimeoutMax
    heartbeatInterval := ← number "heartbeat_interval_ms" base.heartbeatInterval
    rpcTimeout := ← number "rpc_timeout_ms" base.rpcTimeout
    commitTimeout := ← number "commit_timeout_ms" base.commitTimeout
    entriesPerAppend := ← number "max_entries_per_append" base.entriesPerAppend
    snapshotThreshold := ← number "snapshot_threshold" base.snapshotThreshold
    policy := ← Settings.setting given "sync_policy"
      (fun value => (Settings.choice? value).bind SyncPolicy.ofName?) base.policy }

end ConsensusConfig

end ReplicatedStore
