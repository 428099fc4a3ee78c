import ReplicatedStore.Config.Settings

/-!
When a node leaves the cluster for its own store and when it comes back.
-/

namespace ReplicatedStore

structure FallbackConfig where
  enabled : Bool := true
  checkInterval : Nat := 1000
  probeTimeout : Nat := 1000
  minUnavailable : Nat := 3000
  minAvailable : Nat := 5000
  mergeTimeout : Nat := 30000
  unavailableStrategy : String := "overwrite"
  rejoinStrategy : String := "overwrite"
  deriving DecidableEq, Repr, Inhabited

namespace FallbackConfig

def names : List String :=
  ["enabled", "check_interval_ms", "probe_timeout_ms", "min_unavailable_ms", "min_available_ms",
    "merge_timeout_ms", "unavailable_merge_strategy", "rejoin_merge_strategy"]

def ofSettings? [Settings σ] (value : σ) : Option FallbackConfig := do
  let given ← Settings.fields? names value
  let number (name : String) (default : Nat) := Settings.setting given name Settings.natural? default
  let text (name : String) (default : String) := Settings.setting given name Settings.text? default
  let base : FallbackConfig := {}
  return {
    enabled := ← Settings.setting given "enabled" Settings.truth? base.enabled
    checkInterval := ← number "check_interval_ms" base.checkInterval
    probeTimeout := ← number "probe_timeout_ms" base.probeTimeout
    minUnavailable := ← number "min_unavailable_ms" base.minUnavailable
    minAvailable := ← number "min_available_ms" base.minAvailable
    mergeTimeout := ← number "merge_timeout_ms" base.mergeTimeout
    unavailableStrategy := ← text "unavailable_merge_strategy" base.unavailableStrategy
    rejoinStrategy := ← text "rejoin_merge_strategy" base.rejoinStrategy }

end FallbackConfig

end ReplicatedStore
