import ReplicatedStore.Config.Fallback
import ReplicatedStore.Fallback.Gate
import ReplicatedStore.Fallback.MergeStrategy
import ReplicatedStore.Fallback.State

/-!
Decides which store a node serves from. It leaves the cluster after the cluster was unavailable for a
while without a break, and comes back after it was available for a while without a break.
-/

namespace ReplicatedStore

structure StoreSwitch where
  source : ActiveStore
  target : ActiveStore
  strategy : String
  deriving DecidableEq, Repr, Inhabited

structure Health where
  downSince : Option Nat := none
  upSince : Option Nat := none
  deriving DecidableEq, Repr, Inhabited

structure Coordinator where
  config : FallbackConfig
  unavailableStrategy : MergeStrategy
  rejoinStrategy : MergeStrategy
  state : FallbackState
  disk : Volume
  health : Health := {}
  gate : Gate := {}
  shutDown : Bool := false

namespace Coordinator

def «open» (config : FallbackConfig) : Disk Coordinator := do
  let registry := MergeRegistry.builtin
  match registry.find config.unavailableStrategy, registry.find config.rejoinStrategy with
  | .error e, _ | .ok _, .error e => throw e
  | .ok unavailableStrategy, .ok rejoinStrategy =>
    let state ← FallbackState.load
    return { config, unavailableStrategy, rejoinStrategy, state, disk := ← get }

def strategyFor (coordinator : Coordinator) : ActiveStore → MergeStrategy
  | .standalone => coordinator.unavailableStrategy
  | .replicated => coordinator.rejoinStrategy

def lasted (since now millis : Nat) : Bool := 1000 * millis ≤ now - since

/-- Takes in whether the cluster is available. Gives the store to switch to, if a switch is due. -/
def observe (coordinator : Coordinator) (available : Bool) (now : Nat) (moment : Timestamp) :
    Option ActiveStore × Coordinator :=
  -- State and health have locks of their own. A switch that ended in between would leave a check with the
  -- store that was active before: the moment it notes is forgotten at the next switch, and what it finds due
  -- is a switch to the store that is active already. So both are read at one moment.
  let health := coordinator.health
  match coordinator.state.active, available with
  | .replicated, true =>
    (none, { coordinator with
      state := { coordinator.state with lastSeen := some moment }
      health := { health with downSince := none } })
  | .standalone, false =>
    (none, { coordinator with health := { health with upSince := none } })
  | .replicated, false =>
    let since := health.downSince.getD now
    (if lasted since now coordinator.config.minUnavailable then some .standalone else none,
      { coordinator with health := { health with downSince := some since } })
  | .standalone, true =>
    let since := health.upSince.getD now
    (if lasted since now coordinator.config.minAvailable then some .replicated else none,
      { coordinator with health := { health with upSince := some since } })

/-- Makes a merged store the active one. The state is saved first; if that fails nothing changes. -/
def activate (coordinator : Coordinator) (target : ActiveStore) (lastSeen : Option Timestamp) :
    Except Error StoreSwitch × Coordinator :=
  -- The file, the state and the health are replaced one after the other, but the gate is held alone: nothing
  -- begins in between, and what a check notes there is replaced as well. So all three are replaced at once.
  let state : FallbackState := { active := target, lastSeen }
  match FallbackState.save state coordinator.disk with
  | .error e disk => (.error e, { coordinator with disk })
  | .ok () disk =>
    (.ok {
        source := coordinator.state.active
        target
        strategy := (coordinator.strategyFor target).name },
      { coordinator with state, disk, health := {} })

end Coordinator

end ReplicatedStore
