import Mathlib.Data.Finset.Card
import Mathlib.Logic.Function.Basic
import Mathlib.Logic.Relation
import ReplicatedStore.Cluster.World
import ReplicatedStore.Proofs.Runs.Calls
import ReplicatedStore.Proofs.Storage.Replacing

/-!
Calls on a coordinator, interleaved in any way: each step is one atomic step of a call, a wait of a call
that is given up, or anything that happens elsewhere.
-/

namespace ReplicatedStore

/-- What is asked of a coordinator and of the transactions that began on it. -/
inductive FallbackCall where
  | begin
  | operate (transaction : TransactionId) (operation : Operation)
  | commit (transaction : TransactionId)
  | rollback (transaction : TransactionId)
  | drop (transaction : TransactionId)
  | switch (target : ActiveStore)
  | check

inductive FallbackAnswer where
  | begun (transaction : TransactionId)
  | done (result : Except Error Answer)
  | committed (result : Except Error Unit)
  | closed
  | switched (result : Except Error StoreSwitch)
  | checked (result : Except Error (Option StoreSwitch))

namespace FallbackAnswer

def isFailedSwitch : FallbackAnswer → Bool
  | .switched (.error _) | .checked (.error _) => true
  | _ => false

end FallbackAnswer

namespace FallbackCall

open Script

def script : FallbackCall → Script FallbackAnswer FallbackAnswer
  | .begin => return .begun (← beginActive)
  | .operate id operation => do
    let view : TransactionView ← perform (.view id)
    let (result, view) := match view.perform operation with
      | .ok (answer, view) => (.ok answer, view)
      | .error e => (.error e, view)
    perform (.setView id view)
    return .done result
  | .commit id => return .committed (← Script.commit id)
  | .rollback id => do
    let view : TransactionView ← perform (.view id)
    perform (.setView id view.close)
    perform (.release id)
    return .closed
  | .drop id => do
    perform (.drop id)
    return .closed
  | .switch target => return .switched (← switchStore target)
  | .check => return .checked (← checkCluster)

def transaction? : FallbackCall → Option TransactionId
  | .operate id _ | .commit id | .rollback id | .drop id => some id
  | .begin | .switch _ | .check => none

def isAbortable : FallbackCall → Bool
  | .switch _ | .check => true
  | _ => false

end FallbackCall

namespace Process

variable {ρ : Type}

inductive Mentions : Process ρ → Effect → Prop where
  | step {effect next} : Mentions (.step effect next) effect
  | next {effect next other} (reply : effect.Reply) (h : Mentions (next reply) other) :
      Mentions (.step effect next) other
  | join {job next other} (reply : ρ) (h : Mentions (next reply) other) : Mentions (.join job next) other
  | late {millis late next other} (h : Mentions (late ()) other) :
      Mentions (.setTimer millis late next) other
  | setTimer {millis late next other} (h : Mentions (next ()) other) :
      Mentions (.setTimer millis late next) other
  | clearTimer {next other} (h : Mentions (next ()) other) : Mentions (.clearTimer next) other
  | member {needed members next other member} (hmember : member ∈ members) (h : Mentions member other) :
      Mentions (.round needed members next) other
  | reach {needed members next other} (reached : Bool) (h : Mentions (next reached) other) :
      Mentions (.round needed members next) other

def settle (now : Nat) (timers : List (Timer ρ)) : Process ρ → Process ρ × List (Timer ρ)
  | .setTimer millis late next => settle now ({ deadline := now + millis, late } :: timers) (next ())
  | .clearTimer next => settle now (timers.drop 1) (next ())
  | process => (process, timers)

end Process

structure Face where
  active : ActiveStore
  saved : Option ActiveStore
  content : List (Handle × Node) ⊕ StandaloneStore

namespace FallbackState

def saved? (volume : Volume) : Option ActiveStore :=
  match load volume with
  | .ok state _ => some state.active
  | .error .. => none

end FallbackState

namespace World

variable {ρ : Type}

def active? (world : World ρ) : Option ActiveStore :=
  world.coordinator.map (·.state.active)

def face (world : World ρ) : Option Face :=
  world.coordinator.map fun coordinator => {
    active := coordinator.state.active
    saved := FallbackState.saved? coordinator.disk
    content := match coordinator.state.active with
      | .replicated => .inl world.nodes
      | .standalone => .inr world.standalone }

def storeOf (world : World ρ) : TransactionBase → Option ActiveStore
  | .standalone _ => some .standalone
  | .member node _ _ stale => if node = world.coordinated ∧ stale = false then some .replicated else none

def Numbered (world : World ρ) : Prop :=
  ∀ entry ∈ world.strands, entry.1 < world.nextStrand

structure Spares (called : Nat → Prop) (world world' : World ρ) : Prop where
  coordinator : ∀ c, world.coordinator = some c → ∃ c', world'.coordinator = some c' ∧
    c'.gate = c.gate ∧ c'.state.active = c.state.active ∧
    c'.disk.find? = c.disk.find? ∧ c'.disk.nextId = c.disk.nextId
  coordinated : world'.coordinated = world.coordinated
  node : ∀ handle, (world.node? handle).isSome → (world'.node? handle).isSome
  transactions : world'.transactions = world.transactions
  nextTransaction : world'.nextTransaction = world.nextTransaction
  strand : ∀ id strand, called id → world.strand? id = some strand → strand.round = none →
    ∃ queued, world'.strand? id = some { strand with queued }
  numbered : world.Numbered → world'.Numbered

end World

structure Underway where
  call : FallbackCall
  altered : Prop := False
  merging : List TransactionId := []

namespace Underway

variable {ρ : Type}

def sees (underway : Underway) (world world' : World ρ) : Underway :=
  { underway with altered := underway.altered ∨ world'.face ≠ world.face }

def after (underway : Underway) : (effect : Effect) → effect.Reply → Underway
  | .observe _, _ => { underway with altered := False }
  | .begin .standalone, id | .begin (.member ..), id =>
    { underway with merging := id :: underway.merging }
  | .drop id, _ => { underway with merging := underway.merging.filter (· ≠ id) }
  | _, _ => underway

end Underway

structure Traffic where
  world : World FallbackAnswer
  calls : Nat → Option Underway := fun _ => none
  owned : Finset TransactionId := ∅
  opened : Finset TransactionId := ∅
  ended : List (Underway × FallbackAnswer) := []

namespace Traffic

def Admits (t : Traffic) (call : FallbackCall) : Prop :=
  ∀ id, call.transaction? = some id → id ∈ t.owned ∧
    ∀ me underway, t.calls me = some underway → underway.call.transaction? ≠ some id

def start (t : Traffic) (call : FallbackCall) : Traffic :=
  { t with
    world := (t.world.spawn { process := call.script.toProcess }).2
    calls := Function.update t.calls t.world.nextStrand (some { call }) }

def conclude (t : Traffic) (me : Nat) (underway : Underway) (answer : FallbackAnswer) : Traffic :=
  let t := { t with
    world := { t.world with strands := t.world.strands.filter (·.1 ≠ me) }
    calls := Function.update t.calls me none
    ended := (underway, answer) :: t.ended }
  match underway.call, answer with
  | .begin, .begun id => { t with owned := insert id t.owned, opened := insert id t.opened }
  | .commit id, _ | .rollback id, _ => { t with opened := t.opened.erase id }
  | .drop id, _ => { t with owned := t.owned.erase id, opened := t.opened.erase id }
  | _, _ => t

def resume (t : Traffic) (me : Nat) (underway : Underway) (process : Process FallbackAnswer) : Traffic :=
  match t.world.strand? me with
  | none => t
  | some strand =>
    match process.settle t.world.now strand.timers with
    | (.answer answer, _) => t.conclude me underway answer
    | (process, timers) => { t with
        world := t.world.modifyStrand me fun strand =>
          { strand with process, timers, wait := .nothing }
        calls := Function.update t.calls me (some underway) }

def expire (t : Traffic) (me : Nat) (underway : Underway) (timer : Timer FallbackAnswer)
    (earlier : List (Timer FallbackAnswer)) : Traffic :=
  let world := ((t.world.dropRound me).giveUp me).modifyStrand me fun strand =>
    { strand with timers := earlier }
  { t with world }.resume me (underway.sees t.world world) (timer.late ())

inductive Step : Traffic → Traffic → Prop where
  | start {t call} (h : t.Admits call) : Step t (t.start call)
  | act {t me underway strand effect next reply world} (hcall : t.calls me = some underway)
      (hstrand : t.world.strand? me = some strand) (hprocess : strand.process = .step effect next)
      (h : t.world.perform me effect = (some reply, world)) :
      Step t ({ t with world }.resume me ((underway.sees t.world world).after effect reply) (next reply))
  | wait {t me underway strand effect next world} (hcall : t.calls me = some underway)
      (hstrand : t.world.strand? me = some strand) (hprocess : strand.process = .step effect next)
      (h : t.world.perform me effect = (none, world)) :
      Step t { t with world, calls := Function.update t.calls me (some (underway.sees t.world world)) }
  | member {t me underway strand needed members next member effect who reply world}
      (hcall : t.calls me = some underway) (hstrand : t.world.strand? me = some strand)
      (hprocess : strand.process = .round needed members next) (hmember : member ∈ members)
      (heffect : member.Mentions effect) (hwho : t.calls who = none)
      (h : t.world.perform who effect = (reply, world)) :
      Step t { t with world, calls := Function.update t.calls me (some (underway.sees t.world world)) }
  | reach {t me underway strand needed members next} (hcall : t.calls me = some underway)
      (hstrand : t.world.strand? me = some strand) (hprocess : strand.process = .round needed members next)
      (reached : Bool) : Step t (t.resume me underway (next reached))
  | late {t me underway strand inner timer outer} (hcall : t.calls me = some underway)
      (hstrand : t.world.strand? me = some strand) (hwaits : strand.process.waits = true)
      (htimers : strand.timers = inner ++ timer :: outer) : Step t (t.expire me underway timer outer)
  | abort {t me underway} (hcall : t.calls me = some underway)
      (habortable : underway.call.isAbortable = true) :
      Step t { t with world := t.world.abort me, calls := Function.update t.calls me none }
  | elsewhere {t world} (h : t.world.Spares (fun me => (t.calls me).isSome) world) :
      Step t { t with world }

structure Fresh (t : Traffic) : Prop where
  coordinator : ∃ config volume coordinator, Volume.Separate volume ∧
    Coordinator.open config volume = .ok coordinator volume ∧ t.world.coordinator = some coordinator
  node : (t.world.node? t.world.coordinated).isSome
  numbered : t.world.Numbered
  transactions : ∀ id transaction, t.world.transaction? id = some transaction →
    transaction.gated = false ∧ id < t.world.nextTransaction
  calls : t.calls = fun _ => none
  owned : t.owned = ∅
  opened : t.opened = ∅
  ended : t.ended = []

/-- What can come about on a coordinator. -/
def Reachable (t : Traffic) : Prop :=
  ∃ t₀, Fresh t₀ ∧ Relation.ReflTransGen Step t₀ t

end Traffic

end ReplicatedStore
