import ReplicatedStore.Proofs.Fallback.Frames
import ReplicatedStore.Proofs.Fallback.Gate
import ReplicatedStore.Proofs.Fallback.State

/-!
Who has what of a coordinator. What one call does leaves every other call what it has.
-/

namespace ReplicatedStore

def TransactionBase.origin : TransactionBase → Origin
  | .member node _ _ stale => .member node stale
  | .standalone _ => .standalone

namespace Holding

def owns : Holding → Finset TransactionId → Finset TransactionId
  | .begun id, ids => insert id ids
  | .dropped id, ids => ids.erase id
  | _, ids => ids

def opens : Holding → Finset TransactionId → Finset TransactionId
  | .begun id, ids => insert id ids
  | .released id, ids | .dropped id, ids => ids.erase id
  | _, ids => ids

end Holding

/-- Who has what of a coordinator. -/
structure Ledger where
  owned : Finset TransactionId
  opened : Finset TransactionId
  insiders : Finset Nat
  alones : Finset Nat

def Armed (home : Handle) (call : FallbackCall) : List (Timer FallbackAnswer) → List Holding → Prop
  | [], [] => True
  | timer :: timers, h :: hs => (timer.late ()).Obeys home call h hs ∧ Armed home call timers hs
  | _, _ => False

def World.known {ρ : Type} (world : World ρ) : List (Nat × Bool) :=
  (world.coordinator.map (·.gate.known)).getD []

namespace Ledger

variable {ρ : Type}

structure Fits (l : Ledger) (world : World ρ) : Prop where
  coordinator : ∃ coordinator, world.coordinator = some coordinator ∧
    coordinator.gate.Fits (l.insiders.card + l.opened.card) l.alones.card ∧ coordinator.disk.Separate ∧
    FallbackState.saved? coordinator.disk = some coordinator.state.active
  node : (world.node? world.coordinated).isSome
  numbered : world.Numbered
  subset : l.opened ⊆ l.owned
  owned : ∀ id ∈ l.owned, id < world.nextTransaction ∧ ∃ transaction, world.transaction? id = some transaction ∧
    (id ∈ l.opened → world.storeOf transaction.base = world.active?) ∧
    (id ∉ l.opened → transaction.view.closed = true ∧ transaction.gated = false)

structure Lends (l : Ledger) (world : World ρ) (active : Option ActiveStore) (id : TransactionId)
    (origin : Origin) : Prop where
  owned : id ∉ l.owned
  lt : id < world.nextTransaction
  transaction : ∀ transaction, world.transaction? id = some transaction →
    transaction.gated = false ∧ transaction.base.origin = origin ∧
    (active = some .standalone → origin = .standalone → transaction.view.writes.isEmpty = true)

def Grants (l : Ledger) (world : World ρ) (me : Nat) : Holding → Prop
  | .entered => me ∈ l.insiders
  | .within id closed => id ∈ l.owned ∧ (id ∉ l.opened → closed = true) ∧
      ∀ transaction, world.transaction? id = some transaction → closed = true → transaction.view.closed = true
  | .alone active merging => me ∈ l.alones ∧ world.active? = some active ∧
      ∀ id origin, (id, origin) ∈ merging → l.Lends world (some active) id origin
  | .switched merging => me ∈ l.alones ∧ ∀ id origin, (id, origin) ∈ merging → l.Lends world none id origin
  | _ => True

structure Serves (l : Ledger) (world : World ρ) (me : Nat) (underway : Underway) (h : Holding) : Prop where
  transaction : underway.call.transaction? = h.transaction?
  merging : underway.merging = h.merging.map Prod.fst
  quiet : h.isQuiet = true → ¬ underway.altered
  grants : l.Grants world me h

structure Rests (l : Ledger) (world : World FallbackAnswer) (me : Nat) (underway : Underway) (h : Holding)
    (strand : Strand FallbackAnswer) : Prop where
  serves : l.Serves world me underway h
  found : world.strand? me = some strand
  round : strand.round = none
  alone : strand.alone = h.isAlone
  waits : strand.process.waits = true
  obeys : ∃ timers, strand.process.Obeys world.coordinated underway.call h timers ∧
    Armed world.coordinated underway.call strand.timers timers

def Queued (world : World FallbackAnswer) (calls : Nat → Option Underway) (who : Nat) (alone : Bool) : Prop :=
  ∃ underway strand next, calls who = some underway ∧ world.strand? who = some strand ∧ strand.wait = .gate ∧
    strand.process = .step (.enterGate alone) next

structure Sound (l : Ledger) (world : World FallbackAnswer) (calls : Nat → Option Underway) : Prop where
  fits : l.Fits world
  rests : ∀ me underway, calls me = some underway → ∃ h strand, l.Rests world me underway h strand
  single : ∀ me other underway underway' id, calls me = some underway → calls other = some underway' →
    underway.call.transaction? = some id → underway'.call.transaction? = some id → me = other
  known : ∀ who alone, (who, alone) ∈ world.known → Queued world calls who alone

structure Turns (l : Ledger) (world : World ρ) (me : Nat) (h : Holding) (l' : Ledger) : Prop where
  owned : ∀ id, id < world.nextTransaction → ¬ h.Has id → (id ∈ l'.owned ↔ id ∈ l.owned)
  opened : ∀ id, id < world.nextTransaction → ¬ h.Has id → (id ∈ l'.opened ↔ id ∈ l.opened)
  insiders : ∀ who, who ≠ me → who ∈ l.insiders → who ∈ l'.insiders
  alones : ∀ who, who ≠ me → who ∈ l.alones → who ∈ l'.alones

end Ledger

structure World.Turns {ρ : Type} (world : World ρ) (called : Nat → Prop) (me : Nat) (h : Holding)
    (world' : World ρ) : Prop where
  coordinated : world'.coordinated = world.coordinated
  nextTransaction : world.nextTransaction ≤ world'.nextTransaction
  transaction : ∀ id, id < world.nextTransaction → ¬ h.Has id → world'.transaction? id = world.transaction? id
  strand : ∀ who strand, who ≠ me → called who → world.strand? who = some strand → strand.round = none →
    ∃ queued, world'.strand? who = some { strand with queued }
  known : ∀ entry ∈ world'.known, entry ∈ world.known ∨ entry.1 = me

namespace FallbackState

theorem saved?_of_find? {v v' : Volume} {active : ActiveStore} (h : saved? v = some active)
    (hfind : v'.find? fileName = v.find? fileName)
    : saved? v' = some active := by
  unfold saved? at h ⊢
  cases hload : load v with
  | error e after =>
    rw [hload] at h
    cases h
  | ok state after =>
    rw [hload] at h
    rw [load_of_find? hload hfind]
    exact h

end FallbackState

namespace World

variable {ρ : Type} {world world' world'' : World ρ} {called called' : Nat → Prop} {me id : Nat} {h : Holding}

theorem known_of_coordinator {coordinator : Coordinator} (h : world.coordinator = some coordinator)
    : world.known = coordinator.gate.known := by
  unfold World.known
  rw [h]
  rfl

theorem known_withGate (hcoordinator : world.coordinator.isSome) (gate : Gate)
    : (world.withGate gate).known = gate.known := by
  obtain ⟨coordinator, h⟩ := Option.isSome_iff_exists.1 hcoordinator
  unfold World.known withGate
  rw [h]
  rfl

theorem Turns.refl (world : World ρ) (called : Nat → Prop) (me : Nat) (h : Holding) : world.Turns called me h world where
  coordinated := rfl
  nextTransaction := Nat.le_refl _
  transaction _ _ _ := rfl
  strand _ strand _ _ hstrand _ := ⟨strand.queued, hstrand⟩
  known _ hmem := .inl hmem

theorem Turns.trans (hturns : world.Turns called me h world') (hturns' : world'.Turns called me h world'')
    : world.Turns called me h world'' where
  coordinated := hturns'.coordinated.trans hturns.coordinated
  nextTransaction := Nat.le_trans hturns.nextTransaction hturns'.nextTransaction
  transaction id hlt hhas :=
    (hturns'.transaction id (Nat.lt_of_lt_of_le hlt hturns.nextTransaction) hhas).trans (hturns.transaction id hlt hhas)
  strand who strand hne hwho hstrand hround := by
    obtain ⟨queued, hstrand⟩ := hturns.strand who strand hne hwho hstrand hround
    obtain ⟨queued', hstrand⟩ := hturns'.strand who _ hne hwho hstrand hround
    exact ⟨queued', hstrand⟩
  known entry hmem := by
    rcases hturns'.known entry hmem with hmem | hme
    . exact hturns.known entry hmem
    . exact .inr hme

theorem Turns.imp (hturns : world.Turns called me .outside world') (hcalled : ∀ who, called' who → called who)
    : world.Turns called' me h world' where
  coordinated := hturns.coordinated
  nextTransaction := hturns.nextTransaction
  transaction id hlt _ := hturns.transaction id hlt nofun
  strand who strand hne hwho := hturns.strand who strand hne (hcalled who hwho)
  known := hturns.known

theorem Spares.transaction? (hspares : world.Spares called world') (id : TransactionId)
    : world'.transaction? id = world.transaction? id := by
  unfold World.transaction?
  rw [hspares.transactions]

theorem Spares.active? (hspares : world.Spares called world') (hcoordinator : world.coordinator.isSome)
    : world'.active? = world.active? := by
  obtain ⟨c, hc⟩ := Option.isSome_iff_exists.1 hcoordinator
  obtain ⟨c', hc', -, hactive, -⟩ := hspares.coordinator c hc
  unfold World.active?
  rw [hc, hc', Option.map_some, Option.map_some, hactive]

theorem Spares.known (hspares : world.Spares called world') (hcoordinator : world.coordinator.isSome)
    : world'.known = world.known := by
  obtain ⟨c, hc⟩ := Option.isSome_iff_exists.1 hcoordinator
  obtain ⟨c', hc', hgate, -⟩ := hspares.coordinator c hc
  unfold World.known
  rw [hc, hc', Option.map_some, Option.map_some, hgate]

theorem Turns.withGate (hturns : world.Turns called me h world') (hcoordinator : world'.coordinator.isSome) {gate : Gate}
    (hknown : ∀ entry ∈ gate.known, entry ∈ world.known ∨ entry.1 = me)
    : world.Turns called me h (world'.withGate gate) where
  coordinated := hturns.coordinated
  nextTransaction := hturns.nextTransaction
  transaction := hturns.transaction
  strand := hturns.strand
  known := by
    rw [known_withGate hcoordinator]
    exact hknown

theorem Turns.spares (hturns : world.Turns called me h world') (hspares : world'.Spares called' world'')
    (hcoordinator : world'.coordinator.isSome) (hcalled : ∀ who, who ≠ me → called who → called' who)
    : world.Turns called me h world'' where
  coordinated := hspares.coordinated.trans hturns.coordinated
  nextTransaction := by
    rw [hspares.nextTransaction]
    exact hturns.nextTransaction
  transaction id hid hhas := (hspares.transaction? id).trans (hturns.transaction id hid hhas)
  strand who strand hne hwho hstrand hround := by
    obtain ⟨queued, hstrand⟩ := hturns.strand who strand hne hwho hstrand hround
    obtain ⟨queued', hstrand⟩ := hspares.strand who _ (hcalled who hne hwho) hstrand hround
    exact ⟨queued', hstrand⟩
  known := by
    rw [hspares.known hcoordinator]
    exact hturns.known

end World

namespace Ledger

variable {ρ : Type} {l l' : Ledger} {world world' world'' : World ρ} {me who id : Nat} {called : Nat → Prop}
  {h h' : Holding} {underway underway' : Underway}

theorem Turns.refl (l : Ledger) (world : World ρ) (me : Nat) (h : Holding) : l.Turns world me h l where
  owned _ _ _ := Iff.rfl
  opened _ _ _ := Iff.rfl
  insiders _ _ hmem := hmem
  alones _ _ hmem := hmem

theorem Fits.isSome (hfits : l.Fits world) : world.coordinator.isSome := by
  obtain ⟨coordinator, hcoordinator, -⟩ := hfits.coordinator
  exact Option.isSome_of_eq_some hcoordinator

theorem Fits.spares (hfits : l.Fits world) (hspares : world.Spares called world') : l.Fits world' := by
  have hactive := hspares.active? hfits.isSome
  obtain ⟨c, hc, hgate, hseparate, hsaved⟩ := hfits.coordinator
  obtain ⟨c', hc', hsame, hstore, hfind, hnext⟩ := hspares.coordinator c hc
  refine ⟨⟨c', hc', ?_, hseparate.of_find? hfind hnext, ?_⟩, ?_, hspares.numbered hfits.numbered, hfits.subset, ?_⟩
  . rw [hsame]
    exact hgate
  . rw [hstore]
    exact FallbackState.saved?_of_find? hsaved (congrFun hfind _)
  . rw [hspares.coordinated]
    exact hspares.node _ hfits.node
  . intro id hid
    obtain ⟨hlt, transaction, htransaction, hopened, hclosed⟩ := hfits.owned id hid
    rw [hspares.nextTransaction, hspares.transaction? id, hactive]
    refine ⟨hlt, transaction, htransaction, ?_, hclosed⟩
    have hstoreOf : world'.storeOf transaction.base = world.storeOf transaction.base := by
      unfold World.storeOf
      rw [hspares.coordinated]
    rw [hstoreOf]
    exact hopened

theorem Fits.eq_of_mem_alones (hfits : l.Fits world) (hme : me ∈ l.alones) (hwho : who ∈ l.alones) : me = who := by
  obtain ⟨coordinator, -, hgate, -, -⟩ := hfits.coordinator
  exact Finset.card_le_one.1 hgate.alone_le_one me hme who hwho

theorem Fits.opened_eq_empty (hfits : l.Fits world) (hme : me ∈ l.alones) : l.opened = ∅ := by
  obtain ⟨coordinator, -, hgate, -, -⟩ := hfits.coordinator
  by_contra hne
  have hopened := Finset.card_pos.2 (Finset.nonempty_iff_ne_empty.2 hne)
  have halone := hgate.alone_eq_zero (by omega)
  rw [Finset.card_eq_zero.1 halone] at hme
  cases hme

theorem Grants.lt (hgrants : l.Grants world me h) (hfits : l.Fits world) (hhas : h.Has id)
    : id < world.nextTransaction := by
  cases h with
  | within other closed =>
    cases hhas
    exact (hfits.owned id hgrants.1).1
  | alone active merging =>
    obtain ⟨⟨_, origin⟩, hmem, rfl⟩ := List.mem_map.1 hhas
    exact (hgrants.2.2 _ origin hmem).lt
  | switched merging =>
    obtain ⟨⟨_, origin⟩, hmem, rfl⟩ := List.mem_map.1 hhas
    exact (hgrants.2 _ origin hmem).lt
  | _ => cases hhas

theorem Grants.owned_or_alone (hgrants : l.Grants world me h) (hhas : h.Has id)
    : id ∈ l.owned ∧ h.transaction? = some id ∨ id ∉ l.owned ∧ me ∈ l.alones := by
  cases h with
  | within other closed =>
    cases hhas
    exact .inl ⟨hgrants.1, rfl⟩
  | alone active merging =>
    obtain ⟨⟨_, origin⟩, hmem, rfl⟩ := List.mem_map.1 hhas
    exact .inr ⟨(hgrants.2.2 _ origin hmem).owned, hgrants.1⟩
  | switched merging =>
    obtain ⟨⟨_, origin⟩, hmem, rfl⟩ := List.mem_map.1 hhas
    exact .inr ⟨(hgrants.2 _ origin hmem).owned, hgrants.1⟩
  | _ => cases hhas

theorem Serves.apart (hfits : l.Fits world) (hserves : l.Serves world me underway h)
    (hserves' : l.Serves world who underway' h') (hne : who ≠ me)
    (hsingle : ∀ id, underway.call.transaction? = some id → underway'.call.transaction? ≠ some id)
    : ∀ id, h'.Has id → ¬ h.Has id := by
  intro id hhas' hhas
  rcases hserves.grants.owned_or_alone hhas with ⟨howned, hid⟩ | ⟨howned, halone⟩
  . rcases hserves'.grants.owned_or_alone hhas' with ⟨-, hid'⟩ | ⟨howned', -⟩
    . exact hsingle id (hserves.transaction.trans hid) (hserves'.transaction.trans hid')
    . exact howned' howned
  . rcases hserves'.grants.owned_or_alone hhas' with ⟨howned', -⟩ | ⟨-, halone'⟩
    . exact howned howned'
    . exact hne (hfits.eq_of_mem_alones halone' halone)

theorem Lends.turn {active : Option ActiveStore} {origin : Origin} (hlends : l.Lends world active id origin)
    (howned : id ∈ l'.owned ↔ id ∈ l.owned) (hnext : world.nextTransaction ≤ world'.nextTransaction)
    (htransaction : world'.transaction? id = world.transaction? id)
    : l'.Lends world' active id origin where
  owned := fun hmem => hlends.owned (howned.1 hmem)
  lt := Nat.lt_of_lt_of_le hlends.lt hnext
  transaction := by
    rw [htransaction]
    exact hlends.transaction

theorem Grants.turn (hgrants : l.Grants world who h') (hworld : world.Turns called me h world')
    (hledger : l.Turns world me h l') (hne : who ≠ me) (hlt : ∀ id, h'.Has id → id < world.nextTransaction)
    (hapart : ∀ id, h'.Has id → ¬ h.Has id)
    (hactive : world'.active? = world.active? ∨ ∀ who ∈ l.alones, who = me)
    : l'.Grants world' who h' := by
  have hlends : ∀ active id origin, h'.Has id → l.Lends world active id origin → l'.Lends world' active id origin := by
    intro active id origin hhas hlends
    exact hlends.turn (hledger.owned id (hlt id hhas) (hapart id hhas)) hworld.nextTransaction
      (hworld.transaction id (hlt id hhas) (hapart id hhas))
  cases h' with
  | entered => exact hledger.insiders who hne hgrants
  | within id closed =>
    obtain ⟨howned, hopened, hclosed⟩ := hgrants
    have hid := hlt id rfl
    have hother := hapart id rfl
    refine ⟨(hledger.owned id hid hother).2 howned, ?_, ?_⟩
    . rw [hledger.opened id hid hother]
      exact hopened
    . rw [hworld.transaction id hid hother]
      exact hclosed
  | alone active merging =>
    obtain ⟨halone, hsame, hmerging⟩ := hgrants
    refine ⟨hledger.alones who hne halone, ?_, ?_⟩
    . rcases hactive with hactive | hactive
      . exact hactive.trans hsame
      . exact absurd (hactive who halone) hne
    . intro id origin hmem
      exact hlends _ id origin (List.mem_map_of_mem hmem) (hmerging id origin hmem)
  | switched merging =>
    obtain ⟨halone, hmerging⟩ := hgrants
    refine ⟨hledger.alones who hne halone, ?_⟩
    intro id origin hmem
    exact hlends _ id origin (List.mem_map_of_mem hmem) (hmerging id origin hmem)
  | _ => trivial

theorem Grants.spares (hgrants : l.Grants world me h) (hfits : l.Fits world) (hspares : world.Spares called world')
    : l.Grants world' me h := by
  have hworld : world.Turns (fun _ => False) (me + 1) .outside world' :=
    (World.Turns.refl world _ _ _).spares hspares hfits.isSome nofun
  exact hgrants.turn hworld (.refl l world _ _) (Nat.ne_of_lt (Nat.lt_succ_self me)) (fun _ => hgrants.lt hfits) (fun _ _ => id)
    (.inl (hspares.active? hfits.isSome))

theorem Rests.turn {l l' : Ledger} {world world' : World FallbackAnswer} {strand : Strand FallbackAnswer}
    (hrests : l.Rests world who underway h' strand) (hworld : world.Turns called me h world') (hcalled : called who)
    (hne : who ≠ me) (hgrants : l'.Grants world' who h')
    : ∃ queued, l'.Rests world' who underway h' { strand with queued } := by
  obtain ⟨queued, hfound⟩ := hworld.strand who strand hne hcalled hrests.found hrests.round
  refine ⟨queued, ?_, hfound, hrests.round, hrests.alone, hrests.waits, ?_⟩
  . exact ⟨hrests.serves.transaction, hrests.serves.merging, hrests.serves.quiet, hgrants⟩
  . rw [hworld.coordinated]
    exact hrests.obeys

section Turn

variable {l l' : Ledger} {world world' : World FallbackAnswer} {calls : Nat → Option Underway}

theorem Sound.turn (hs : l.Sound world calls) (hworld : world.Turns (fun who => (calls who).isSome) me h world')
    (hledger : l.Turns world me h l') (hfits : l'.Fits world')
    (hactive : world'.active? = world.active? ∨ ∀ who ∈ l.alones, who = me)
    (hapart : ∀ who underway h', who ≠ me → calls who = some underway → l.Serves world who underway h' →
      ∀ id, h'.Has id → ¬ h.Has id)
    {entry : Option Underway}
    (hrests : ∀ underway, entry = some underway → ∃ h strand, l'.Rests world' me underway h strand)
    (hsingle : ∀ underway id, entry = some underway → underway.call.transaction? = some id →
      ∀ who underway, who ≠ me → calls who = some underway → underway.call.transaction? ≠ some id)
    (hknown : ∀ alone, (me, alone) ∈ world'.known → Queued world' (Function.update calls me entry) me alone)
    : l'.Sound world' (Function.update calls me entry) := by
  -- one call moves and the others keep what they hold, so each part splits by who it is
  have hother : ∀ {who}, who ≠ me → Function.update calls me entry who = calls who :=
    fun hne => Function.update_of_ne hne entry calls
  have hself : Function.update calls me entry me = entry := Function.update_self me entry calls
  refine ⟨hfits, ?_, ?_, ?_⟩
  . intro who underway hcall
    by_cases hne : who = me
    . rw [hne] at hcall ⊢
      exact hrests underway (hself.symm.trans hcall)
    . rw [hother hne] at hcall
      obtain ⟨h', strand, hrest⟩ := hs.rests who underway hcall
      have hgrants := hrest.serves.grants.turn hworld hledger hne
        (fun id hhas => hrest.serves.grants.lt hs.fits hhas) (hapart who underway h' hne hcall hrest.serves) hactive
      obtain ⟨queued, hrest⟩ := hrest.turn hworld (Option.isSome_of_eq_some hcall) hne hgrants
      exact ⟨h', _, hrest⟩
  . intro who other underway underway' id hcall hcall' hid hid'
    by_cases hwho : who = me
    . by_cases hother' : other = me
      . rw [hwho, hother']
      . rw [hwho, hself] at hcall
        rw [hother hother'] at hcall'
        exact absurd hid' (hsingle underway id hcall hid other underway' hother' hcall')
    . rw [hother hwho] at hcall
      by_cases hother' : other = me
      . rw [hother', hself] at hcall'
        exact absurd hid (hsingle underway' id hcall' hid' who underway hwho hcall)
      . rw [hother hother'] at hcall'
        exact hs.single who other underway underway' id hcall hcall' hid hid'
  . intro who alone hmem
    by_cases hne : who = me
    . rw [hne] at hmem ⊢
      exact hknown alone hmem
    . obtain ⟨underway, strand, next, hcall, hstrand, hwait, hprocess⟩ :=
        hs.known who alone ((hworld.known _ hmem).resolve_right hne)
      obtain ⟨h', strand', hrest⟩ := hs.rests who underway hcall
      have hround : strand.round = none := by
        cases hstrand.symm.trans hrest.found
        exact hrest.round
      obtain ⟨queued, hstrand⟩ := hworld.strand who strand hne (Option.isSome_of_eq_some hcall) hstrand hround
      exact ⟨underway, _, next, (hother hne).trans hcall, hstrand, hwait, hprocess⟩

theorem Sound.turn_last (hs : l.Sound world calls) (hworld : world.Turns (fun who => (calls who).isSome) me h world')
    (hledger : l.Turns world me h l') (hfits : l'.Fits world')
    (hactive : world'.active? = world.active? ∨ ∀ who ∈ l.alones, who = me)
    (hapart : ∀ who underway h', who ≠ me → calls who = some underway → l.Serves world who underway h' →
      ∀ id, h'.Has id → ¬ h.Has id)
    (hknown : ∀ entry ∈ world'.known, entry.1 ≠ me)
    : l'.Sound world' (Function.update calls me none) :=
  hs.turn hworld hledger hfits hactive hapart nofun nofun fun _ hmem => absurd rfl (hknown _ hmem)

theorem Sound.apart (hs : l.Sound world calls) (hcall : calls me = some underway)
    (hserves : l.Serves world me underway h) {underway' : Underway} (hne : who ≠ me)
    (hcall' : calls who = some underway') (hserves' : l.Serves world who underway' h')
    : ∀ id, h'.Has id → ¬ h.Has id := by
  apply hserves.apart hs.fits hserves' hne
  intro id hid hid'
  exact hne (hs.single who me underway' underway id hcall' hcall hid' hid)

end Turn

end Ledger

end ReplicatedStore
