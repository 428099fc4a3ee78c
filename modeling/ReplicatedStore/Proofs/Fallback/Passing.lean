import ReplicatedStore.Proofs.Fallback.Closing

/-!
A call passes the gate, changes the active store, and takes any of its steps.
-/

namespace ReplicatedStore

namespace Ledger

variable {l l' : Ledger} {world world' : World FallbackAnswer} {me id : Nat} {underway underway' : Underway}
  {h h' : Holding} {strand : Strand FallbackAnswer} {effect : Effect} {flag : Bool} {coordinator : Coordinator}

def entering (active : ActiveStore) : Bool → Holding
  | true => .alone active []
  | false => .entered

theorem Poised.advances_enter (hp : l.Poised world me underway .outside strand)
    (hcoordinator : world.coordinator = some coordinator) {gate : Gate}
    (hgate : gate.Fits (l.insiders.card + l.opened.card + Gate.place flag false)
      (l.alones.card + Gate.place flag true))
    (hknown : ∀ entry ∈ gate.known, entry ∈ world.known ∧ entry.1 ≠ me)
    (hworld : world' = (world.withGate gate).modifyStrand me fun strand => { strand with alone := flag || strand.alone })
    : ∃ l', l.Advances world me .outside strand l' world' (underway.sees world world')
        (entering coordinator.state.active flag) := by
  have hspares := (world.withGate gate).spares_modifyStrand me fun strand => { strand with alone := flag || strand.alone }
  rw [← hworld] at hspares
  have hturns : world.Turns (fun _ => True) me .outside (world.withGate gate) :=
    (World.Turns.refl world _ me _).withGate hp.fits.isSome fun entry hmem => .inl (hknown entry hmem).1
  have hisSome : (world.withGate gate).coordinator.isSome := Option.isSome_of_eq_some (congrArg (Option.map _) hcoordinator)
  have hactive : world'.active? = world.active? := (hspares.active? hisSome).trans (world.active?_withGate gate)
  have hactive' : world.active? = some coordinator.state.active := congrArg (Option.map _) hcoordinator
  have hface : world'.face = world.face := by
    rw [hworld]
    exact world.face_withGate gate
  have hstrand : world'.strand? me = some { strand with alone := flag || strand.alone } := by
    rw [hworld, World.strand?_modifyStrand]
    show (world.strand? me).map _ = _
    rw [hp.found, Option.map_some, if_pos rfl]
  have halone : strand.alone = false := hp.alone
  rw [halone, Bool.or_false] at hstrand
  have hknown' : ∀ entry ∈ world'.known, entry.1 ≠ me := by
    rw [hspares.known hisSome, world.known_withGate hp.fits.isSome]
    exact fun entry hmem => (hknown entry hmem).2
  have hturns' := hturns.spares hspares hisSome fun _ hne _ => hne
  cases flag with
  | true =>
    have hfits : Fits { l with alones := insert me l.alones } world' := by
      refine Fits.spares (hp.fits.withGate (hgate.mono (Nat.le_refl _) ?_)) hspares
      exact Finset.card_insert_le _ _
    refine ⟨_, hturns', ?_, .inl hactive, hfits, ?_, ⟨_, _, hstrand⟩, rfl, rfl, hknown'⟩
    . exact ⟨fun _ _ _ => Iff.rfl, fun _ _ _ => Iff.rfl, fun _ _ hmem => hmem,
        fun _ _ hmem => Finset.mem_insert_of_mem hmem⟩
    . refine hp.serves.sees rfl rfl (fun _ => ⟨rfl, hface⟩) ?_
      exact ⟨Finset.mem_insert_self _ _, hactive.trans hactive', nofun⟩
  | false =>
    have hfits : Fits { l with insiders := insert me l.insiders } world' := by
      refine Fits.spares (hp.fits.withGate (hgate.mono ?_ (Nat.le_refl _))) hspares
      have hcard := Finset.card_insert_le me l.insiders
      have hplace : Gate.place false false = 1 := rfl
      omega
    refine ⟨_, hturns', ?_, .inl hactive, hfits, ?_, ⟨_, _, hstrand⟩, rfl, rfl, hknown'⟩
    . exact ⟨fun _ _ _ => Iff.rfl, fun _ _ _ => Iff.rfl, fun _ _ hmem => Finset.mem_insert_of_mem hmem,
        fun _ _ hmem => hmem⟩
    . exact hp.serves.sees rfl rfl nofun (Finset.mem_insert_self _ _)

structure Waits (l : Ledger) (world : World FallbackAnswer) (me : Nat) (underway : Underway) (h : Holding)
    (strand : Strand FallbackAnswer) (effect : Effect) (world' : World FallbackAnswer) : Prop where
  turns : world.Turns (fun _ => True) me h world'
  active : world'.active? = world.active?
  fits : l.Fits world'
  serves : l.Serves world' me (underway.sees world world') h
  strand : ∃ queued wait, world'.strand? me = some { strand with queued, wait } ∧
    ∀ flag, (me, flag) ∈ world'.known → wait = .gate ∧ effect = .enterGate flag

theorem Poised.waits_enter (hp : l.Poised world me underway .outside strand) {gate : Gate}
    (hgate : gate.Fits (l.insiders.card + l.opened.card) l.alones.card)
    (hknown : ∀ entry ∈ gate.known, entry ∈ world.known ∨ entry = (me, flag))
    (hqueued : ∀ other, (me, other) ∈ world.known → other = flag)
    : l.Waits world me underway .outside strand (.enterGate flag) ((world.withGate gate).waitFor me .gate) := by
  have hspares : (world.withGate gate).Spares (· ≠ me) ((world.withGate gate).waitFor me .gate) :=
    (World.nodal_waitFor (world.withGate gate) .gate).spares
  have hfits : l.Fits (world.withGate gate) := hp.fits.withGate hgate
  have hturns : world.Turns (fun _ => True) me .outside (world.withGate gate) :=
    (World.Turns.refl world _ me _).withGate hp.fits.isSome fun entry hmem =>
      (hknown entry hmem).imp_right (congrArg Prod.fst)
  refine ⟨hturns.spares hspares hfits.isSome fun _ hne _ => hne,
    (hspares.active? hfits.isSome).trans (world.active?_withGate gate), hfits.spares hspares, ?_,
    strand.queued, .gate, ?_, ?_⟩
  . exact hp.serves.sees rfl rfl (fun _ => ⟨rfl, world.face_withGate gate⟩) trivial
  . show World.strand? (World.modifyStrand _ me _) me = _
    rw [World.strand?_modifyStrand]
    show (world.strand? me).map _ = _
    rw [hp.found, Option.map_some, if_pos rfl]
  . intro other hmem
    refine ⟨rfl, ?_⟩
    rw [hspares.known hfits.isSome, world.known_withGate hp.fits.isSome] at hmem
    rcases hknown _ hmem with hmem | hmem
    . rw [hqueued other hmem]
    . cases hmem
      rfl

theorem Poised.enters_or_waits (hp : l.Poised world me underway .outside strand)
    (hqueued : ∀ other, (me, other) ∈ world.known → strand.wait = .gate ∧ other = flag)
    : (∃ world' l' active, world.perform me (.enterGate flag) = (some (), world') ∧
          l.Advances world me .outside strand l' world' (underway.sees world world') (entering active flag)) ∨
        ∃ world', world.perform me (.enterGate flag) = (none, world') ∧
          l.Waits world me underway .outside strand (.enterGate flag) world' := by
  obtain ⟨coordinator, hcoordinator, hgate, -⟩ := hp.fits.coordinator
  have hwait : world.waitOf me = strand.wait := by
    unfold World.waitOf
    rw [hp.found]
    rfl
  have hmine := World.known_of_coordinator hcoordinator
  rw [hmine] at hqueued
  have hset : ∀ gate, ({ world with coordinator := some { coordinator with gate } } : World FallbackAnswer)
      = world.withGate gate := by
    intro gate
    unfold World.withGate
    rw [hcoordinator]
    rfl
  rw [World.perform, hcoordinator]
  dsimp only
  rw [hwait, hset]
  -- a call that stands in the queue looks whether it was let in, any other asks to enter
  generalize hasked : (if strand.wait = .gate then coordinator.gate.notice me else coordinator.gate.enter me flag) = asked
  obtain ⟨entered, gate⟩ := asked
  cases entered with
  | true =>
    have hplace : gate.Fits (l.insiders.card + l.opened.card + Gate.place flag false)
        (l.alones.card + Gate.place flag true) ∧
        ∀ entry ∈ gate.known, entry ∈ world.known ∧ entry.1 ≠ me := by
      rw [hmine]
      split at hasked
      . exact hgate.notice_true hasked fun other hmem => (hqueued other hmem).2
      . next hnew =>
        obtain ⟨hfits, hsame⟩ := hgate.enter_now hasked
        refine ⟨hfits, ?_⟩
        rw [hsame]
        rintro ⟨who, other⟩ hmem
        refine ⟨hmem, ?_⟩
        rintro rfl
        exact hnew (hqueued other hmem).1
    obtain ⟨l', hadvances⟩ := hp.advances_enter hcoordinator hplace.1 hplace.2 rfl
    exact .inl ⟨_, l', _, rfl, hadvances⟩
  | false =>
    have hplace : gate.Fits (l.insiders.card + l.opened.card) l.alones.card ∧
        ∀ entry ∈ gate.known, entry ∈ world.known ∨ entry = (me, flag) := by
      rw [hmine]
      split at hasked
      . rw [Gate.notice_false hasked]
        exact ⟨hgate, fun _ hmem => .inl hmem⟩
      . next hnew =>
        have hout : ∀ entry ∈ coordinator.gate.known, entry.1 ≠ me := by
          rintro ⟨who, other⟩ hmem rfl
          exact hnew (hqueued other hmem).1
        obtain ⟨hfits, hperm⟩ := hgate.enter_later hout hasked
        exact ⟨hfits, fun entry hmem => (List.mem_cons.1 (hperm.mem_iff.1 hmem)).symm⟩
    refine .inr ⟨_, rfl, hp.waits_enter hplace.1 hplace.2 fun other hmem => ?_⟩
    rw [hmine] at hmem
    exact (hqueued other hmem).2

theorem Grants.mem_alones (hgrants : l.Grants world me h) (halone : h.isAlone = true) : me ∈ l.alones := by
  cases h with
  | alone active merging => exact hgrants.1
  | switched merging => exact hgrants.1
  | _ => cases halone

theorem Fits.leave (hfits : l.Fits world) (hme : me ∈ l.alones)
    : ∃ gate, (world.withGate gate).Wakes (world.updateGate (·.leave true)) ∧
        (∀ entry ∈ gate.known, entry ∈ world.known) ∧ Fits { l with alones := l.alones.erase me } (world.withGate gate) := by
  obtain ⟨coordinator, hcoordinator, hgate, -⟩ := hfits.coordinator
  have hgate : coordinator.gate.Fits (l.insiders.card + l.opened.card + Gate.place true false)
      ((l.alones.erase me).card + Gate.place true true) :=
    hgate.mono (Nat.le_refl _) (Nat.le_of_eq (Finset.card_erase_add_one hme))
  obtain ⟨hplace, hperm⟩ := hgate.leave
  refine ⟨coordinator.gate.leave true, World.wakes_updateGate hcoordinator (·.leave true), ?_, hfits.withGate hplace⟩
  rw [World.known_of_coordinator hcoordinator]
  exact fun entry hmem => hperm.mem_iff.1 hmem

theorem Turns.erase_alones (l : Ledger) (world : World FallbackAnswer) (me : Nat) (h : Holding)
    : l.Turns world me h { l with alones := l.alones.erase me } :=
  ⟨fun _ _ _ => Iff.rfl, fun _ _ _ => Iff.rfl, fun _ _ hmem => hmem,
    fun _ hne hmem => Finset.mem_erase_of_ne_of_mem hne hmem⟩

theorem Poised.advances_leave (hp : l.Poised world me underway h strand)
    (hknown : ∀ entry ∈ world.known, entry.1 ≠ me) (halone : h.isAlone = true) (hmerging : h.merging = [])
    (hworld : (world.modifyStrand me fun strand => { strand with alone := false }).updateGate (·.leave true) = world')
    : ∃ l', l.Advances world me h strand l' world' (underway.sees world world') h.leaves := by
  have hme := hp.serves.grants.mem_alones halone
  have hmodify := world.spares_modifyStrand me fun strand => { strand with alone := false }
  have hstrand : (world.modifyStrand me fun strand => { strand with alone := false }).strand? me
      = some { strand with alone := false } := by
    rw [World.strand?_modifyStrand, hp.found, Option.map_some, if_pos rfl]
  have hfits := hp.fits.spares hmodify
  obtain ⟨gate, hwakes, hsub, hleft⟩ := hfits.leave hme
  rw [hworld] at hwakes
  have hstart : world.Turns (fun _ => True) me h (world.modifyStrand me fun strand => { strand with alone := false }) :=
    (World.Turns.refl world _ me h).spares hmodify hp.fits.isSome fun _ hne _ => hne
  have hturns := (hstart.withGate hfits.isSome fun entry hmem => .inl (hsub entry hmem)).spares hwakes.spares
    hleft.isSome fun _ _ _ => trivial
  have hactive : world'.active? = world.active? :=
    (hwakes.spares.active? hleft.isSome).trans (World.active?_withGate _ _)
  have hface : world'.face = world.face := hwakes.face_eq.trans (World.face_withGate _ _)
  have hknown' : ∀ entry ∈ world'.known, entry.1 ≠ me := by
    rw [hwakes.spares.known hleft.isSome, World.known_withGate hfits.isSome]
    exact fun entry hmem => hknown entry (hsub entry hmem)
  obtain ⟨queued, hstrand⟩ := hwakes.spares.strand me _ trivial hstrand hp.round
  cases h with
  | alone active merging =>
    exact ⟨_, hturns, .erase_alones _ _ _ _, .inl hactive, hleft.spares hwakes.spares,
      hp.serves.sees rfl hmerging.symm (fun _ => ⟨rfl, hface⟩) trivial, ⟨queued, _, hstrand⟩, rfl, rfl, hknown'⟩
  | switched merging =>
    exact ⟨_, hturns, .erase_alones _ _ _ _, .inl hactive, hleft.spares hwakes.spares,
      hp.serves.sees rfl hmerging.symm nofun trivial, ⟨queued, _, hstrand⟩, rfl, rfl, hknown'⟩
  | _ => cases halone

structure GivesUp (l : Ledger) (world : World FallbackAnswer) (me : Nat) (strand : Strand FallbackAnswer)
    (world' : World FallbackAnswer) : Prop where
  fits : l.Fits world'
  turns : world.Turns (fun _ => True) me .outside world'
  active : world'.active? = world.active?
  face : world'.face = world.face
  strand : ∃ queued wait, world'.strand? me = some { strand with queued, wait }
  known : ∀ entry ∈ world'.known, entry.1 ≠ me

theorem GivesUp.grants (hgives : l.GivesUp world me strand world') (hfits : l.Fits world)
    (hgrants : l.Grants world me h)
    : l.Grants world' me h := by
  have hturns : world.Turns (fun _ => False) (me + 1) .outside world' :=
    ⟨hgives.turns.coordinated, hgives.turns.nextTransaction, hgives.turns.transaction, fun _ _ _ hfalse => hfalse.elim,
      fun entry hmem => .inl ((hgives.turns.known entry hmem).resolve_right (hgives.known entry hmem))⟩
  exact hgrants.turn hturns (.refl l world _ _) (Nat.ne_of_lt (Nat.lt_succ_self me)) (fun _ => hgrants.lt hfits)
    (fun _ _ => id) (.inl hgives.active)

theorem GivesUp.modify {strand' : Strand FallbackAnswer} (hgives : l.GivesUp world me strand world')
    (f : Strand FallbackAnswer → Strand FallbackAnswer)
    (hf : ∀ queued wait, ∃ queued' wait', f { strand with queued, wait } = { strand' with queued := queued', wait := wait' })
    : l.GivesUp world me strand' (world'.modifyStrand me f) := by
  have hspares := world'.spares_modifyStrand me f
  have hisSome := hgives.fits.isSome
  refine ⟨hgives.fits.spares hspares, hgives.turns.spares hspares hisSome fun _ hne _ => hne,
    (hspares.active? hisSome).trans hgives.active, hgives.face, ?_, ?_⟩
  . obtain ⟨queued, wait, hstrand⟩ := hgives.strand
    obtain ⟨queued', wait', hsame⟩ := hf queued wait
    refine ⟨queued', wait', ?_⟩
    rw [World.strand?_modifyStrand, hstrand, Option.map_some, if_pos rfl, hsame]
  . rw [hspares.known hisSome]
    exact hgives.known

theorem gives_up (hfits : l.Fits world) (hstrand : world.strand? me = some strand) (hround : strand.round = none)
    (hout : strand.wait ≠ .gate → ∀ entry ∈ world.known, entry.1 ≠ me)
    : l.GivesUp world me strand (world.giveUp me) := by
  have hpassed : world.Wakes (if world.turn = some me then
      World.passTurn { world with turnQueue := world.turnQueue.filter (· ≠ me) }
      else { world with turnQueue := world.turnQueue.filter (· ≠ me) }) := by
    have hqueue : world.Wakes { world with turnQueue := world.turnQueue.filter (· ≠ me) } :=
      ⟨fun _ => World.nodal_of_eq rfl rfl rfl rfl rfl rfl rfl rfl, rfl⟩
    split
    . exact hqueue.trans (World.wakes_passTurn _)
    . exact hqueue
  unfold World.giveUp
  dsimp only
  refine GivesUp.modify ?_ _ fun queued wait => ⟨queued, .nothing, rfl⟩
  generalize (if world.turn = some me then
      World.passTurn { world with turnQueue := world.turnQueue.filter (· ≠ me) }
      else { world with turnQueue := world.turnQueue.filter (· ≠ me) }) = passed at hpassed ⊢
  have hspares := hpassed.spares
  have hfits' := hfits.spares hspares
  have hturns := (World.Turns.refl world (fun _ => True) me .outside).spares hspares hfits.isSome fun _ _ _ => trivial
  have hknown := hspares.known hfits.isSome
  obtain ⟨queued, hstrand'⟩ := hspares.strand me strand trivial hstrand hround
  have hwait : passed.waitOf me = strand.wait := by
    unfold World.waitOf
    rw [hstrand']
    rfl
  rw [hwait]
  split
  . obtain ⟨coordinator, hcoordinator, hgate, -⟩ := hfits'.coordinator
    obtain ⟨hplace, hleft⟩ := hgate.giveUp
    rw [← World.known_of_coordinator hcoordinator, hknown] at hleft
    have hwakes := World.wakes_updateGate hcoordinator (·.giveUp me)
    have hgiven := hfits'.withGate hplace
    refine ⟨hgiven.spares hwakes.spares, ?_, ?_, ?_, ?_, ?_⟩
    . exact (hturns.withGate hfits'.isSome fun entry hmem => .inl (hleft entry hmem).1).spares hwakes.spares hgiven.isSome
        fun _ _ _ => trivial
    . exact ((hwakes.spares.active? hgiven.isSome).trans (World.active?_withGate _ _)).trans (hspares.active? hfits.isSome)
    . exact (hwakes.face_eq.trans (World.face_withGate _ _)).trans hpassed.face_eq
    . obtain ⟨queued', hstrand''⟩ := hwakes.spares.strand me _ trivial hstrand' hround
      exact ⟨queued', _, hstrand''⟩
    . rw [hwakes.spares.known hgiven.isSome, World.known_withGate hfits'.isSome]
      exact fun entry hmem => (hleft entry hmem).2
  . next hne =>
    refine ⟨hfits', hturns, hspares.active? hfits.isSome, hpassed.face_eq, ⟨queued, _, hstrand'⟩, ?_⟩
    rw [hknown]
    exact hout hne

theorem Poised.gives_up (hp : l.Poised world me underway h strand)
    (hout : strand.wait ≠ .gate → ∀ entry ∈ world.known, entry.1 ≠ me)
    : l.GivesUp world me strand ((world.dropRound me).giveUp me) := by
  have hspares := world.spares_modifyStrand me fun strand => { strand with round := none }
  have hstrand : (world.modifyStrand me fun strand => { strand with round := none }).strand? me = some strand := by
    rw [World.strand?_modifyStrand, hp.found, Option.map_some, if_pos rfl, ← hp.round]
  have hstart := (World.Turns.refl world (fun _ => True) me .outside).spares hspares hp.fits.isSome fun _ hne _ => hne
  have hknown := hspares.known hp.fits.isSome
  rw [World.dropRound_of_none hp.found hp.round]
  obtain ⟨hfits, hturns, hactive, hface, hfound, hleft⟩ :=
    Ledger.gives_up (hp.fits.spares hspares) hstrand hp.round (hknown ▸ hout)
  exact ⟨hfits, hstart.trans hturns, hactive.trans (hspares.active? hp.fits.isSome), hface, hfound, hleft⟩

theorem activate_cases (hseparate : coordinator.disk.Separate)
    (hsaved : FallbackState.saved? coordinator.disk = some coordinator.state.active) (target : ActiveStore)
    (lastSeen : Option Timestamp)
    : (coordinator.activate target lastSeen).2.gate = coordinator.gate ∧
        (coordinator.activate target lastSeen).2.disk.Separate ∧
        FallbackState.saved? (coordinator.activate target lastSeen).2.disk
          = some (coordinator.activate target lastSeen).2.state.active ∧
        (∀ e, (coordinator.activate target lastSeen).1 = .error e →
          (coordinator.activate target lastSeen).2.state.active = coordinator.state.active) := by
  have hsave := FallbackState.leaves_save hseparate { active := target, lastSeen }
  unfold Coordinator.activate
  dsimp only
  cases hresult : FallbackState.save { active := target, lastSeen } coordinator.disk with
  | error e disk =>
    rw [hresult] at hsave
    exact ⟨rfl, hsave.1, FallbackState.saved?_of_find? hsaved hsave.2, fun _ _ => rfl⟩
  | ok u disk =>
    rw [hresult] at hsave
    refine ⟨rfl, hsave.1, ?_, nofun⟩
    unfold FallbackState.saved?
    dsimp only
    rw [hsave.2]
    rfl

theorem Poised.advances_activate {active : ActiveStore} {merging : List (TransactionId × Origin)}
    (hp : l.Poised world me underway (.alone active merging) strand) (hknown : ∀ entry ∈ world.known, entry.1 ≠ me)
    {target : ActiveStore} {lastSeen : Option Timestamp} {result : Except Error StoreSwitch}
    (hperform : world.perform me (.activate target lastSeen) = (some result, world'))
    : ∃ h', (Holding.alone active merging).Leads world.coordinated (.activate target lastSeen) result h' ∧
        l.Advances world me (.alone active merging) strand l world' (underway.sees world world') h' := by
  obtain ⟨coordinator, hcoordinator, hgate, hseparate, hsaved⟩ := hp.fits.coordinator
  obtain ⟨halone, hactive, hmerging⟩ := hp.serves.grants
  rw [World.perform, hcoordinator] at hperform
  dsimp only at hperform
  obtain ⟨hsame, hseparate', hsaved', hfailed⟩ := activate_cases hseparate hsaved target lastSeen
  generalize coordinator.activate target lastSeen = activated at hperform hsame hseparate' hsaved' hfailed
  obtain ⟨result', coordinator'⟩ := activated
  cases hperform
  dsimp only at hsame hseparate' hsaved' hfailed
  -- whoever switches is alone, so no transaction is open meanwhile
  have hempty := hp.fits.opened_eq_empty halone
  have hfits : l.Fits { world with coordinator := some coordinator' } := by
    refine ⟨⟨coordinator', rfl, hsame ▸ hgate, hseparate', hsaved'⟩, hp.fits.node, hp.fits.numbered, hp.fits.subset, ?_⟩
    intro id hid
    obtain ⟨hlt, transaction, htransaction, -, hclosed⟩ := hp.fits.owned id hid
    refine ⟨hlt, transaction, htransaction, ?_, hclosed⟩
    rw [hempty]
    exact fun hopened => absurd hopened (Finset.notMem_empty id)
  have hknown' : ∀ entry ∈ World.known { world with coordinator := some coordinator' }, entry ∈ world.known := by
    rw [World.known_of_coordinator hcoordinator]
    show ∀ entry ∈ coordinator'.gate.known, entry ∈ coordinator.gate.known
    rw [hsame]
    exact fun _ hmem => hmem
  have hturns : world.Turns (fun _ => True) me (.alone active merging) { world with coordinator := some coordinator' } :=
    ⟨rfl, Nat.le_refl _, fun _ _ _ => rfl, fun _ strand _ _ h _ => ⟨strand.queued, h⟩,
      fun entry hmem => .inl (hknown' entry hmem)⟩
  cases result' with
  | error e =>
    have hstore : coordinator'.state.active = coordinator.state.active := hfailed e rfl
    have hface : World.face { world with coordinator := some coordinator' } = world.face := by
      unfold World.face
      rw [hcoordinator]
      dsimp only [Option.map_some]
      rw [hsaved', hsaved, hstore]
    refine ⟨.alone active merging, rfl, hturns, .refl _ _ _ _, .inr rfl, hfits, ?_, hp.strand_eq ⟨_, _, hp.found⟩ rfl,
      rfl, rfl, fun entry hmem => hknown entry (hknown' entry hmem)⟩
    refine hp.serves.sees rfl rfl (fun _ => ⟨rfl, hface⟩) ⟨halone, ?_, ?_⟩
    . rw [← hactive]
      unfold World.active?
      rw [hcoordinator]
      exact congrArg some hstore
    . exact fun id origin hmem => (hmerging id origin hmem).turn Iff.rfl (Nat.le_refl _) rfl
  | ok transition =>
    refine ⟨.switched merging, rfl, hturns, .refl _ _ _ _, .inr rfl, hfits, ?_, hp.strand_eq ⟨_, _, hp.found⟩ rfl, rfl,
      rfl, fun entry hmem => hknown entry (hknown' entry hmem)⟩
    refine hp.serves.sees rfl rfl (fun hquiet => absurd hquiet Bool.false_ne_true) ⟨halone, ?_⟩
    intro id origin hmem
    have hlends := hmerging id origin hmem
    refine ⟨hlends.owned, hlends.lt, ?_⟩
    intro transaction htransaction
    obtain ⟨hgated, horigin, -⟩ := hlends.transaction transaction htransaction
    exact ⟨hgated, horigin, fun hactive => absurd hactive.symm (Option.some_ne_none _)⟩

theorem after_of_isNodal (heffect : effect.isNodal = true) (underway : Underway) (reply : effect.Reply)
    : underway.after effect reply = underway := by
  cases effect <;> first | rfl | cases heffect

theorem waits_mine (hqueued : ∀ other, (me, other) ∈ world.known →
      strand.wait = .gate ∧ Effect.enterGate flag = .enterGate other)
    : ∀ other, (me, other) ∈ world.known → strand.wait = .gate ∧ other = flag := by
  intro other hmem
  obtain ⟨hwait, heffect⟩ := hqueued other hmem
  cases heffect
  exact ⟨hwait, rfl⟩

theorem Poised.advances (hp : l.Poised world me underway h strand)
    (hqueued : ∀ flag, (me, flag) ∈ world.known → strand.wait = .gate ∧ effect = .enterGate flag)
    (hpermits : h.Permits world.coordinated effect) {reply : effect.Reply}
    (hperform : world.perform me effect = (some reply, world'))
    : ∃ h' l', h.Leads world.coordinated effect reply h' ∧
        l.Advances world me h strand l' world' ((underway.sees world world').after effect reply) h' := by
  have hover := hpermits.isOver
  have hknown : (∀ flag, effect ≠ .enterGate flag) → ∀ entry ∈ world.known, entry.1 ≠ me := by
    rintro hne ⟨who, flag⟩ hmem rfl
    exact hne flag (hqueued flag hmem).2
  -- an effect on a node changes nothing that the ledger counts
  cases hnodal : effect.isNodal with
  | true =>
    have hstep := world.nodal_perform hnodal me
    rw [hperform] at hstep
    have hout : ∀ flag, effect ≠ .enterGate flag := by
      rintro flag rfl
      cases hnodal
    refine ⟨h, l, ?_, ?_⟩
    . cases effect <;> first | rfl | cases hnodal
    . rw [after_of_isNodal hnodal]
      refine hp.advances_nodal (hknown hout) ?_ hover hstep
      cases effect <;> first | exact hpermits | cases hnodal
  | false =>
    cases effect with
    | coordinator =>
      have hreply : world.coordinator = some reply := congrArg Prod.fst hperform
      have hworld : world = world' := congrArg Prod.snd hperform
      rw [← hworld]
      refine ⟨h, l, ⟨rfl, ?_⟩, hp.advances_refl (hknown nofun) hover⟩
      rintro active merging rfl
      have hactive := hp.serves.grants.2.1
      unfold World.active? at hactive
      rw [hreply] at hactive
      exact Option.some.inj hactive
    | coordinated =>
      cases hperform
      exact ⟨h, l, ⟨rfl, rfl⟩, hp.advances_refl (hknown nofun) hover⟩
    | observe available =>
      cases hpermits
      exact ⟨.outside, l, rfl, hp.advances_observe (hknown nofun) hperform⟩
    | enterGate flag =>
      cases hpermits
      rcases hp.enters_or_waits (waits_mine hqueued) with
        ⟨entered, l', active, henters, hadvances⟩ | ⟨waiting, hwaits, -⟩
      . cases henters.symm.trans hperform
        refine ⟨_, l', ?_, hadvances⟩
        cases flag with
        | true => exact ⟨active, rfl⟩
        | false => rfl
      . cases hwaits.symm.trans hperform
    | leaveGate flag =>
      obtain ⟨rfl, halone, hmerging⟩ := hpermits
      cases hperform
      obtain ⟨l', hadvances⟩ := hp.advances_leave (hknown nofun) halone hmerging rfl
      exact ⟨_, l', rfl, hadvances⟩
    | begin origin =>
      cases hperform
      cases origin with
      | active =>
        cases hpermits
        obtain ⟨l', hadvances⟩ := hp.advances_beginActive (hknown nofun)
        exact ⟨_, l', ⟨rfl, List.not_mem_nil⟩, hadvances⟩
      | standalone =>
        obtain ⟨active, merging, rfl⟩ := hpermits
        obtain ⟨hadvances, hfresh⟩ := hp.advances_beginMerging (hknown nofun)
          (show Origin.standalone ≠ .active from nofun) ⟨active, merging, rfl⟩
        exact ⟨_, l, ⟨rfl, hfresh⟩, hadvances⟩
      | member node stale =>
        obtain ⟨hnode, active, merging, rfl⟩ := hpermits
        obtain ⟨hadvances, hfresh⟩ := hp.advances_beginMerging (hknown nofun)
          (show Origin.member node stale ≠ .active from nofun) ⟨hnode, active, merging, rfl⟩
        exact ⟨_, l, ⟨rfl, hfresh⟩, hadvances⟩
    | view id =>
      cases hperform
      exact ⟨h, l, ⟨rfl, hp.serves.grants.shows hp.fits hpermits⟩, hp.advances_refl (hknown nofun) hover⟩
    | setView id view =>
      exact ⟨_, l, rfl, hp.advances_setView (hknown nofun) hpermits.1 hpermits.2 hperform⟩
    | planCommit id =>
      cases hperform
      obtain ⟨hadvances, hsettled⟩ := hp.advances_planCommit (hknown nofun) hpermits
      exact ⟨_, l, ⟨rfl, hsettled⟩, hadvances⟩
    | release id =>
      cases hperform
      obtain ⟨l', hadvances⟩ := hp.advances_release (hknown nofun) hpermits.1 hpermits.2
      exact ⟨_, l', rfl, hadvances⟩
    | drop id =>
      cases hperform
      obtain ⟨l', hadvances⟩ := hp.advances_drop (hknown nofun) hpermits
      exact ⟨_, l', rfl, hadvances⟩
    | activate target lastSeen =>
      obtain ⟨active, merging, rfl⟩ := hpermits
      obtain ⟨h', hleads, hadvances⟩ := hp.advances_activate (hknown nofun) hperform
      exact ⟨h', l, hleads, hadvances⟩
    | _ => cases hnodal

theorem Poised.waits (hp : l.Poised world me underway h strand)
    (hqueued : ∀ flag, (me, flag) ∈ world.known → strand.wait = .gate ∧ effect = .enterGate flag)
    (hpermits : h.Permits world.coordinated effect) (hperform : world.perform me effect = (none, world'))
    : l.Waits world me underway h strand effect world' := by
  -- of the effects that are not on a node, only the gate makes a call wait
  cases hnodal : effect.isNodal with
  | true =>
    have hstep := world.nodal_perform hnodal me
    rw [hperform] at hstep
    have hroams : h.Roams := by
      cases effect <;> first | exact hpermits | cases hnodal
    obtain ⟨queued, wait, hstrand, -⟩ := hstep.strand me strand hp.found hp.round
    have hspares := hstep.spares
    refine ⟨(World.Turns.refl world _ me h).spares hspares hp.fits.isSome fun _ hne _ => hne,
      hspares.active? hp.fits.isSome, hp.fits.spares hspares, ?_, queued, wait, hstrand, ?_⟩
    . apply hp.serves.sees rfl rfl _ (hp.serves.grants.spares hp.fits hspares)
      exact fun hquiet => ⟨hquiet, hp.serves.grants.face_eq hroams hquiet hstep⟩
    . rw [hspares.known hp.fits.isSome]
      intro flag hmem
      cases (hqueued flag hmem).2
      cases hnodal
  | false =>
    cases effect with
    | coordinator =>
      have hnone : world.coordinator = none := congrArg Prod.fst hperform
      have hsome := hp.fits.isSome
      rw [hnone] at hsome
      cases hsome
    | enterGate flag =>
      cases hpermits
      rcases hp.enters_or_waits (waits_mine hqueued) with ⟨entered, l', active, henters, -⟩ | ⟨waiting, hwaits, hwaiting⟩
      . cases henters.symm.trans hperform
      . cases hwaits.symm.trans hperform
        exact hwaiting
    | observe available =>
      rw [World.perform] at hperform
      obtain ⟨coordinator, hcoordinator, -⟩ := hp.fits.coordinator
      dsimp only at hperform
      rw [hcoordinator] at hperform
      cases hperform
    | activate target lastSeen =>
      rw [World.perform] at hperform
      obtain ⟨coordinator, hcoordinator, -⟩ := hp.fits.coordinator
      rw [hcoordinator] at hperform
      cases hperform
    | begin | view | setView | planCommit | release | drop | leaveGate | coordinated => cases hperform
    | _ => cases hnodal

end Ledger

end ReplicatedStore
