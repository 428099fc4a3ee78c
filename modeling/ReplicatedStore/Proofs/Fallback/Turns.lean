import ReplicatedStore.Proofs.Fallback.Ledger

/-!
What steps of a call do to the ledger: on nodes, at the coordinator, and with the transactions that it has.
-/

namespace ReplicatedStore

namespace Holding

variable {h : Holding}

theorem owns_of_isOver (hover : h.isOver = false) (ids : Finset TransactionId) : h.owns ids = ids := by
  cases h <;> first | rfl | cases hover

theorem opens_of_isOver (hover : h.isOver = false) (ids : Finset TransactionId) : h.opens ids = ids := by
  cases h <;> first | rfl | cases hover

end Holding

theorem Coordinator.open_cases {config : FallbackConfig} {volume volume' : Volume} {coordinator : Coordinator}
    (hopen : Coordinator.open config volume = .ok coordinator volume')
    : coordinator.config = config ∧ coordinator.health = {} ∧ coordinator.gate = {} ∧ coordinator.disk = volume ∧
        FallbackState.saved? volume = some coordinator.state.active := by
  unfold Coordinator.open at hopen
  cases hfirst : MergeRegistry.builtin.find config.unavailableStrategy with
  | error e =>
    rw [hfirst] at hopen
    cases hopen
  | ok first =>
    cases hsecond : MergeRegistry.builtin.find config.rejoinStrategy with
    | error e =>
      rw [hfirst, hsecond] at hopen
      cases hopen
    | ok second =>
      rw [hfirst, hsecond] at hopen
      obtain ⟨state, after, hload, hrest⟩ := EStateM.of_bind hopen
      have hsame := FallbackState.load_of_find? hload rfl
      cases hload.symm.trans hsame
      cases hrest
      refine ⟨rfl, rfl, rfl, rfl, ?_⟩
      unfold FallbackState.saved?
      rw [hload]

theorem Coordinator.observe_eq (coordinator : Coordinator) (available : Bool) (now : Nat) (moment : Timestamp)
    : ∃ lastSeen health, (coordinator.observe available now moment).2
        = { coordinator with state := { coordinator.state with lastSeen }, health } := by
  unfold observe
  dsimp only
  split
  . exact ⟨_, _, rfl⟩
  . exact ⟨_, _, rfl⟩
  . exact ⟨_, _, rfl⟩
  . exact ⟨_, _, rfl⟩

namespace Ledger

variable {l l' : Ledger} {world world' : World FallbackAnswer} {me id : Nat} {underway underway' : Underway}
  {h h' : Holding} {strand : Strand FallbackAnswer} {effect : Effect}

structure Poised (l : Ledger) (world : World FallbackAnswer) (me : Nat) (underway : Underway) (h : Holding)
    (strand : Strand FallbackAnswer) : Prop where
  fits : l.Fits world
  serves : l.Serves world me underway h
  found : world.strand? me = some strand
  round : strand.round = none
  alone : strand.alone = h.isAlone

structure Advances (l : Ledger) (world : World FallbackAnswer) (me : Nat) (h : Holding)
    (strand : Strand FallbackAnswer) (l' : Ledger) (world' : World FallbackAnswer) (underway' : Underway)
    (h' : Holding) : Prop where
  turns : world.Turns (fun _ => True) me h world'
  ledger : l.Turns world me h l'
  active : world'.active? = world.active? ∨ h.isAlone = true
  fits : l'.Fits world'
  serves : l'.Serves world' me underway' h'
  strand : ∃ queued wait, world'.strand? me = some { strand with queued, wait, alone := h'.isAlone }
  owned : l'.owned = h'.owns l.owned
  opened : l'.opened = h'.opens l.opened
  known : ∀ entry ∈ world'.known, entry.1 ≠ me

theorem Serves.sees (hserves : l.Serves world me underway h) (htransaction : h'.transaction? = h.transaction?)
    (hmerging : h'.merging = h.merging)
    (hquiet : h'.isQuiet = true → h.isQuiet = true ∧ world'.face = world.face) (hgrants : l'.Grants world' me h')
    : l'.Serves world' me (underway.sees world world') h' where
  transaction := hserves.transaction.trans htransaction.symm
  merging := hserves.merging.trans (congrArg _ hmerging.symm)
  quiet hquiet' := by
    obtain ⟨hbefore, hface⟩ := hquiet hquiet'
    rintro (haltered | hface')
    . exact hserves.quiet hbefore haltered
    . exact hface' hface
  grants := hgrants

theorem Poised.strand_eq (hp : l.Poised world me underway h strand)
    (hstrand : ∃ queued wait, world'.strand? me = some { strand with queued, wait }) (halone : h'.isAlone = h.isAlone)
    : ∃ queued wait, world'.strand? me = some { strand with queued, wait, alone := h'.isAlone } := by
  obtain ⟨queued, wait, hstrand⟩ := hstrand
  rw [halone, ← hp.alone]
  exact ⟨queued, wait, hstrand⟩

theorem Poised.advances_of_spares (hp : l.Poised world me underway h strand)
    (hspares : world.Spares (· ≠ me) world') (hstrand : ∃ queued wait, world'.strand? me = some { strand with queued, wait })
    (halone : h'.isAlone = h.isAlone) (hover : h'.isOver = false) (hserves : l.Serves world' me underway' h')
    (hknown : ∀ entry ∈ world.known, entry.1 ≠ me)
    : l.Advances world me h strand l world' underway' h' where
  turns := (World.Turns.refl world _ me h).spares hspares hp.fits.isSome fun _ hne _ => hne
  ledger := .refl l world me h
  active := .inl (hspares.active? hp.fits.isSome)
  fits := hp.fits.spares hspares
  serves := hserves
  strand := hp.strand_eq hstrand halone
  owned := (Holding.owns_of_isOver hover _).symm
  opened := (Holding.opens_of_isOver hover _).symm
  known := by
    rw [hspares.known hp.fits.isSome]
    exact hknown

theorem Grants.face_eq (hgrants : l.Grants world me h) (hroams : h.Roams) (hquiet : h.isQuiet = true)
    (hnodal : world.Nodal who world')
    : world'.face = world.face := by
  cases h with
  | alone active merging =>
    cases active with
    | replicated => cases hroams
    | standalone =>
      have hactive := hgrants.2.1
      unfold World.active? at hactive
      unfold World.face
      rw [hnodal.coordinator, hnodal.standalone]
      cases hcoordinator : world.coordinator with
      | none => rfl
      | some coordinator =>
        rw [hcoordinator, Option.map_some, Option.some.injEq] at hactive
        rw [Option.map_some, Option.map_some, hactive]
  | outside => cases hroams
  | _ => cases hquiet

theorem Poised.advances_nodal (hp : l.Poised world me underway h strand)
    (hknown : ∀ entry ∈ world.known, entry.1 ≠ me) (hroams : h.Roams) (hover : h.isOver = false)
    (hnodal : world.Nodal me world')
    : l.Advances world me h strand l world' (underway.sees world world') h := by
  have hspares := hnodal.spares
  refine hp.advances_of_spares hspares ?_ rfl hover ?_ hknown
  . obtain ⟨queued, wait, hstrand, -⟩ := hnodal.strand me strand hp.found hp.round
    exact ⟨queued, wait, hstrand⟩
  . refine hp.serves.sees rfl rfl ?_ (hp.serves.grants.spares hp.fits hspares)
    exact fun hquiet => ⟨hquiet, hp.serves.grants.face_eq hroams hquiet hnodal⟩

theorem Poised.advances_refl (hp : l.Poised world me underway h strand)
    (hknown : ∀ entry ∈ world.known, entry.1 ≠ me) (hover : h.isOver = false)
    : l.Advances world me h strand l world (underway.sees world world) h := by
  refine hp.advances_of_spares ((World.Nodal.refl me world).spares) ⟨strand.queued, strand.wait, hp.found⟩ rfl hover ?_ hknown
  exact hp.serves.sees rfl rfl (fun hquiet => ⟨hquiet, rfl⟩) hp.serves.grants

theorem Poised.advances_observe (hp : l.Poised world me underway .probing strand)
    (hknown : ∀ entry ∈ world.known, entry.1 ≠ me) {available : Bool} {due : Option ActiveStore}
    (hperform : world.perform me (.observe available) = (some due, world'))
    : l.Advances world me .probing strand l world' ((underway.sees world world').after (.observe available) due)
        .outside := by
  obtain ⟨coordinator, hcoordinator, -⟩ := hp.fits.coordinator
  obtain ⟨lastSeen, health, hobserve⟩ := coordinator.observe_eq available (world.clock + 1) world.moment
  rw [World.perform] at hperform
  dsimp only at hperform
  rw [hcoordinator] at hperform
  cases hperform
  have hspares : world.Spares (· ≠ me) { world with
      clock := world.clock + 1
      coordinator := some (coordinator.observe available (world.clock + 1) world.moment).2 } := by
    refine ⟨?_, rfl, fun _ h => h, rfl, rfl, fun _ strand _ h _ => ⟨strand.queued, h⟩, id⟩
    intro c hc
    cases hcoordinator.symm.trans hc
    rw [hobserve]
    exact ⟨_, rfl, rfl, rfl, rfl, rfl⟩
  refine hp.advances_of_spares hspares ⟨strand.queued, strand.wait, hp.found⟩ rfl rfl ?_ hknown
  exact ⟨hp.serves.transaction, hp.serves.merging, fun _ haltered => haltered, trivial⟩

theorem Fits.of_owned (hfits : l.Fits world) (hcoordinator : world'.coordinator = world.coordinator)
    (hcoordinated : world'.coordinated = world.coordinated) (hnodes : world'.nodes = world.nodes)
    (hnumbered : world'.Numbered) (hinside : l'.insiders.card + l'.opened.card ≤ l.insiders.card + l.opened.card)
    (halone : l'.alones.card ≤ l.alones.card) (hsubset : l'.opened ⊆ l'.owned)
    (howned : ∀ id ∈ l'.owned, id < world'.nextTransaction ∧ ∃ transaction,
      world'.transaction? id = some transaction ∧
      (id ∈ l'.opened → world.storeOf transaction.base = world.active?) ∧
      (id ∉ l'.opened → transaction.view.closed = true ∧ transaction.gated = false))
    : l'.Fits world' := by
  obtain ⟨coordinator, hc, hgate, hseparate, hsaved⟩ := hfits.coordinator
  refine ⟨⟨coordinator, hcoordinator.trans hc, hgate.mono hinside halone, hseparate, hsaved⟩, ?_, hnumbered, hsubset, ?_⟩
  . have hnode := hfits.node
    unfold World.node? at hnode ⊢
    rw [hnodes, hcoordinated]
    exact hnode
  . have hstoreOf : world'.storeOf = world.storeOf := by
      unfold World.storeOf
      rw [hcoordinated]
    have hactive : world'.active? = world.active? := by
      unfold World.active?
      rw [hcoordinator]
    rw [hstoreOf, hactive]
    exact howned

theorem transaction?_setTransaction (world : World FallbackAnswer) (id : TransactionId)
    (transaction : ClusterTransaction) (other : TransactionId)
    : (world.setTransaction id transaction).transaction? other
        =
      if other = id then some transaction else world.transaction? other := by
  show List.lookup other ((id, transaction) :: world.transactions.filter (·.1 ≠ id)) = _
  rw [List.lookup_cons]
  split
  . next heq =>
    rw [if_pos (by simpa using heq)]
  . next hne =>
    have hne : other ≠ id := by simpa using hne
    rw [if_neg hne, lookup_filter_ne world.transactions hne]
    rfl

theorem turns_addTransaction (world : World FallbackAnswer) (me : Nat) (h : Holding) (transaction : ClusterTransaction)
    : world.Turns (fun _ => True) me h (world.addTransaction transaction).2 where
  coordinated := rfl
  nextTransaction := Nat.le_succ _
  transaction id hlt _ := (transaction?_setTransaction world _ transaction id).trans (if_neg (Nat.ne_of_lt hlt))
  strand _ strand _ _ h _ := ⟨strand.queued, h⟩
  known _ hmem := .inl hmem

theorem Fits.add (hfits : l.Fits world) (transaction : ClusterTransaction)
    : l.Fits (world.addTransaction transaction).2 := by
  refine hfits.of_owned rfl rfl rfl hfits.numbered (Nat.le_refl _) (Nat.le_refl _) hfits.subset ?_
  intro id hid
  obtain ⟨hlt, howned⟩ := hfits.owned id hid
  have hsame := (turns_addTransaction world 0 .outside transaction).transaction id hlt nofun
  rw [hsame]
  exact ⟨Nat.lt_succ_of_lt hlt, howned⟩

theorem Fits.hand (hfits : l.Fits world) (hme : me ∈ l.insiders) {transaction : ClusterTransaction}
    (hstore : world.storeOf transaction.base = world.active?)
    : Fits { l with
        owned := insert world.nextTransaction l.owned
        opened := insert world.nextTransaction l.opened
        insiders := l.insiders.erase me } (world.addTransaction transaction).2 := by
  have hfresh : world.nextTransaction ∉ l.owned := fun hmem => Nat.lt_irrefl _ (hfits.owned _ hmem).1
  refine hfits.of_owned rfl rfl rfl hfits.numbered ?_ (Nat.le_refl _) (Finset.insert_subset_insert _ hfits.subset) ?_
  . show (l.insiders.erase me).card + (insert world.nextTransaction l.opened).card ≤ _
    rw [Finset.card_insert_of_notMem (fun hmem => hfresh (hfits.subset hmem))]
    have := Finset.card_erase_add_one hme
    omega
  . intro id hid
    rcases Finset.mem_insert.1 hid with rfl | hid
    . refine ⟨Nat.lt_succ_self _, transaction, ?_, fun _ => hstore, fun hopen => absurd (Finset.mem_insert_self _ _) hopen⟩
      exact (transaction?_setTransaction world _ transaction _).trans (if_pos rfl)
    . obtain ⟨hlt, owned, howned, hopened, hclosed⟩ := hfits.owned id hid
      have hsame := (turns_addTransaction world 0 .outside transaction).transaction id hlt nofun
      rw [hsame]
      refine ⟨Nat.lt_succ_of_lt hlt, owned, howned, ?_, fun hopen => hclosed fun hmem => hopen (Finset.mem_insert_of_mem hmem)⟩
      exact fun hmem => hopened (Finset.mem_of_mem_insert_of_ne hmem (Nat.ne_of_lt hlt))

theorem storeOf_beginActive (hfits : l.Fits world)
    : ∃ transaction, world.begin .active = world.addTransaction transaction ∧
        world.storeOf transaction.base = world.active? := by
  obtain ⟨coordinator, hcoordinator, -⟩ := hfits.coordinator
  obtain ⟨node, hnode⟩ := Option.isSome_iff_exists.1 hfits.node
  refine ⟨_, rfl, ?_⟩
  dsimp only
  unfold World.active?
  rw [hcoordinator]
  dsimp only [Option.map_some]
  cases coordinator.state.active with
  | standalone => rfl
  | replicated =>
    dsimp only
    unfold World.memberTransaction
    rw [hnode]
    exact if_pos ⟨rfl, rfl⟩

theorem Poised.advances_beginActive (hp : l.Poised world me underway .entered strand)
    (hknown : ∀ entry ∈ world.known, entry.1 ≠ me)
    : ∃ l', l.Advances world me .entered strand l' (world.begin .active).2
        (underway.sees world (world.begin .active).2) (.begun (world.begin .active).1) := by
  obtain ⟨transaction, hbegin, hstore⟩ := storeOf_beginActive hp.fits
  rw [hbegin]
  have hturns := turns_addTransaction world me .entered transaction
  refine ⟨_, hturns, ?_, .inl rfl, hp.fits.hand hp.serves.grants hstore, ?_,
    hp.strand_eq ⟨_, _, hp.found⟩ rfl, rfl, rfl, hknown⟩
  . refine ⟨?_, ?_, fun who hne hmem => Finset.mem_erase_of_ne_of_mem hne hmem, fun _ _ hmem => hmem⟩
    . intro id hlt _
      exact Finset.mem_insert.trans (or_iff_right (Nat.ne_of_lt hlt))
    . intro id hlt _
      exact Finset.mem_insert.trans (or_iff_right (Nat.ne_of_lt hlt))
  . exact hp.serves.sees rfl rfl nofun trivial

theorem begin_merging (hfits : l.Fits world) {home : Handle} {active : ActiveStore}
    {merging : List (TransactionId × Origin)} {origin : Origin} (hhome : world.coordinated = home)
    (hne : origin ≠ .active) (hpermits : (Holding.alone active merging).Permits home (.begin origin))
    : ∃ transaction, world.begin origin = world.addTransaction transaction ∧ transaction.gated = false ∧
        transaction.base.origin = origin ∧ transaction.view.writes.isEmpty = true := by
  cases origin with
  | active => exact absurd rfl hne
  | standalone => exact ⟨_, rfl, rfl, rfl, rfl⟩
  | member handle stale =>
    obtain ⟨rfl, -⟩ := hpermits
    obtain ⟨node, hnode⟩ := Option.isSome_iff_exists.1 hfits.node
    rw [hhome] at hnode
    refine ⟨_, rfl, ?_⟩
    dsimp only
    unfold World.memberTransaction
    rw [hnode]
    exact ⟨rfl, rfl, rfl⟩

theorem Poised.advances_beginMerging {active : ActiveStore} {merging : List (TransactionId × Origin)} {origin : Origin}
    (hp : l.Poised world me underway (.alone active merging) strand) (hknown : ∀ entry ∈ world.known, entry.1 ≠ me)
    (hne : origin ≠ .active) (hpermits : (Holding.alone active merging).Permits world.coordinated (.begin origin))
    : l.Advances world me (.alone active merging) strand l (world.begin origin).2
          ((underway.sees world (world.begin origin).2).after (.begin origin) (world.begin origin).1)
          (.alone active (((world.begin origin).1, origin) :: merging)) ∧
        (world.begin origin).1 ∉ merging.map Prod.fst := by
  obtain ⟨transaction, hbegin, hgated, horigin, hwrites⟩ := begin_merging hp.fits rfl hne hpermits
  rw [hbegin]
  have hturns := turns_addTransaction world me (.alone active merging) transaction
  obtain ⟨halone, hactive, hmerging⟩ := hp.serves.grants
  constructor
  . refine ⟨hturns, .refl _ _ _ _, .inl rfl, hp.fits.add transaction, ⟨?_, ?_, ?_, halone, hactive, ?_⟩,
      hp.strand_eq ⟨_, _, hp.found⟩ rfl, rfl, rfl, hknown⟩
    . cases origin <;> exact hp.serves.transaction
    . cases origin with
      | active => exact absurd rfl hne
      | _ => exact congrArg (world.nextTransaction :: ·) hp.serves.merging
    . intro _
      have hquiet := hp.serves.quiet rfl
      have hsees : ¬ (underway.sees world (world.addTransaction transaction).2).altered :=
        fun haltered => haltered.elim hquiet fun hface => hface rfl
      cases origin <;> exact hsees
    . intro id other hmem
      rcases List.mem_cons.1 hmem with hmem | hmem
      . cases hmem
        refine ⟨fun howned => Nat.lt_irrefl _ (hp.fits.owned _ howned).1, Nat.lt_succ_self _, ?_⟩
        intro added hadded
        cases ((transaction?_setTransaction world _ transaction _).trans (if_pos rfl)).symm.trans hadded
        exact ⟨hgated, horigin, fun _ _ => hwrites⟩
      . have hlends := hmerging id other hmem
        refine hlends.turn Iff.rfl hturns.nextTransaction ?_
        exact (transaction?_setTransaction world _ transaction id).trans (if_neg (Nat.ne_of_lt hlends.lt))
  . intro hmem
    exact Nat.lt_irrefl _ (hp.serves.grants.lt hp.fits hmem)

structure Alters (h : Holding) (id : TransactionId) (closed : Bool) (old transaction : ClusterTransaction) : Prop where
  base : transaction.base = old.base
  gated : old.gated = false → transaction.gated = false
  shows : h.Shows id transaction.view
  closes : closed = true → transaction.view.closed = true
  stays : ∀ before, h = .within id before → before = true → closed = true

theorem turns_setTransaction (world : World FallbackAnswer) (me : Nat) (hhas : h.Has id)
    (transaction : ClusterTransaction)
    : world.Turns (fun _ => True) me h (world.setTransaction id transaction) where
  coordinated := rfl
  nextTransaction := Nat.le_refl _
  transaction other _ hother := by
    rw [transaction?_setTransaction, if_neg]
    rintro rfl
    exact hother hhas
  strand _ strand _ _ h _ := ⟨strand.queued, h⟩
  known _ hmem := .inl hmem

variable {old transaction : ClusterTransaction} {closed : Bool}

theorem Fits.set (hfits : l.Fits world) (hgrants : l.Grants world me h) (hhas : h.Has id)
    (hold : world.transaction? id = some old) (halters : Alters h id closed old transaction)
    : l.Fits (world.setTransaction id transaction) := by
  refine hfits.of_owned rfl rfl rfl hfits.numbered (Nat.le_refl _) (Nat.le_refl _) hfits.subset ?_
  intro other hother
  rw [transaction?_setTransaction]
  obtain ⟨hlt, owned, howned, hopened, hclosed⟩ := hfits.owned other hother
  by_cases hid : other = id
  . cases hid
    cases hold.symm.trans howned
    rw [if_pos rfl]
    refine ⟨hlt, transaction, rfl, halters.base ▸ hopened, ?_⟩
    intro hopen
    refine ⟨halters.closes ?_, halters.gated (hclosed hopen).2⟩
    cases h with
    | within _ before =>
      cases hhas
      exact halters.stays before rfl (hgrants.2.1 hopen)
    | alone active merging =>
      obtain ⟨⟨_, origin⟩, hmem, rfl⟩ := List.mem_map.1 hhas
      exact absurd hother (hgrants.2.2 _ origin hmem).owned
    | switched merging =>
      obtain ⟨⟨_, origin⟩, hmem, rfl⟩ := List.mem_map.1 hhas
      exact absurd hother (hgrants.2 _ origin hmem).owned
    | _ => cases hhas
  . rw [if_neg hid]
    exact ⟨hlt, owned, howned, hopened, hclosed⟩

theorem Lends.set {active : Option ActiveStore} {other : TransactionId} {origin : Origin}
    (hlends : l.Lends world active other origin) (hold : world.transaction? id = some old)
    (hbase : transaction.base = old.base) (hgated : old.gated = false → transaction.gated = false)
    (hwrites : other = id → active = some .standalone → origin = .standalone → transaction.view.writes.isEmpty = true)
    : l.Lends (world.setTransaction id transaction) active other origin where
  owned := hlends.owned
  lt := hlends.lt
  transaction := by
    intro found hfound
    rw [transaction?_setTransaction] at hfound
    by_cases hid : other = id
    . rw [if_pos hid] at hfound
      cases hfound
      obtain ⟨hungated, horigin, -⟩ := hlends.transaction old (hid ▸ hold)
      exact ⟨hgated hungated, hbase ▸ horigin, hwrites hid⟩
    . rw [if_neg hid] at hfound
      exact hlends.transaction found hfound

theorem Grants.set (hgrants : l.Grants world me h) (hhas : h.Has id) (hold : world.transaction? id = some old)
    (halters : Alters h id closed old transaction)
    : l.Grants (world.setTransaction id transaction) me (h.closes closed) := by
  cases h with
  | within _ before =>
    cases hhas
    obtain ⟨howned, hopened, -⟩ := hgrants
    refine ⟨howned, fun hopen => halters.stays before rfl (hopened hopen), ?_⟩
    intro found hfound hclosed
    rw [transaction?_setTransaction, if_pos rfl] at hfound
    cases hfound
    exact halters.closes hclosed
  | alone active merging =>
    obtain ⟨halone, hactive, hmerging⟩ := hgrants
    refine ⟨halone, hactive, ?_⟩
    intro other origin hmem
    apply (hmerging other origin hmem).set hold halters.base halters.gated
    rintro rfl hstandalone rfl
    cases hstandalone
    exact halters.shows hmem
  | switched merging =>
    obtain ⟨halone, hmerging⟩ := hgrants
    refine ⟨halone, ?_⟩
    intro other origin hmem
    exact (hmerging other origin hmem).set hold halters.base halters.gated fun _ => nofun
  | _ => cases hhas

theorem Poised.advances_set (hp : l.Poised world me underway h strand) (hknown : ∀ entry ∈ world.known, entry.1 ≠ me)
    (hhas : h.Has id) (hold : world.transaction? id = some old) (halters : Alters h id closed old transaction)
    (hspares : (world.setTransaction id transaction).Spares (fun _ => True) world')
    (hface : h.isQuiet = true → world'.face = world.face)
    : l.Advances world me h strand l world' (underway.sees world world') (h.closes closed) := by
  have hfits := hp.fits.set hp.serves.grants hhas hold halters
  have hsame : (h.closes closed).transaction? = h.transaction? ∧ (h.closes closed).merging = h.merging ∧
      (h.closes closed).isQuiet = h.isQuiet ∧ (h.closes closed).isAlone = h.isAlone ∧
      (h.closes closed).isOver = false := by
    cases h <;> first | exact ⟨rfl, rfl, rfl, rfl, rfl⟩ | cases hhas
  obtain ⟨htransaction, hmerging, hquiet, halone, hover⟩ := hsame
  refine ⟨?_, .refl _ _ _ _, .inl ?_, hfits.spares hspares, ?_, hp.strand_eq ?_ halone,
    (Holding.owns_of_isOver hover _).symm, (Holding.opens_of_isOver hover _).symm, ?_⟩
  . exact (turns_setTransaction world me hhas transaction).spares hspares hp.fits.isSome fun _ _ _ => trivial
  . exact hspares.active? hp.fits.isSome
  . apply hp.serves.sees htransaction hmerging
    . rw [hquiet]
      exact fun hquiet => ⟨hquiet, hface hquiet⟩
    . exact (hp.serves.grants.set hhas hold halters).spares hfits hspares
  . obtain ⟨queued, hstrand⟩ := hspares.strand me strand trivial hp.found hp.round
    exact ⟨queued, strand.wait, hstrand⟩
  . rw [hspares.known hp.fits.isSome]
    exact hknown

theorem Grants.shows (hgrants : l.Grants world me h) (hfits : l.Fits world) (hhas : h.Has id)
    : h.Shows id (((world.transaction? id).map (·.view)).getD default) := by
  cases h with
  | within _ closed =>
    cases hhas
    obtain ⟨howned, -, hclosed⟩ := hgrants
    obtain ⟨-, transaction, htransaction, -⟩ := hfits.owned id howned
    rw [htransaction]
    exact hclosed transaction htransaction
  | alone active merging =>
    cases active with
    | replicated => trivial
    | standalone =>
      intro hmem
      have hlends := hgrants.2.2 _ _ hmem
      cases htransaction : world.transaction? id with
      | none => rfl
      | some transaction => exact (hlends.transaction transaction htransaction).2.2 rfl rfl
  | switched merging => trivial
  | _ => cases hhas

theorem Poised.advances_setView (hp : l.Poised world me underway h strand) (hknown : ∀ entry ∈ world.known, entry.1 ≠ me)
    {view : TransactionView} (hhas : h.Has id) (hshows : h.Shows id view)
    (hperform : world.perform me (.setView id view) = (some (), world'))
    : l.Advances world me h strand l world' (underway.sees world world') (h.closes view.closed) := by
  rw [World.perform] at hperform
  cases hold : world.transaction? id with
  | none =>
    rw [hold] at hperform
    cases hperform
    cases h with
    | within _ before =>
      cases hhas
      obtain ⟨-, transaction, htransaction, -⟩ := hp.fits.owned id hp.serves.grants.1
      cases hold.symm.trans htransaction
    | alone active merging => exact hp.advances_refl hknown rfl
    | switched merging => exact hp.advances_refl hknown rfl
    | _ => cases hhas
  | some old =>
    rw [hold] at hperform
    cases hperform
    have halters : Alters h id view.closed old { old with view } := by
      refine ⟨rfl, fun hgated => hgated, hshows, fun hclosed => hclosed, ?_⟩
      rintro before rfl hbefore
      exact hshows hbefore
    exact hp.advances_set hknown hhas hold halters (World.Wakes.refl _).spares fun _ => rfl

theorem Fits.withGate (hfits : l.Fits world) {gate : Gate} {insiders alones : Finset Nat}
    (hgate : gate.Fits (insiders.card + l.opened.card) alones.card)
    : Fits { l with insiders, alones } (world.withGate gate) := by
  have hactive := world.active?_withGate gate
  obtain ⟨coordinator, hcoordinator, -, hseparate, hsaved⟩ := hfits.coordinator
  refine ⟨⟨_, congrArg (Option.map _) hcoordinator, hgate, hseparate, hsaved⟩, hfits.node, hfits.numbered, hfits.subset, ?_⟩
  rw [hactive]
  exact hfits.owned

end Ledger

end ReplicatedStore
