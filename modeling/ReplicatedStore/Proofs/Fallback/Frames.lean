import ReplicatedStore.Proofs.Fallback.Holdings

/-!
Steps on nodes and messages leave the coordinator, its transactions and the other strands alone.
-/

namespace ReplicatedStore

theorem lookup_filter_ne {α : Type} (entries : List (Nat × α)) {key other : Nat} (h : key ≠ other)
    : (entries.filter (·.1 ≠ other)).lookup key = entries.lookup key := by
  induction entries with
  | nil => rfl
  | cons entry entries ih =>
    obtain ⟨i, a⟩ := entry
    rw [List.lookup_cons]
    by_cases hi : i = other
    . rw [List.filter_cons_of_neg (by simpa using hi), ih, hi, show (key == other) = false by simpa using h]
    . rw [List.filter_cons_of_pos (by simpa using hi), List.lookup_cons, ih]

namespace World

variable {ρ : Type} {world world' world'' : World ρ} {me id who : Nat} {strand : Strand ρ}

theorem strand?_modifyStrand (world : World ρ) (id : Nat) (f : Strand ρ → Strand ρ) (who : Nat)
    : (world.modifyStrand id f).strand? who = (world.strand? who).map fun s => if who = id then f s else s :=
  lookup_map_snd world.strands (fun i old => if i = id then f old else old) who

structure Nodal (me : Nat) (world world' : World ρ) : Prop where
  coordinator : world'.coordinator = world.coordinator
  coordinated : world'.coordinated = world.coordinated
  transactions : world'.transactions = world.transactions
  nextTransaction : world'.nextTransaction = world.nextTransaction
  standalone : world'.standalone = world.standalone
  node : ∀ handle, (world.node? handle).isSome → (world'.node? handle).isSome
  strand : ∀ id strand, world.strand? id = some strand → strand.round = none →
    ∃ queued wait, world'.strand? id = some { strand with queued, wait } ∧ (id ≠ me → wait = strand.wait)
  numbered : world.Numbered → world'.Numbered

theorem Nodal.refl (me : Nat) (world : World ρ) : world.Nodal me world where
  coordinator := rfl
  coordinated := rfl
  transactions := rfl
  nextTransaction := rfl
  standalone := rfl
  node _ h := h
  strand _ strand h _ := ⟨strand.queued, strand.wait, h, fun _ => rfl⟩
  numbered h := h

theorem Nodal.trans (h : world.Nodal me world') (h' : world'.Nodal me world'') : world.Nodal me world'' where
  coordinator := h'.coordinator.trans h.coordinator
  coordinated := h'.coordinated.trans h.coordinated
  transactions := h'.transactions.trans h.transactions
  nextTransaction := h'.nextTransaction.trans h.nextTransaction
  standalone := h'.standalone.trans h.standalone
  node handle hnode := h'.node handle (h.node handle hnode)
  strand id strand hstrand hround := by
    obtain ⟨queued, wait, hstrand, hwait⟩ := h.strand id strand hstrand hround
    obtain ⟨queued', wait', hstrand, hwait'⟩ := h'.strand id _ hstrand hround
    exact ⟨queued', wait', hstrand, fun hne => (hwait' hne).trans (hwait hne)⟩
  numbered hnumbered := h'.numbered (h.numbered hnumbered)

theorem nodal_of_eq (hcoordinator : world'.coordinator = world.coordinator)
    (hcoordinated : world'.coordinated = world.coordinated)
    (htransactions : world'.transactions = world.transactions)
    (hnextTransaction : world'.nextTransaction = world.nextTransaction)
    (hstandalone : world'.standalone = world.standalone) (hnodes : world'.nodes = world.nodes)
    (hstrands : world'.strands = world.strands) (hnextStrand : world'.nextStrand = world.nextStrand)
    : world.Nodal me world' where
  coordinator := hcoordinator
  coordinated := hcoordinated
  transactions := htransactions
  nextTransaction := hnextTransaction
  standalone := hstandalone
  node handle h := by
    unfold node? at h ⊢
    rwa [hnodes]
  strand id strand h _ := by
    refine ⟨strand.queued, strand.wait, ?_, fun _ => rfl⟩
    unfold strand? at h ⊢
    rwa [hstrands]
  numbered h := by
    unfold Numbered at h ⊢
    rwa [hstrands, hnextStrand]

theorem dropRound_of_none (hstrand : world.strand? id = some strand) (hround : strand.round = none)
    : world.dropRound id = world.modifyStrand id fun strand => { strand with round := none } := by
  unfold dropRound
  rw [hstrand]
  dsimp only [Option.bind_some]
  rw [hround]
  rfl

theorem numbered_modifyStrand (h : world.Numbered) (id : Nat) (f : Strand ρ → Strand ρ)
    : (world.modifyStrand id f).Numbered := by
  intro entry hentry
  obtain ⟨⟨i, old⟩, hold, rfl⟩ := List.mem_map.1 hentry
  exact h (i, old) hold

theorem nodal_modifyStrand (id : Nat) {f : Strand ρ → Strand ρ}
    (hf : ∀ strand, strand.round = none →
      ∃ queued wait, f strand = { strand with queued, wait } ∧ (id ≠ me → wait = strand.wait))
    : world.Nodal me (world.modifyStrand id f) := by
  refine ⟨rfl, rfl, rfl, rfl, rfl, fun _ h => h, ?_, fun h => numbered_modifyStrand h id f⟩
  intro who strand hstrand hround
  rw [strand?_modifyStrand, hstrand, Option.map_some]
  by_cases hwho : who = id
  . obtain ⟨queued, wait, heq, hwait⟩ := hf strand hround
    rw [if_pos hwho, heq]
    exact ⟨queued, wait, rfl, fun hne => hwait (hwho ▸ hne)⟩
  . rw [if_neg hwho]
    exact ⟨strand.queued, strand.wait, rfl, fun _ => rfl⟩

theorem spares_modifyStrand (world : World ρ) (me : Nat) (f : Strand ρ → Strand ρ)
    : world.Spares (· ≠ me) (world.modifyStrand me f) where
  coordinator c hc := ⟨c, hc, rfl, rfl, rfl, rfl⟩
  coordinated := rfl
  node _ h := h
  transactions := rfl
  nextTransaction := rfl
  strand id strand hne hstrand _ := by
    refine ⟨strand.queued, ?_⟩
    rw [strand?_modifyStrand, hstrand, Option.map_some, if_neg hne]
  numbered h := numbered_modifyStrand h me f

theorem spares_filter (world : World ρ) (me : Nat) (queue deferred : List Nat)
    : world.Spares (· ≠ me) { world with strands := world.strands.filter (·.1 ≠ me), queue, deferred } where
  coordinator c hc := ⟨c, hc, rfl, rfl, rfl, rfl⟩
  coordinated := rfl
  node _ h := h
  transactions := rfl
  nextTransaction := rfl
  strand _ strand hne hstrand _ := ⟨strand.queued, (lookup_filter_ne world.strands hne).trans hstrand⟩
  numbered h entry hentry := h entry (List.mem_of_mem_filter hentry)

structure Wakes (world world' : World ρ) : Prop where
  nodal : ∀ me, world.Nodal me world'
  nodes : world'.nodes = world.nodes

theorem Wakes.refl (world : World ρ) : world.Wakes world :=
  ⟨fun me => .refl me world, rfl⟩

theorem Wakes.trans (h : world.Wakes world') (h' : world'.Wakes world'') : world.Wakes world'' :=
  ⟨fun me => (h.nodal me).trans (h'.nodal me), h'.nodes.trans h.nodes⟩

theorem wakes_queued (world : World ρ) (id : Nat)
    : world.Wakes (world.modifyStrand id fun s => { s with queued := true }) :=
  ⟨fun _ => nodal_modifyStrand id fun s _ => ⟨true, s.wait, rfl, fun _ => rfl⟩, rfl⟩

theorem wakes_wakeRoot (world : World ρ) (id : Nat) : world.Wakes (world.wakeRoot id) := by
  unfold wakeRoot
  split
  . exact ⟨fun _ => nodal_of_eq rfl rfl rfl rfl rfl rfl rfl rfl, rfl⟩
  . split
    . exact .refl world
    . split
      . exact .refl world
      . exact (wakes_queued world id).trans ⟨fun _ => nodal_of_eq rfl rfl rfl rfl rfl rfl rfl rfl, rfl⟩

theorem wakes_wake (world : World ρ) (id : Nat) : world.Wakes (world.wake id) := by
  unfold wake
  split
  . exact .refl world
  . split
    . exact wakes_wakeRoot world id
    . next owner _ =>
      split
      . exact .refl world
      . refine ((wakes_queued world id).trans ⟨fun me => nodal_modifyStrand owner ?_, rfl⟩).trans (wakes_wakeRoot _ owner)
        intro strand hround
        refine ⟨strand.queued, strand.wait, ?_, fun _ => rfl⟩
        rw [hround]
        cases strand
        cases hround
        rfl

theorem wakes_wakeAll (world : World ρ) (ids : List Nat) : world.Wakes (world.wakeAll ids) := by
  unfold wakeAll
  induction ids generalizing world with
  | nil => exact .refl world
  | cons id ids ih => exact (wakes_wake world id).trans (ih _)

theorem Nodal.spares (h : world.Nodal me world') : world.Spares (· ≠ me) world' where
  coordinator c hc := ⟨c, h.coordinator.trans hc, rfl, rfl, rfl, rfl⟩
  coordinated := h.coordinated
  node := h.node
  transactions := h.transactions
  nextTransaction := h.nextTransaction
  strand id strand hne hstrand hround := by
    obtain ⟨queued, wait, hstrand, hwait⟩ := h.strand id strand hstrand hround
    cases hwait hne
    exact ⟨queued, hstrand⟩
  numbered := h.numbered

theorem Wakes.spares (h : world.Wakes world') : world.Spares (fun _ => True) world' where
  coordinator := (h.nodal 0).spares.coordinator
  coordinated := (h.nodal 0).coordinated
  node := (h.nodal 0).node
  transactions := (h.nodal 0).transactions
  nextTransaction := (h.nodal 0).nextTransaction
  strand id strand _ := (h.nodal (id + 1)).spares.strand id strand (Nat.ne_of_lt (Nat.lt_succ_self id))
  numbered := (h.nodal 0).numbered

theorem Wakes.face_eq (h : world.Wakes world') : world'.face = world.face := by
  unfold face
  rw [(h.nodal 0).coordinator, (h.nodal 0).standalone, h.nodes]

def withGate (world : World ρ) (gate : Gate) : World ρ :=
  { world with coordinator := world.coordinator.map fun coordinator => { coordinator with gate } }

theorem active?_withGate (world : World ρ) (gate : Gate) : (world.withGate gate).active? = world.active? :=
  Option.map_map ..

theorem face_withGate (world : World ρ) (gate : Gate) : (world.withGate gate).face = world.face :=
  Option.map_map ..

theorem wakes_updateGate {coordinator : Coordinator} (hcoordinator : world.coordinator = some coordinator)
    (f : Gate → Gate)
    : (world.withGate (f coordinator.gate)).Wakes (world.updateGate f) := by
  unfold updateGate withGate
  rw [hcoordinator]
  exact wakes_wakeAll _ _

theorem nodal_spawn (strand : Strand ρ) (world : World ρ) : world.Nodal me (world.spawn strand).2 := by
  refine ⟨rfl, rfl, rfl, rfl, rfl, fun _ h => h, ?_, ?_⟩
  . intro who other hother _
    refine ⟨other.queued, other.wait, ?_, fun _ => rfl⟩
    unfold strand? at hother
    show (world.strands ++ _).lookup who = _
    rw [List.lookup_append, hother]
    rfl
  . intro hnumbered entry hentry
    show entry.1 < world.nextStrand + 1
    rcases List.mem_append.1 hentry with hentry | hentry
    . exact Nat.lt_succ_of_lt (hnumbered entry hentry)
    . rw [List.mem_singleton.1 hentry]
      exact Nat.lt_succ_self _

theorem strand?_nextStrand (h : world.Numbered) : world.strand? world.nextStrand = none := by
  unfold strand?
  cases hfound : world.strands.lookup world.nextStrand with
  | none => rfl
  | some strand =>
    obtain ⟨before, after, hsplit, -⟩ := List.lookup_eq_some_iff.1 hfound
    have hlt := h (world.nextStrand, strand) (by
      rw [hsplit]
      exact List.mem_append_right _ List.mem_cons_self)
    exact absurd hlt (Nat.lt_irrefl _)

theorem strand?_spawn (h : world.Numbered) (strand : Strand ρ)
    : (world.spawn strand).2.strand? world.nextStrand = some { strand with queued := true } := by
  have hnone := strand?_nextStrand h
  unfold strand? at hnone
  show (world.strands ++ [(world.nextStrand, { strand with queued := true })]).lookup world.nextStrand = _
  rw [List.lookup_append, hnone, Option.none_or, List.lookup_cons, BEq.rfl]

theorem nodal_nodes (world : World ρ) (f : Handle → Node → Node) (clock : Nat)
    : world.Nodal me { world with clock, nodes := world.nodes.map fun (h, old) => (h, f h old) } := by
  refine ⟨rfl, rfl, rfl, rfl, rfl, ?_, fun _ strand h _ => ⟨strand.queued, strand.wait, h, fun _ => rfl⟩, id⟩
  intro handle h
  show ((world.nodes.map fun (h, old) => (h, f h old)).lookup handle).isSome
  rw [lookup_map_snd, Option.isSome_map]
  exact h

theorem nodal_onNode {α : Type} (world : World ρ) (handle : Handle) (action : NodeM α)
    : world.Nodal me (world.onNode handle action).2 := by
  unfold onNode
  split
  . exact .refl me world
  . refine Nodal.trans ?_ (((wakes_wakeAll _ _).trans (wakes_wakeAll _ _)).nodal me)
    exact nodal_nodes world (fun h old => if h = handle then _ else old) _

theorem nodal_onNodeSending {α : Type} (world : World ρ) (handle : Handle) (action : NodeM (α × List Order))
    (default : α)
    : world.Nodal me (world.onNodeSending handle action default).2 := by
  have hnode : world.Nodal me (world.onNode handle action).2 := nodal_onNode world handle action
  unfold onNodeSending
  generalize world.onNode handle action = result at hnode ⊢
  obtain ⟨_ | ⟨a, orders⟩, world'⟩ := result
  . exact hnode
  . refine hnode.trans ?_
    dsimp only
    clear hnode
    induction orders generalizing world' with
    | nil => exact .refl me world'
    | cons order orders ih => exact (nodal_spawn _ world').trans (ih _)

theorem nodal_takeSettled (world : World ρ) (handle : Handle) (ticket : Nat)
    : world.Nodal me (world.takeSettled handle ticket).2 := by
  unfold takeSettled
  split
  . exact .refl me world
  . exact nodal_nodes world
      (fun h node => if h = handle then { node with settled := node.settled.filter (·.1 ≠ ticket) } else node) _

theorem nodal_waitFor (world : World ρ) (wait : Wait) : world.Nodal me (world.waitFor me wait) :=
  nodal_modifyStrand me fun strand _ => ⟨strand.queued, wait, rfl, fun hne => absurd rfl hne⟩

theorem wakes_passTurn (world : World ρ) : world.Wakes world.passTurn := by
  unfold passTurn
  split
  . exact ⟨fun _ => nodal_of_eq rfl rfl rfl rfl rfl rfl rfl rfl, rfl⟩
  . next next rest _ =>
    have hturn : world.Wakes { world with turn := some next, turnQueue := rest } :=
      ⟨fun _ => nodal_of_eq rfl rfl rfl rfl rfl rfl rfl rfl, rfl⟩
    exact hturn.trans (wakes_wake _ next)

theorem nodal_perform {effect : Effect} (heffect : effect.isNodal = true) (world : World ρ) (me : Nat)
    : world.Nodal me (world.perform me effect).2 := by
  cases effect with
  | config handle => exact .refl me world
  | tick handle => rw [perform]; exact nodal_onNodeSending world handle _ _
  | takeVote handle peer electionTerm response => rw [perform]; exact nodal_onNodeSending world handle _ _
  | message handle peer =>
    have hnode : world.Nodal me (world.onNode handle (NodeM.messageFor peer)).2 := nodal_onNode world handle _
    rw [perform]
    split
    . next heq =>
      rw [heq] at hnode
      exact hnode
    . next heq =>
      rw [heq] at hnode
      exact hnode
  | takeAppend handle peer sentTerm carried response => rw [perform]; exact nodal_onNodeSending world handle _ _
  | takeSnapshot handle peer sentTerm index response => rw [perform]; exact nodal_onNodeSending world handle _ _
  | handle handle request => rw [perform]; exact nodal_onNode world handle _
  | propose handle proposal => rw [perform]; exact nodal_onNode world handle _
  | broadcast handle => rw [perform]; exact nodal_onNodeSending world handle _ _
  | openRound handle => rw [perform]; exact nodal_onNode world handle _
  | standing handle => exact nodal_of_eq rfl rfl rfl rfl rfl rfl rfl rfl
  | inspect handle => exact .refl me world
  | standaloneSize => exact .refl me world
  | settlement handle ticket =>
    have hsettled : world.Nodal me (world.takeSettled handle ticket).2 := nodal_takeSettled world handle ticket
    rw [perform]
    split
    . next heq =>
      rw [heq] at hsettled
      exact hsettled
    . next heq =>
      rw [heq] at hsettled
      exact hsettled.trans (nodal_waitFor _ _)
  | applied handle index =>
    rw [perform]
    split
    . exact .refl me world
    . exact nodal_waitFor world _
  | pause =>
    rw [perform]
    split
    . exact .refl me world
    . exact (nodal_waitFor world .pause).trans (nodal_of_eq rfl rfl rfl rfl rfl rfl rfl rfl)
  | sleep millis =>
    rw [perform]
    split
    . split
      . exact .refl me world
      . exact .refl me world
    . split
      . exact .refl me world
      . have horder : world.Nodal me world.takeOrder.2 := nodal_of_eq rfl rfl rfl rfl rfl rfl rfl rfl
        exact horder.trans (nodal_waitFor _ _)
  | forever => exact nodal_waitFor world _
  | takeTurn =>
    rw [perform]
    split
    . split
      . exact .refl me world
      . split
        . exact nodal_of_eq rfl rfl rfl rfl rfl rfl rfl rfl
        . split
          . exact .refl me world
          . exact (nodal_waitFor world .turn).trans (nodal_of_eq rfl rfl rfl rfl rfl rfl rfl rfl)
    . exact .refl me world
  | passTurn =>
    rw [perform]
    split
    . exact (wakes_passTurn world).nodal me
    . exact .refl me world
  | dispatch source target request => exact nodal_of_eq rfl rfl rfl rfl rfl rfl rfl rfl
  | reply source target => exact .refl me world
  | begin | view | setView | planCommit | release | drop | enterGate | leaveGate | coordinator | coordinated
  | observe | activate => cases heffect

theorem Wakes.active?_eq (h : world.Wakes world') : world'.active? = world.active? := by
  unfold active?
  rw [(h.nodal 0).coordinator]

theorem active?_updateGate (world : World ρ) (f : Gate → Gate) : (world.updateGate f).active? = world.active? := by
  cases hcoordinator : world.coordinator with
  | none =>
    unfold updateGate
    rw [hcoordinator]
  | some coordinator => exact (wakes_updateGate hcoordinator f).active?_eq.trans (world.active?_withGate _)

theorem active?_giveUp (world : World ρ) (id : Nat) : (world.giveUp id).active? = world.active? := by
  have hgate : ∀ world : World ρ,
      (if world.waitOf id = .gate then world.updateGate (·.giveUp id) else world).active? = world.active? := by
    intro world
    split
    . exact world.active?_updateGate _
    . rfl
  unfold giveUp
  refine (hgate _).trans ?_
  split
  . exact (wakes_passTurn _).active?_eq
  . rfl

theorem active?_dropRound (world : World ρ) (id : Nat) : (world.dropRound id).active? = world.active? := by
  have hmembers : ∀ (members : List Nat) (world : World ρ), (members.foldl dropMember world).active? = world.active? := by
    intro members
    induction members with
    | nil => exact fun _ => rfl
    | cons member members ih => exact fun world => (ih _).trans (world.active?_giveUp member)
  exact hmembers _ world

theorem active?_abort (world : World ρ) (id : Nat) : (world.abort id).active? = world.active? := by
  have hleft : ((world.dropRound id).giveUp id).active? = world.active? :=
    (active?_giveUp _ id).trans (world.active?_dropRound id)
  unfold abort
  dsimp only
  split
  . exact (active?_updateGate _ _).trans hleft
  . exact hleft

end World

end ReplicatedStore
