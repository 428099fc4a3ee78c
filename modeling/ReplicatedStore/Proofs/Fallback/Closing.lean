import ReplicatedStore.Proofs.Fallback.Turns
import ReplicatedStore.Proofs.Standalone.Commits

/-!
What becomes of the ledger when a call commits, releases or drops a transaction.
-/

namespace ReplicatedStore

namespace Ledger

variable {l l' : Ledger} {world world' : World FallbackAnswer} {me id : Nat} {underway underway' : Underway}
  {h h' : Holding} {strand : Strand FallbackAnswer} {old transaction : ClusterTransaction} {closed : Bool}

theorem commitTransaction_take (standalone : StandaloneStore) (transaction : StandaloneTransaction)
    (hopen : transaction.view.closed = false)
    : ∃ result standalone',
        StandaloneStore.commitTransaction transaction standalone
            = (result, { transaction with view := transaction.view.take.2 }, standalone') ∧
          (transaction.view.writes.isEmpty = true → standalone' = standalone) := by
  have hstore : transaction.view.writes.isEmpty = true →
      EStateM.Yields (fun _ store => store = standalone) (· = standalone)
        (StandaloneStore.commit transaction.baseVersion transaction.view.reads transaction.view.writes standalone) := by
    intro hwrites
    rw [StandaloneStore.commit_eq]
    cases standalone.refusal? transaction.baseVersion transaction.view.reads with
    | some e => rfl
    | none =>
      dsimp only
      rw [if_pos hwrites]
      rfl
  unfold StandaloneStore.commitTransaction
  rw [hopen]
  dsimp only
  cases hcommit : StandaloneStore.commit transaction.baseVersion transaction.view.reads transaction.view.writes
      standalone with
  | ok _ after =>
    rw [hcommit] at hstore
    refine ⟨.ok (), after, ?_, hstore⟩
    rw [if_neg nofun]
    dsimp only [TransactionView.take]
    rw [hcommit]
  | error e after =>
    rw [hcommit] at hstore
    refine ⟨.error e, after, ?_, hstore⟩
    rw [if_neg nofun]
    dsimp only [TransactionView.take]
    rw [hcommit]

structure Taken (old transaction : ClusterTransaction) : Prop where
  base : transaction.base = old.base
  gated : transaction.gated = old.gated
  closed : transaction.view.closed = true
  writes : transaction.view.writes.isEmpty = true

theorem planCommit_cases (world : World FallbackAnswer) (id : TransactionId)
    : ((world.planCommit id).2 = world ∧ (∃ result, (world.planCommit id).1 = .settled result) ∧
          ∀ transaction, world.transaction? id = some transaction → transaction.view.closed = true) ∨
        ∃ old transaction standalone, world.transaction? id = some old ∧
          (world.planCommit id).2 = { world.setTransaction id transaction with standalone } ∧ Taken old transaction ∧
          (old.base.origin.settles = true → ∃ result, (world.planCommit id).1 = .settled result) ∧
          ((old.base.origin = .standalone → old.view.writes.isEmpty = true) → standalone = world.standalone) := by
  unfold World.planCommit
  cases hold : world.transaction? id with
  | none => exact .inl ⟨rfl, ⟨_, rfl⟩, nofun⟩
  | some old =>
    dsimp only
    split
    . next hclosed =>
      refine .inl ⟨rfl, ⟨_, rfl⟩, ?_⟩
      rintro _ ⟨⟩
      exact hclosed
    . next hopen =>
      right
      obtain ⟨view, base, gated, committing⟩ := old
      cases base with
      | standalone version =>
        obtain ⟨result, standalone, hcommit, hsame⟩ := commitTransaction_take world.standalone
          { view, baseVersion := version } (Bool.not_eq_true _ ▸ hopen)
        dsimp only
        rw [hcommit]
        exact ⟨_, _, standalone, rfl, rfl, ⟨rfl, rfl, rfl, rfl⟩, fun _ => ⟨result, rfl⟩, fun h => hsame (h rfl)⟩
      | member handle term index stale =>
        refine ⟨_, { view := view.take.2, base := .member handle term index stale, gated, committing := true },
          world.standalone, rfl, ?_, ⟨rfl, rfl, rfl, rfl⟩, ?_, fun _ => rfl⟩
        . dsimp only [TransactionView.take]
          split
          . rfl
          . rfl
          . split
            . rfl
            . split
              . rfl
              . rfl
        . intro hsettles
          cases stale with
          | false => cases hsettles
          | true => exact ⟨.ok (), rfl⟩

theorem Grants.face_eq_of_set (hgrants : l.Grants world me h) (hhas : h.Has id) (hquiet : h.isQuiet = true)
    (hold : world.transaction? id = some old) {standalone : StandaloneStore}
    (hsame : (old.base.origin = .standalone → old.view.writes.isEmpty = true) → standalone = world.standalone)
    : { world.setTransaction id transaction with standalone }.face = world.face := by
  cases h with
  | alone active merging =>
    obtain ⟨-, hactive, hmerging⟩ := hgrants
    obtain ⟨⟨_, origin⟩, hmem, rfl⟩ := List.mem_map.1 hhas
    obtain ⟨-, horigin, hwrites⟩ := (hmerging _ origin hmem).transaction old hold
    unfold World.active? at hactive
    unfold World.face
    show world.coordinator.map _ = world.coordinator.map _
    cases hcoordinator : world.coordinator with
    | none => rfl
    | some coordinator =>
      rw [hcoordinator, Option.map_some, Option.some.injEq] at hactive
      rw [Option.map_some, Option.map_some, hactive]
      cases active with
      | replicated => rfl
      | standalone =>
        rw [hsame fun h => hwrites rfl (horigin.symm.trans h)]
  | within => cases hquiet
  | switched => cases hquiet
  | _ => cases hhas

theorem Poised.advances_planCommit (hp : l.Poised world me underway h strand)
    (hknown : ∀ entry ∈ world.known, entry.1 ≠ me) (hhas : h.Has id)
    : l.Advances world me h strand l (world.planCommit id).2 (underway.sees world (world.planCommit id).2)
          (h.closes true) ∧
        (h.Settles id → ∃ result, (world.planCommit id).1 = .settled result) := by
  rcases planCommit_cases world id with ⟨hsame, hsettled, hclosed⟩ |
    ⟨old, transaction, standalone, hold, hset, htaken, hsettles, hstandalone⟩
  . rw [hsame]
    refine ⟨?_, fun _ => hsettled⟩
    cases h with
    | within _ before =>
      cases hhas
      obtain ⟨howned, hopened, -⟩ := hp.serves.grants
      refine hp.advances_of_spares (World.Nodal.refl me world).spares ⟨_, _, hp.found⟩ rfl rfl ?_ hknown
      exact hp.serves.sees rfl rfl nofun ⟨howned, fun _ => rfl, fun transaction h _ => hclosed transaction h⟩
    | alone active merging => exact hp.advances_refl hknown rfl
    | switched merging => exact hp.advances_refl hknown rfl
    | _ => cases hhas
  . rw [hset]
    constructor
    . have halters : Alters h id true old transaction := by
        refine ⟨htaken.base, fun hgated => htaken.gated.trans hgated, ?_, fun _ => htaken.closed, fun _ _ _ => rfl⟩
        cases h with
        | within _ before => exact fun _ => htaken.closed
        | alone active merging =>
          cases active with
          | replicated => trivial
          | standalone => exact fun _ => htaken.writes
        | switched merging => trivial
        | _ => cases hhas
      have hspares : (world.setTransaction id transaction).Spares (fun _ => True)
          { world.setTransaction id transaction with standalone } :=
        ⟨fun c hc => ⟨c, hc, rfl, rfl, rfl, rfl⟩, rfl, fun _ h => h, rfl, rfl, fun _ strand _ h _ => ⟨strand.queued, h⟩,
          fun h => h⟩
      apply hp.advances_set hknown hhas hold halters hspares
      exact fun hquiet => hp.serves.grants.face_eq_of_set hhas hquiet hold hstandalone
    . rintro ⟨origin, hmem, horigin⟩
      apply hsettles
      have hlends : ∃ active, l.Lends world active id origin := by
        cases h with
        | alone active merging => exact ⟨_, hp.serves.grants.2.2 id origin hmem⟩
        | switched merging => exact ⟨_, hp.serves.grants.2 id origin hmem⟩
        | _ => cases hmem
      obtain ⟨active, hlends⟩ := hlends
      rw [(hlends.transaction old hold).2.1]
      exact horigin

theorem release_of_none (hnone : world.transaction? id = none) : world.release id = world := by
  unfold World.release
  rw [hnone]

theorem release_of_ungated (hold : world.transaction? id = some old) (hgated : old.gated = false)
    : world.release id = world.setTransaction id { old with gated := false, committing := false } := by
  unfold World.release
  rw [hold]
  dsimp only
  rw [hgated, if_neg nofun]

theorem wakes_release {coordinator : Coordinator} (hcoordinator : world.coordinator = some coordinator)
    (hold : world.transaction? id = some old) (hgated : old.gated = true)
    : ((world.setTransaction id { old with gated := false, committing := false }).withGate
        (coordinator.gate.leave false)).Wakes (world.release id) := by
  have hset : (world.setTransaction id { old with gated := false, committing := false }).coordinator
      = some coordinator :=
    hcoordinator
  unfold World.release
  rw [hold]
  dsimp only
  rw [hgated, if_pos rfl]
  exact World.wakes_updateGate hset (·.leave false)

structure Clears (l : Ledger) (world : World FallbackAnswer) (me : Nat) (id : TransactionId)
    (strand : Strand FallbackAnswer) (l' : Ledger) (world' : World FallbackAnswer) : Prop where
  fits : l'.Fits world'
  turns : world.Turns (fun _ => True) me (.within id true) world'
  active : world'.active? = world.active?
  face : world'.face = world.face
  strand : ∃ queued wait, world'.strand? me = some { strand with queued, wait }
  known : ∀ entry ∈ world'.known, entry ∈ world.known

theorem Clears.turns_of_has (hclears : l.Clears world me id strand l' world') (hhas : h.Has id)
    : world.Turns (fun _ => True) me h world' where
  coordinated := hclears.turns.coordinated
  nextTransaction := hclears.turns.nextTransaction
  transaction other hlt hmine := by
    apply hclears.turns.transaction other hlt
    rintro rfl
    exact hmine hhas
  strand := hclears.turns.strand
  known := hclears.turns.known

theorem Poised.clears_release (hp : l.Poised world me underway h strand)
    (hold : world.transaction? id = some old) (hopened : old.gated = true → id ∈ l.opened)
    {owned : Finset TransactionId} (howned : owned ⊆ l.owned) (hsubset : l.opened.erase id ⊆ owned)
    (hclosed : id ∈ owned → old.view.closed = true)
    : l.Clears world me id strand { l with owned, opened := l.opened.erase id } (world.release id) := by
  have hhas : (Holding.within id true).Has id := rfl
  have hset := turns_setTransaction world me hhas { old with gated := false, committing := false }
  have hreleased : Fits { l with owned, opened := l.opened.erase id }
      (world.setTransaction id { old with gated := false, committing := false }) := by
    refine hp.fits.of_owned rfl rfl rfl hp.fits.numbered (Nat.add_le_add_left Finset.card_erase_le _) (Nat.le_refl _)
      hsubset ?_
    intro other hother
    obtain ⟨hlt, transaction, htransaction, hstore, hsettled⟩ := hp.fits.owned other (howned hother)
    rw [transaction?_setTransaction]
    by_cases hid : other = id
    . rw [if_pos hid]
      exact ⟨hlt, _, rfl, fun hmem => absurd hid (Finset.ne_of_mem_erase hmem), fun _ => ⟨hclosed (hid ▸ hother), rfl⟩⟩
    . rw [if_neg hid]
      exact ⟨hlt, transaction, htransaction, fun hmem => hstore (Finset.mem_of_mem_erase hmem),
        fun hmem => hsettled fun hopen => hmem (Finset.mem_erase_of_ne_of_mem hid hopen)⟩
  cases hgated : old.gated with
  | false =>
    rw [release_of_ungated hold hgated]
    exact ⟨hreleased, hset, rfl, rfl, ⟨_, _, hp.found⟩, fun _ hmem => hmem⟩
  | true =>
    obtain ⟨coordinator, hcoordinator, hgate, -⟩ := hp.fits.coordinator
    have hcard := Finset.card_erase_add_one (hopened hgated)
    have hgate : coordinator.gate.Fits (l.insiders.card + (l.opened.erase id).card + Gate.place false false)
        (l.alones.card + Gate.place false true) := by
      apply hgate.mono
      . show _ + 1 ≤ _
        omega
      . exact Nat.le_refl _
    obtain ⟨hplace, hknown⟩ := hgate.leave
    have hwakes := wakes_release hcoordinator hold hgated
    have hsub : ∀ entry ∈ (coordinator.gate.leave false).known, entry ∈ world.known := by
      rw [World.known_of_coordinator hcoordinator]
      exact fun entry hmem => hknown.mem_iff.1 hmem
    have hfits := hreleased.withGate hplace
    have hturns := hset.withGate hreleased.isSome fun entry hmem => .inl (hsub entry hmem)
    refine ⟨hfits.spares hwakes.spares, hturns.spares hwakes.spares hfits.isSome fun _ _ _ => trivial, ?_, ?_, ?_, ?_⟩
    . exact (hwakes.spares.active? hfits.isSome).trans (World.active?_withGate _ _)
    . exact hwakes.face_eq.trans (World.face_withGate _ _)
    . obtain ⟨queued, hstrand⟩ := hwakes.spares.strand me strand trivial hp.found hp.round
      exact ⟨queued, strand.wait, hstrand⟩
    . rw [hwakes.spares.known hfits.isSome, World.known_withGate hreleased.isSome]
      exact hsub

theorem Fits.opened_of_gated (hfits : l.Fits world) (howned : id ∈ l.owned) (hold : world.transaction? id = some old)
    (hgated : old.gated = true)
    : id ∈ l.opened := by
  obtain ⟨-, transaction, htransaction, -, hsettled⟩ := hfits.owned id howned
  cases hold.symm.trans htransaction
  by_contra hopen
  exact absurd ((hsettled hopen).2.symm.trans hgated) nofun

theorem Poised.advances_release (hp : l.Poised world me underway h strand)
    (hknown : ∀ entry ∈ world.known, entry.1 ≠ me) (hhas : h.Has id)
    (hclosed : ∀ closed, h = .within id closed → closed = true)
    : ∃ l', l.Advances world me h strand l' (world.release id) (underway.sees world (world.release id)) h.releases := by
  -- a transaction that is merged was begun outside the gate and holds no place in it
  have hlent : ∀ {active origin}, l.Lends world active id origin → (∀ closed, h ≠ .within id closed) →
      h.isOver = false → h.closes false = h →
      l.Advances world me h strand l (world.release id) (underway.sees world (world.release id)) h := by
    intro active origin hlends hlent hover hsame
    cases hold : world.transaction? id with
    | none =>
      rw [release_of_none hold]
      exact hp.advances_refl hknown hover
    | some old =>
      have hungated := (hlends.transaction old hold).1
      have hshows := hp.serves.grants.shows hp.fits hhas
      rw [hold] at hshows
      rw [release_of_ungated hold hungated]
      have halters : Alters h id false old { old with gated := false, committing := false } :=
        ⟨rfl, fun _ => rfl, hshows, nofun, fun closed h => absurd h (hlent closed)⟩
      have hset := hp.advances_set hknown hhas hold halters (World.Wakes.refl _).spares fun _ => rfl
      rw [hsame] at hset
      exact hset
  cases h with
  | within _ closed =>
    cases hhas
    cases hclosed closed rfl
    obtain ⟨howned, -, hview⟩ := hp.serves.grants
    obtain ⟨-, old, hold, -⟩ := hp.fits.owned id howned
    have hclears := hp.clears_release hold (hp.fits.opened_of_gated howned hold) (Finset.Subset.refl _)
      ((Finset.erase_subset _ _).trans hp.fits.subset) fun _ => hview old hold rfl
    refine ⟨_, hclears.turns, ?_, .inl hclears.active, hclears.fits, ?_, hp.strand_eq hclears.strand rfl, rfl, rfl,
      fun entry hmem => hknown entry (hclears.known entry hmem)⟩
    . refine ⟨fun _ _ _ => Iff.rfl, ?_, fun _ _ hmem => hmem, fun _ _ hmem => hmem⟩
      intro other _ hne
      exact Finset.mem_erase.trans (and_iff_right hne)
    . exact hp.serves.sees rfl rfl nofun trivial
  | alone active merging =>
    obtain ⟨⟨_, origin⟩, hmem, rfl⟩ := List.mem_map.1 hhas
    exact ⟨l, hlent (hp.serves.grants.2.2 _ origin hmem) nofun rfl rfl⟩
  | switched merging =>
    obtain ⟨⟨_, origin⟩, hmem, rfl⟩ := List.mem_map.1 hhas
    exact ⟨l, hlent (hp.serves.grants.2 _ origin hmem) nofun rfl rfl⟩
  | _ => cases hhas

theorem Clears.without (hclears : l.Clears world me id strand l' world') (howned : id ∉ l'.owned)
    : l.Clears world me id strand l' { world' with transactions := world'.transactions.filter (·.1 ≠ id) } := by
  have hother : ∀ {other}, other ≠ id →
      List.lookup other (world'.transactions.filter (·.1 ≠ id)) = world'.transaction? other :=
    fun hne => lookup_filter_ne _ hne
  refine ⟨?_, ?_, hclears.active, hclears.face, hclears.strand, hclears.known⟩
  . refine hclears.fits.of_owned rfl rfl rfl hclears.fits.numbered (Nat.le_refl _) (Nat.le_refl _)
      hclears.fits.subset ?_
    intro other hmem
    have hne : other ≠ id := by
      rintro rfl
      exact howned hmem
    obtain ⟨hlt, transaction, htransaction, hrest⟩ := hclears.fits.owned other hmem
    exact ⟨hlt, transaction, (hother hne).trans htransaction, hrest⟩
  . refine ⟨hclears.turns.coordinated, hclears.turns.nextTransaction, ?_, hclears.turns.strand, hclears.turns.known⟩
    intro other hlt hmine
    have hne : other ≠ id := hmine
    exact (hother hne).trans (hclears.turns.transaction other hlt hmine)

theorem Poised.clears_drop (hp : l.Poised world me underway h strand)
    (hopened : ∀ old, world.transaction? id = some old → old.gated = true → id ∈ l.opened)
    : l.Clears world me id strand { l with owned := l.owned.erase id, opened := l.opened.erase id }
        (world.drop id) := by
  have hsubset := Finset.erase_subset_erase id hp.fits.subset
  have hsame : l.Clears world me id strand { l with owned := l.owned.erase id, opened := l.opened.erase id } world := by
    refine ⟨?_, .refl _ _ _ _, rfl, rfl, ⟨_, _, hp.found⟩, fun _ hmem => hmem⟩
    refine hp.fits.of_owned rfl rfl rfl hp.fits.numbered (Nat.add_le_add_left Finset.card_erase_le _) (Nat.le_refl _)
      hsubset ?_
    intro other hmem
    obtain ⟨hne, hmem⟩ := Finset.mem_erase.1 hmem
    obtain ⟨hlt, transaction, htransaction, hstore, hsettled⟩ := hp.fits.owned other hmem
    exact ⟨hlt, transaction, htransaction, fun hmem => hstore (Finset.mem_of_mem_erase hmem),
      fun hmem => hsettled fun hopen => hmem (Finset.mem_erase_of_ne_of_mem hne hopen)⟩
  unfold World.drop
  split
  . exact hsame
  . apply Clears.without _ (Finset.notMem_erase _ _)
    cases hold : world.transaction? id with
    | none =>
      rw [release_of_none hold]
      exact hsame
    | some old =>
      exact hp.clears_release hold (hopened old hold) (Finset.erase_subset _ _) hsubset
        fun hmem => absurd hmem (Finset.notMem_erase _ _)

theorem Poised.advances_drop (hp : l.Poised world me underway h strand) (hknown : ∀ entry ∈ world.known, entry.1 ≠ me)
    (hhas : h.Has id)
    : ∃ l', l.Advances world me h strand l' (world.drop id)
        ((underway.sees world (world.drop id)).after (.drop id) ()) (h.drops id) := by
  have hquiet : h.isQuiet = true → (world.drop id).face = world.face →
      ¬ (underway.sees world (world.drop id)).altered := by
    rintro hquiet hface (haltered | hsaw)
    . exact hp.serves.quiet hquiet haltered
    . exact hsaw hface
  have hfilter : ∀ merging : List (TransactionId × Origin), underway.merging = merging.map Prod.fst →
      underway.merging.filter (· ≠ id) = (merging.filter (·.1 ≠ id)).map Prod.fst := by
    intro merging hmerging
    rw [hmerging, List.filter_map]
    rfl
  -- a transaction that is merged holds no place in the gate, so the ledger stays as it is
  have hlent : ∀ {active origin}, l.Lends world active id origin → l.Clears world me id strand l (world.drop id) := by
    intro active origin hlends
    have hclears := hp.clears_drop fun old hold hgated =>
      absurd ((hlends.transaction old hold).1.symm.trans hgated) nofun
    rw [Finset.erase_eq_of_notMem hlends.owned,
      Finset.erase_eq_of_notMem fun hmem => hlends.owned (hp.fits.subset hmem)] at hclears
    exact hclears
  have hkept : ∀ {active origin} {merging : List (TransactionId × Origin)} {other},
      l.Clears world me id strand l (world.drop id) →
      (∀ id origin, (id, origin) ∈ merging → l.Lends world active id origin) →
      (other, origin) ∈ merging.filter (·.1 ≠ id) → l.Lends (world.drop id) active other origin := by
    intro active origin merging other hclears hmerging hmem
    obtain ⟨hmem, hne⟩ := List.mem_filter.1 hmem
    have hne : other ≠ id := of_decide_eq_true hne
    have hlends := hmerging other origin hmem
    exact hlends.turn Iff.rfl hclears.turns.nextTransaction
      (hclears.turns.transaction other hlends.lt hne)
  cases h with
  | within _ closed =>
    cases hhas
    have howned := hp.serves.grants.1
    have hclears := hp.clears_drop fun old hold => hp.fits.opened_of_gated howned hold
    refine ⟨_, hclears.turns_of_has rfl, ?_, .inl hclears.active, hclears.fits, ?_, hp.strand_eq hclears.strand rfl, rfl, rfl,
      fun entry hmem => hknown entry (hclears.known entry hmem)⟩
    . refine ⟨?_, ?_, fun _ _ hmem => hmem, fun _ _ hmem => hmem⟩
      . intro other _ hne
        exact Finset.mem_erase.trans (and_iff_right hne)
      . intro other _ hne
        exact Finset.mem_erase.trans (and_iff_right hne)
    . exact ⟨hp.serves.transaction, hfilter [] hp.serves.merging, nofun, trivial⟩
  | alone active merging =>
    obtain ⟨halone, hactive, hmerging⟩ := hp.serves.grants
    obtain ⟨⟨_, origin⟩, hmem, rfl⟩ := List.mem_map.1 hhas
    have hclears := hlent (hmerging _ origin hmem)
    refine ⟨l, hclears.turns_of_has hhas, .refl _ _ _ _, .inl hclears.active, hclears.fits, ?_,
      hp.strand_eq hclears.strand rfl, rfl, rfl, fun entry hmem => hknown entry (hclears.known entry hmem)⟩
    exact ⟨hp.serves.transaction, hfilter merging hp.serves.merging, fun h => hquiet h hclears.face, halone,
      hclears.active.trans hactive, fun _ _ hmem => hkept hclears hmerging hmem⟩
  | switched merging =>
    obtain ⟨halone, hmerging⟩ := hp.serves.grants
    obtain ⟨⟨_, origin⟩, hmem, rfl⟩ := List.mem_map.1 hhas
    have hclears := hlent (hmerging _ origin hmem)
    refine ⟨l, hclears.turns_of_has hhas, .refl _ _ _ _, .inl hclears.active, hclears.fits, ?_,
      hp.strand_eq hclears.strand rfl, rfl, rfl, fun entry hmem => hknown entry (hclears.known entry hmem)⟩
    exact ⟨hp.serves.transaction, hfilter merging hp.serves.merging, nofun, halone,
      fun _ _ hmem => hkept hclears hmerging hmem⟩
  | _ => cases hhas

end Ledger

end ReplicatedStore
