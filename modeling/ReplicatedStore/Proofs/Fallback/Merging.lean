import ReplicatedStore.Fallback.MergeStrategy
import ReplicatedStore.Proofs.Standalone.Transactions

/-!
The merge that overwrites one standalone store with another, while other transactions go on with both: how it
ends in each case, and that once it has succeeded there is nothing left to do.
-/

namespace ReplicatedStore

namespace KeyMap

theorem filter_full (map : KeyMap) : map.filter (!KeyRange.full.contains ·) = .empty := by
  apply ext_get?
  intro key
  rw [get?_filter_ite, KeyRange.contains_full]
  rfl

theorem range_full (map : KeyMap) : map.range .full false = map.pairs := by
  unfold range within
  rw [if_neg Bool.false_ne_true, List.filter_eq_self]
  intro pair _
  exact KeyRange.contains_full pair.1

end KeyMap

namespace WriteSet

variable {writes : WriteSet}

def replacing (writes : WriteSet) (map : KeyMap) : WriteSet :=
  map.pairs.foldl (fun writes pair => writes.put pair.1 pair.2) (writes.removeRange .full)

theorem removes_foldl_put (writes : WriteSet) (pairs : List Pair)
    : (pairs.foldl (fun writes pair => writes.put pair.1 pair.2) writes).removes = writes.removes := by
  induction pairs generalizing writes with
  | nil => rfl
  | cons pair rest ih => exact ih (writes.put pair.1 pair.2)

theorem performOn_foldl_put (h : writes.removes.Ordered) (below : KeyMap) (pairs : List Pair)
    : (pairs.foldl (fun writes pair => writes.put pair.1 pair.2) writes).performOn below
        =
      (writes.performOn below).insertAll pairs := by
  induction pairs generalizing writes with
  | nil => rfl
  | cons pair rest ih =>
    have hput : (writes.put pair.1 pair.2).removes.Ordered := h
    rw [List.foldl_cons, ih hput, performOn_put h]
    rfl

theorem performOn_replacing (h : writes.removes.Ordered) (map below : KeyMap)
    : (writes.replacing map).performOn below = map := by
  unfold replacing
  rw [performOn_foldl_put (removes_ordered_removeRange h .full), performOn_removeRange h, KeyMap.filter_full]
  exact map.ofList_pairs

theorem isEmpty_replacing (writes : WriteSet) (map : KeyMap)
    : (writes.replacing map).isEmpty = false := by
  rw [← Bool.not_eq_true]
  intro hempty
  have hremoves : (writes.replacing map).removes = writes.removes.add .full := by
    unfold replacing
    rw [removes_foldl_put]
    rfl
  have hcovers : (writes.replacing map).removes.Covers [] := by
    rw [hremoves]
    exact KeyRanges.covers_add (.inr (KeyRange.contains_full []))
  rw [eq_of_isEmpty hempty] at hcovers
  obtain ⟨range, hrange, -⟩ := hcovers
  cases hrange

end WriteSet

namespace TransactionView

structure Ready (view : TransactionView) : Prop where
  unclosed : view.closed = false
  writable : view.readOnly = false
  ordered : view.writes.removes.Ordered

variable {view : TransactionView}

theorem Ready.perform (h : view.Ready) (operation : Operation)
    : view.perform operation = .ok (view.effect operation) := by
  rw [perform_eq, permission_of_open h.unclosed h.writable]
  rfl

theorem Ready.put (h : view.Ready) (key value : Bytes)
    : Ready { view with writes := view.writes.put key value } :=
  ⟨h.unclosed, h.writable, h.ordered⟩

end TransactionView

namespace MergeStrategy

variable {view source target : TransactionView}

theorem putAll_eq (h : view.Ready) (pairs : List Pair)
    : putAll view pairs
        =
      (.ok (), { view with
        writes := pairs.foldl (fun writes pair => writes.put pair.1 pair.2) view.writes }) := by
  induction pairs generalizing view with
  | nil => rfl
  | cons pair rest ih =>
    unfold putAll
    rw [h.perform]
    exact ih (h.put pair.1 pair.2)

theorem prepare_overwrite (hsource : source.Ready) (htarget : target.Ready)
    : overwrite.prepare source target
        =
      (.ok (), source.noting .full,
        { target with writes := target.writes.replacing source.overlay }) := by
  have hremoved : TransactionView.Ready { target with writes := target.writes.removeRange .full } :=
    ⟨htarget.unclosed, htarget.writable, WriteSet.removes_ordered_removeRange htarget.ordered .full⟩
  have hread : (source.effect (.range .full false)).1 = .pairs source.overlay.pairs := by
    rw [(TransactionView.effect_overlay hsource.ordered _).1]
    exact congrArg Answer.pairs source.overlay.range_full
  have hnoted : (source.effect (.range .full false)).2 = source.noting .full := rfl
  unfold prepare overwriteView
  rw [htarget.perform, hsource.perform, ← Prod.eta (source.effect (.range .full false)), hread, hnoted]
  dsimp only
  rw [show (target.effect (.removeRange .full)).2
    = { target with writes := target.writes.removeRange .full } from rfl, putAll_eq hremoved]
  rfl

end MergeStrategy

namespace StandaloneStore

variable {store : StandaloneStore} {base : KeyMap} {version : Nat} {reads : KeyRanges} {writes : WriteSet}

theorem commit_of_journal_none (h : store.journal = none) (version : Nat) (reads : KeyRanges) (writes : WriteSet)
    : commit version reads writes store
        =
      match store.refusal? version reads with
      | some e => .error e store
      | none => .ok () (if writes.isEmpty then store else store.advance writes) := by
  rw [commit_eq]
  cases store.refusal? version reads with
  | some e => rfl
  | none =>
    dsimp only
    split
    . rfl
    . have hkept : (store.advance writes).journal = none := h
      unfold onJournal
      rw [h]
      dsimp only
      unfold compact
      rw [EStateM.bind_get, hkept]
      rfl

theorem commitTransaction_of_journal_none (h : store.journal = none) {transaction : StandaloneTransaction}
    (hopen : transaction.view.closed = false)
    : commitTransaction transaction store
        =
      match store.refusal? transaction.baseVersion transaction.view.reads with
      | some e => (.error e, { transaction with view := transaction.view.take.2 }, store)
      | none =>
        (.ok (), { transaction with view := transaction.view.take.2 },
          if transaction.view.writes.isEmpty then store else store.advance transaction.view.writes) := by
  have hcommit := @commitTransaction_eq store { transaction } hopen
  rw [hcommit, commit_of_journal_none h]
  cases store.refusal? transaction.baseVersion transaction.view.reads <;> rfl

theorem Tracks.map_eq (h : store.Tracks base version) (hrefusal : store.refusal? version reads = none)
    (hreads : ∀ key, reads.Covers key)
    : store.map = base := by
  apply KeyMap.ext_get?
  intro key
  exact (h.agrees_of_admits (admits_of_refusal? hrefusal) key (hreads key)).symm

theorem Records.refusal?_version (h : store.Records) (reads : KeyRanges)
    : store.refusal? store.version reads = none := by
  have hrecent : ¬ (store.version < store.oldestBase ∧ (!reads.isEmpty) = true) :=
    fun hold => Nat.not_lt_of_le h.oldest hold.1
  unfold refusal? firstConflict?
  rw [if_neg hrecent, Option.map_map, Option.map_eq_none_iff, List.find?_eq_none]
  intro commit hcommit
  have hpast := h.past commit hcommit
  simp [Nat.not_lt_of_le hpast]

end StandaloneStore

namespace StandaloneSession

variable {session : StandaloneSession} {client : StandaloneClient}

theorem Valid.grows (h : session.Valid) (event : StandaloneEvent)
    : session.store.Grows (session.perform event).store := by
  cases event with
  | commit index =>
    cases hclient : session.clients[index]? with
    | none =>
      simp only [StandaloneSession.perform, hclient]
      exact .same rfl
    | some client =>
      have hvalid := h.clients client (List.mem_of_getElem? hclient)
      rcases hcommit : StandaloneStore.commitTransaction client.transaction session.store
        with ⟨result, transaction, after⟩
      simp only [StandaloneSession.perform, hclient, hcommit]
      exact (StandaloneStore.grows_commitTransaction hvalid hcommit).1
  | _ => exact .same rfl

theorem Valid.run (h : session.Valid) (events : List StandaloneEvent) : (session.run events).Valid := by
  induction events generalizing session with
  | nil => exact h
  | cons event rest ih => exact ih (h.perform event)

theorem Valid.client_run (h : session.Valid) (hclient : client.Valid session.store)
    (events : List StandaloneEvent)
    : client.Valid (session.run events).store := by
  induction events generalizing session with
  | nil => exact hclient
  | cons event rest ih => exact ih (h.perform event) ((h.grows event).valid h.records hclient)

theorem journal_perform (h : session.store.journal = none) (event : StandaloneEvent)
    : (session.perform event).store.journal = none := by
  cases event with
  | commit index =>
    cases hclient : session.clients[index]? with
    | none =>
      simp only [StandaloneSession.perform, hclient]
      exact h
    | some client =>
      simp only [StandaloneSession.perform, hclient]
      cases hopen : client.transaction.view.closed with
      | true =>
        rw [StandaloneStore.commitTransaction_of_closed hopen]
        exact h
      | false =>
        rw [StandaloneStore.commitTransaction_of_journal_none h hopen]
        cases session.store.refusal? client.transaction.baseVersion client.transaction.view.reads with
        | some e => exact h
        | none =>
          dsimp only
          split
          . exact h
          . exact h
  | _ => exact h

theorem journal_run (h : session.store.journal = none) (events : List StandaloneEvent)
    : (session.run events).store.journal = none := by
  induction events generalizing session with
  | nil => exact h
  | cons event rest ih => exact ih (journal_perform h event)

end StandaloneSession

structure MergeParty where
  session : StandaloneSession
  transaction : StandaloneTransaction
  others : List StandaloneEvent := []
  outcome : Option (Except Error Unit) := none

namespace MergeParty

def map (party : MergeParty) : KeyMap :=
  party.session.store.map

def commit (party : MergeParty) : Except Error Unit × MergeParty :=
  let session := party.session.run party.others
  let (result, transaction, store) := StandaloneStore.commitTransaction party.transaction session.store
  (result, { party with session := { session with store }, transaction, outcome := some result })

def renew (party : MergeParty) : MergeParty where
  session := party.session
  transaction := party.session.store.begin

end MergeParty

def StandaloneSession.party (session : StandaloneSession) (index : Nat) (client : StandaloneClient)
    (others : List StandaloneEvent) : MergeParty where
  session := { session with clients := session.clients.eraseIdx index }
  transaction := client.transaction
  others

/-- Two stores that are merged. -/
structure MergeStage where
  source : MergeParty
  target : MergeParty

namespace MergeStage

def side (read : MergeStage → MergeParty) (write : MergeParty → MergeStage → MergeStage)
    : MergeSide (StateM MergeStage) where
  view := do return (read (← get)).transaction.view
  setView view := modify fun stage =>
    write { read stage with transaction := { (read stage).transaction with view } } stage
  commit := modifyGet fun stage => ((read stage).commit.1, write (read stage).commit.2 stage)

def merge (stage : MergeStage) (strategy : MergeStrategy) : Except Error Unit × MergeStage :=
  strategy.merge (side source fun source stage => { stage with source })
    (side target fun target stage => { stage with target }) stage

def renew (stage : MergeStage) : MergeStage where
  source := stage.source.renew
  target := stage.target.renew

end MergeStage

namespace MergeParty

variable {party : MergeParty}

structure Sound (party : MergeParty) : Prop where
  memory : party.session.store.journal = none
  session : party.session.Valid
  tracks : ∀ events,
    (party.session.run events).store.Tracks party.transaction.view.base party.transaction.baseVersion
  ready : party.transaction.view.Ready

def prepared (party : MergeParty) (view : TransactionView) : MergeParty :=
  { party with transaction := { party.transaction with view } }

def met (party : MergeParty) : StandaloneStore :=
  (party.session.run party.others).store

def ended (party : MergeParty) (result : Except Error Unit) (store : StandaloneStore) : MergeParty :=
  { party with
    session := { party.session.run party.others with store }
    transaction := { party.transaction with view := party.transaction.view.take.2 }
    outcome := some result }

theorem commit_eq (party : MergeParty) (hmemory : party.session.store.journal = none)
    (hopen : party.transaction.view.closed = false)
    : party.commit
        =
      match party.met.refusal? party.transaction.baseVersion party.transaction.view.reads with
      | some e => (.error e, party.ended (.error e) party.met)
      | none =>
        (.ok (), party.ended (.ok ())
          (if party.transaction.view.writes.isEmpty then party.met
            else party.met.advance party.transaction.view.writes)) := by
  have hjournal := StandaloneSession.journal_run hmemory party.others
  unfold commit met
  dsimp only
  rw [StandaloneStore.commitTransaction_of_journal_none hjournal hopen]
  cases StandaloneStore.refusal? _ _ _ <;> rfl

end MergeParty

namespace MergeStage

variable {stage : MergeStage}

def preparedSource (stage : MergeStage) : MergeParty :=
  stage.source.prepared (stage.source.transaction.view.noting .full)

def preparedTarget (stage : MergeStage) : MergeParty :=
  stage.target.prepared { stage.target.transaction.view with
    writes := stage.target.transaction.view.writes.replacing stage.source.transaction.view.overlay }

theorem merge_overwrite (hsource : stage.source.transaction.view.Ready)
    (htarget : stage.target.transaction.view.Ready)
    : stage.merge .overwrite
        =
      match stage.preparedTarget.commit with
      | (.error e, target) =>
        (.error e, ⟨stage.preparedSource.prepared stage.preparedSource.transaction.view.close, target⟩)
      | (.ok _, target) => (stage.preparedSource.commit.1, ⟨stage.preparedSource.commit.2, target⟩) := by
  have hprepare := MergeStrategy.prepare_overwrite hsource htarget
  unfold preparedSource preparedTarget MergeParty.prepared
  show StateT.run (MergeStrategy.merge _ _ _) stage = _
  simp only [MergeStrategy.merge, side, bind_assoc, pure_bind, StateT.run_bind, StateT.run_get, StateT.run_modify,
    StateT.run_modifyGet, hprepare]
  cases MergeParty.commit _ with
  | mk result target => cases result <;> rfl

def overwritten (stage : MergeStage) : StandaloneStore :=
  stage.target.met.advance stage.preparedTarget.transaction.view.writes

def settled (stage : MergeStage) : StandaloneStore :=
  if stage.source.transaction.view.writes.isEmpty then stage.source.met
  else stage.source.met.advance stage.source.transaction.view.writes

theorem merge_cases (stage : MergeStage) (hsourceMemory : stage.source.session.store.journal = none)
    (htargetMemory : stage.target.session.store.journal = none) (hsource : stage.source.transaction.view.Ready)
    (htarget : stage.target.transaction.view.Ready)
    : stage.merge .overwrite
        =
      match stage.target.met.refusal? stage.target.transaction.baseVersion stage.target.transaction.view.reads with
      | some e =>
        (.error e, ⟨stage.preparedSource.prepared stage.preparedSource.transaction.view.close,
          stage.preparedTarget.ended (.error e) stage.target.met⟩)
      | none =>
        match stage.source.met.refusal? stage.source.transaction.baseVersion
          (stage.source.transaction.view.reads.add .full) with
        | some e =>
          (.error e, ⟨stage.preparedSource.ended (.error e) stage.source.met,
            stage.preparedTarget.ended (.ok ()) stage.overwritten⟩)
        | none =>
          (.ok (), ⟨stage.preparedSource.ended (.ok ()) stage.settled,
            stage.preparedTarget.ended (.ok ()) stage.overwritten⟩) := by
  have htargetCommit := stage.preparedTarget.commit_eq htargetMemory htarget.unclosed
  have hsourceCommit := stage.preparedSource.commit_eq hsourceMemory hsource.unclosed
  have hwrites : stage.preparedTarget.transaction.view.writes.isEmpty = false :=
    WriteSet.isEmpty_replacing _ _
  rw [hwrites] at htargetCommit
  rw [merge_overwrite hsource htarget, htargetCommit, hsourceCommit]
  unfold overwritten settled preparedSource preparedTarget MergeParty.prepared MergeParty.met
  dsimp only [TransactionView.noting]
  cases StandaloneStore.refusal? _ stage.target.transaction.baseVersion _ with
  | some e => rfl
  | none => cases StandaloneStore.refusal? _ _ _ <;> rfl

theorem map_overwritten (h : stage.target.transaction.view.Ready)
    : stage.overwritten.map = stage.source.transaction.view.overlay :=
  WriteSet.performOn_replacing h.ordered _ _

theorem map_settled (h : stage.source.Sound)
    (hrefusal : stage.source.met.refusal? stage.source.transaction.baseVersion
      (stage.source.transaction.view.reads.add .full) = none)
    : stage.settled.map = stage.source.transaction.view.overlay := by
  have hmap : stage.source.met.map = stage.source.transaction.view.base := by
    apply (h.tracks stage.source.others).map_eq hrefusal
    intro key
    exact KeyRanges.covers_add (.inr (KeyRange.contains_full key))
  unfold settled TransactionView.overlay
  split
  . next hempty =>
    rw [WriteSet.eq_of_isEmpty hempty]
    exact hmap
  . exact congrArg stage.source.transaction.view.writes.performOn hmap

theorem journal_settled (stage : MergeStage) (h : stage.source.session.store.journal = none)
    : stage.settled.journal = none := by
  have hmet := StandaloneSession.journal_run h stage.source.others
  unfold settled
  split
  . exact hmet
  . exact hmet

theorem records_settled (stage : MergeStage) (h : stage.source.session.Valid) : stage.settled.Records := by
  have hmet := (h.run stage.source.others).records
  unfold settled
  split
  . exact hmet
  . exact hmet.advance _

theorem merge_renewed (stage : MergeStage) (hsource : stage.source.session.store.journal = none)
    (htarget : stage.target.session.store.journal = none) (hsourceRecords : stage.source.session.store.Records)
    (htargetRecords : stage.target.session.store.Records)
    : (stage.renew.merge .overwrite).1 = .ok () ∧
        (stage.renew.merge .overwrite).2.source.map = stage.source.map ∧
        (stage.renew.merge .overwrite).2.target.map = stage.source.map := by
  have hfresh : ∀ party : MergeParty, party.renew.transaction.view.Ready :=
    fun _ => ⟨rfl, rfl, KeyRanges.ordered_empty⟩
  have htargetFree : stage.renew.target.met.refusal? stage.renew.target.transaction.baseVersion
      stage.renew.target.transaction.view.reads = none := htargetRecords.refusal?_version _
  have hsourceFree : stage.renew.source.met.refusal? stage.renew.source.transaction.baseVersion
      (stage.renew.source.transaction.view.reads.add .full) = none := hsourceRecords.refusal?_version _
  rw [stage.renew.merge_cases hsource htarget (hfresh stage.source) (hfresh stage.target), htargetFree,
    hsourceFree]
  exact ⟨rfl, rfl, map_overwritten (hfresh stage.target)⟩

end MergeStage

open StandaloneSession in
theorem MergeParty.sound {events others : List StandaloneEvent} {index : Nat} {client : StandaloneClient}
    (hclient : (run { store := .empty } events).clients[index]? = some client)
    (hopen : client.transaction.view.closed = false)
    : ((run { store := .empty } events).party index client others).Sound := by
  have hsession := valid_run .empty events
  have hvalid := hsession.clients client (List.mem_of_getElem? hclient)
  have hrest : StandaloneSession.Valid
      { run { store := .empty } events with clients := (run { store := .empty } events).clients.eraseIdx index } :=
    ⟨hsession.records, fun other hother => hsession.clients other (List.mem_of_mem_eraseIdx hother)⟩
  have hwritable : client.transaction.view.readOnly = false := by
    have hkeeps : ((TransactionView.fresh client.transaction.view.base).performAll
        client.operations).2.readOnly = false := by
      apply TransactionView.performAll_keeps (P := fun view => view.readOnly = false) rfl
      intro view operation _ hview
      cases operation <;> exact hview
    rw [hvalid.follows hopen] at hkeeps
    exact hkeeps
  exact {
    memory := journal_run rfl events
    session := hrest
    tracks := fun events => (hrest.client_run hvalid events).tracks
    ready := ⟨hopen, hwritable, hvalid.removes_ordered hopen⟩ }

open StandaloneSession in
/-- A merge of two stores in memory, each with one open transaction and others that go on until that one
commits. If it succeeds, both stores hold what the transaction on the source saw, and a second merge changes
nothing. If the target is refused neither store changes, if only the source is it alone does not change. Both
transactions are closed in the end. -/
theorem MergeStage.overwrite_ends {sourceEvents targetEvents : List StandaloneEvent}
    {sourceIndex targetIndex : Nat} {source target : StandaloneClient}
    (hsource : (run { store := .empty } sourceEvents).clients[sourceIndex]? = some source)
    (htarget : (run { store := .empty } targetEvents).clients[targetIndex]? = some target)
    (hsourceOpen : source.transaction.view.closed = false) (htargetOpen : target.transaction.view.closed = false)
    (sourceOthers targetOthers : List StandaloneEvent)
    : let stage : MergeStage :=
        ⟨(run { store := .empty } sourceEvents).party sourceIndex source sourceOthers,
          (run { store := .empty } targetEvents).party targetIndex target targetOthers⟩
      let seen := source.transaction.view.overlay
      let result := (stage.merge .overwrite).1
      let after := (stage.merge .overwrite).2
      (result = .ok () → after.target.map = seen ∧ after.source.map = seen ∧
        (after.renew.merge .overwrite).1 = .ok () ∧
        (after.renew.merge .overwrite).2.target.map = seen ∧
        (after.renew.merge .overwrite).2.source.map = seen) ∧
      (∀ e, after.target.outcome = some (.error e) → result = .error e ∧
        after.target.session.store = stage.target.met ∧
        after.source.session.store = stage.source.session.store) ∧
      (∀ e, after.source.outcome = some (.error e) → result = .error e ∧
        after.source.session.store = stage.source.met ∧ after.target.map = seen) ∧
      (∀ e, result = .error e →
        after.target.outcome = some (.error e) ∨ after.source.outcome = some (.error e)) ∧
      after.source.transaction.view.closed = true ∧ after.target.transaction.view.closed = true := by
  intro stage seen result after
  have hsourceSound : stage.source.Sound := MergeParty.sound hsource hsourceOpen
  have htargetSound : stage.target.Sound := MergeParty.sound htarget htargetOpen
  have hmerge := stage.merge_cases hsourceSound.memory htargetSound.memory hsourceSound.ready htargetSound.ready
  have htargetMap : stage.overwritten.map = seen := stage.map_overwritten htargetSound.ready
  rw [show stage.merge .overwrite = (result, after) from rfl] at hmerge
  clear_value result after
  split at hmerge
  . next e _ =>
    cases hmerge
    refine ⟨nofun, ?_, nofun, ?_, rfl, rfl⟩
    . intro e' he'
      cases he'
      exact ⟨rfl, rfl, rfl⟩
    . intro e' he'
      cases he'
      exact .inl rfl
  . split at hmerge
    . next e _ =>
      cases hmerge
      refine ⟨nofun, nofun, ?_, ?_, rfl, rfl⟩
      . intro e' he'
        cases he'
        exact ⟨rfl, rfl, htargetMap⟩
      . intro e' he'
        cases he'
        exact .inr rfl
    . next hfree =>
      cases hmerge
      have hsourceMap : stage.settled.map = seen := map_settled hsourceSound hfree
      refine ⟨?_, nofun, nofun, nofun, rfl, rfl⟩
      intro _
      obtain ⟨hagain, hsourceAgain, htargetAgain⟩ := merge_renewed
        ⟨stage.preparedSource.ended (.ok ()) stage.settled,
          stage.preparedTarget.ended (.ok ()) stage.overwritten⟩
        (stage.journal_settled hsourceSound.memory) (StandaloneSession.journal_run htargetSound.memory _)
        (stage.records_settled hsourceSound.session) ((htargetSound.session.run _).records.advance _)
      exact ⟨htargetMap, hsourceMap, hagain, htargetAgain.trans hsourceMap, hsourceAgain.trans hsourceMap⟩

namespace MergeStage.Overtaken

-- One committed pair, and one that an open transaction has put.
def sourceSession : StandaloneSession :=
  .run { store := .empty } [.begin, .operate 0 (.put [1] [5]), .commit 0, .begin, .operate 1 (.put [2] [6])]

-- Another committed pair, and two open transactions that have put more.
def targetSession : StandaloneSession :=
  .run { store := .empty } [.begin, .operate 0 (.put [3] [7]), .commit 0, .begin, .begin,
    .operate 1 (.put [4] [8]), .operate 2 (.put [5] [9])]

-- The open transactions, one of them on the target, where the other commits first.
def stage : MergeStage where
  source := sourceSession.party 1 (sourceSession.clients.getLast (by decide)) []
  target := targetSession.party 1 (targetSession.clients.get ⟨1, by decide⟩) [.commit 1]

end MergeStage.Overtaken

open MergeStage.Overtaken in
theorem MergeStage.overwrite_ends_overtaken
    : (stage.merge .overwrite).1 = .ok () ∧ stage.target.met.map.pairs = [([3], [7]), ([5], [9])] ∧
        (stage.merge .overwrite).2.target.map.pairs = [([1], [5]), ([2], [6])] ∧
        (stage.merge .overwrite).2.source.map = (stage.merge .overwrite).2.target.map ∧
        (stage.merge .overwrite).2.source.transaction.view.closed = true := by
  have hsource : sourceSession.clients[1]? = some (sourceSession.clients.getLast (by decide)) := rfl
  have htarget : targetSession.clients[1]? = some (targetSession.clients.get ⟨1, by decide⟩) := rfl
  have hok : (stage.merge .overwrite).1 = .ok () := by decide +kernel
  have hseen : (sourceSession.clients.getLast (by decide)).transaction.view.overlay.pairs
      = [([1], [5]), ([2], [6])] := by
    decide +kernel
  obtain ⟨hdone, -, -, -, hclosed, -⟩ :=
    overwrite_ends hsource htarget (by decide +kernel) (by decide +kernel) [] [.commit 1]
  obtain ⟨htargetMap, hsourceMap, -⟩ := hdone hok
  exact ⟨hok, by decide +kernel, (congrArg KeyMap.pairs htargetMap).trans hseen,
    hsourceMap.trans htargetMap.symm, hclosed⟩

end ReplicatedStore
