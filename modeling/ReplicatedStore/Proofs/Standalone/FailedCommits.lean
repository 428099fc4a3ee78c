import ReplicatedStore.Proofs.Standalone.Durability
import ReplicatedStore.Proofs.Storage.Mishaps

/-!
A durable standalone store whose journal appends fail. A commit that fails leaves the store as it was, unless the
journal took its entry in and only flushing or forcing it failed. Then the journal is one entry ahead of the
store: no later commit goes through, and what failed is there when the store is opened again.
-/

namespace ReplicatedStore

def LogStore.unsettles (log : LogStore) (entry : LogEntry) : Bool :=
  ((EStateM.state? (appendOne entry log)).bind fun log => EStateM.failed? (settle log)).isSome

namespace StandaloneStore

variable {whole : Prop} {journal journal' : LogStore} {version : Nat} {map : KeyMap} {base : Nat}
  {reads : KeyRanges} {writes : WriteSet} {store : StandaloneStore}

def unsettles (store : StandaloneStore) (base : Nat) (reads : KeyRanges) (writes : WriteSet) : Bool :=
  (store.refusal? base reads).isNone && !writes.isEmpty &&
    store.journal.any (·.unsettles (entryOf (store.version + 1) writes))

def folds (store : StandaloneStore) : Bool :=
  store.journal.all fun journal =>
    journal.size < store.journalLimit ||
      (EStateM.state? (LogStore.putSnapshot store.version entryTerm store.map.encode journal)).isSome

def compacts (store : StandaloneStore) (base : Nat) (reads : KeyRanges) (writes : WriteSet) : Bool :=
  (store.refusal? base reads).isSome || writes.isEmpty ||
    (EStateM.state? (onJournal (LogStore.append [entryOf (store.version + 1) writes]) store)).all fun store =>
      (store.advance writes).folds

def Aligned (store : StandaloneStore) : Prop :=
  ∀ journal, store.journal = some journal → journal.Aligned

theorem all_isAligned_iff : store.journal.all LogStore.isAligned = true ↔ store.Aligned := by
  unfold Aligned
  cases store.journal with
  | none => exact ⟨fun _ => nofun, fun _ => rfl⟩
  | some journal =>
    rw [Option.all_some, LogStore.isAligned_iff]
    constructor
    . rintro haligned _ ⟨⟩
      exact haligned
    . exact fun h => h journal rfl

instance (store : StandaloneStore) : Decidable store.Aligned :=
  decidable_of_iff _ all_isAligned_iff

theorem Journaled.passed (h : Journaled whole journal version map) (hextends : journal.Extends journal' [])
    (hcarries : ∃ bytes durable, journal'.Carries bytes durable)
    (hcoherent : whole → ∃ records durable, journal'.Coherent records durable)
    : Journaled whole journal' version map := by
  have hentries : journal'.entries = journal.entries := by
    rw [hextends.entries, List.append_nil]
  refine ⟨hcarries, ?_, ?_, ?_, hcoherent⟩
  . rw [hextends.snapshotIndex, hentries]
    exact h.follows
  . rw [LogStore.lastIndex_congr hentries hextends.snapshotIndex]
    exact h.lastIndex
  . obtain ⟨snapshot, hknows, hreplay⟩ := h.knows
    refine ⟨snapshot, hextends.knows hknows, ?_⟩
    rw [hentries]
    exact hreplay

theorem Journaled.advanced (h : Journaled whole journal version map)
    (hextends : journal.Extends journal' [entryOf (version + 1) writes]) (hordered : writes.removes.Ordered)
    (hshort : writes.encode.length ≤ LogStore.greatestCommand)
    (hcarries : ∃ bytes durable, journal'.Carries bytes durable)
    (hcoherent : whole → ∃ records durable, journal'.Coherent records durable)
    : Journaled whole journal' (version + 1) (writes.performOn map) := by
  have hentries := hextends.entries
  refine ⟨hcarries, ?_, ?_, ?_, hcoherent⟩
  . have hlast := LogStore.lastIndex_eq h.follows
    rw [h.lastIndex] at hlast
    rw [hextends.snapshotIndex, hentries]
    refine h.follows.append ⟨?_, trivial⟩
    rw [← hlast]
    rfl
  . unfold LogStore.lastIndex
    rw [hentries, List.getLast?_concat]
    rfl
  . obtain ⟨snapshot, hknows, hreplay⟩ := h.knows
    refine ⟨snapshot, hextends.knows hknows, ?_⟩
    cases hrestore : restore snapshot with
    | error e =>
      rw [hrestore] at hreplay
      cases hreplay
    | ok restored =>
      rw [hrestore] at hreplay
      have hreplay : replay restored journal.entries = .ok map := hreplay
      show replay restored journal'.entries = _
      rw [hentries, replay_append, hreplay]
      exact replay_entryOf hordered
        (Nat.lt_of_le_of_lt hshort (show LogStore.greatestCommand < 2 ^ 64 by decide))

theorem Journaled.yields_coherent (h : Journaled whole journal version map) {entry : LogEntry}
    (hrange : entry.InRange)
    : EStateM.Yields (fun _ journal' => whole → ∃ records durable, journal'.Coherent records durable)
        (fun journal' => (whole → journal'.Aligned) → whole → ∃ records durable, journal'.Coherent records durable)
        (LogStore.append [entry] journal) := by
  have hall : ∀ e ∈ [entry], e.InRange := by
    intro e he
    rw [List.mem_singleton.1 he]
    exact hrange
  cases hresult : LogStore.append [entry] journal with
  | ok _ journal' =>
    intro hwhole
    obtain ⟨records, durable, hcoherent⟩ := h.coherent hwhole
    have hyields := LogStore.yields_appendEntries hcoherent hall
    rw [hresult] at hyields
    obtain ⟨-, -, durable', hcoherent', -⟩ := hyields
    exact ⟨_, durable', hcoherent'⟩
  | error e journal' =>
    intro haligned hwhole
    obtain ⟨records, durable, hcoherent⟩ := h.coherent hwhole
    have hyields := LogStore.yields_appendEntries hcoherent hall
    rw [hresult] at hyields
    obtain ⟨n, -, hstands, -⟩ := hyields
    exact ⟨_, _, hstands.coherent (.inr (haligned hwhole))⟩

theorem Journaled.append (h : Journaled whole journal version map) (hordered : writes.removes.Ordered)
    (hversion : version + 1 < 2 ^ 64)
    : EStateM.Yields
        (fun _ journal' => journal.unsettles (entryOf (version + 1) writes) = false ∧
          Journaled whole journal' (version + 1) (writes.performOn map))
        (fun journal' => (whole → journal'.Aligned) →
          if journal.unsettles (entryOf (version + 1) writes) then
            Journaled whole journal' (version + 1) (writes.performOn map)
          else Journaled whole journal' version map)
        (LogStore.append [entryOf (version + 1) writes] journal) := by
  obtain ⟨bytes, durable, hcarries⟩ := h.carries
  have hrange : (entryOf (version + 1) writes).InRange := ⟨show 1 < 2 ^ 64 by decide, hversion⟩
  have hcoherent := h.yields_coherent hrange
  have hone := LogStore.yields_appendOne_carried hcarries (entryOf (version + 1) writes)
  unfold LogStore.unsettles
  rw [LogStore.append_one] at hcoherent ⊢
  -- a fault while the entry is written leaves it out, one while it is settled leaves it in
  cases hwritten : LogStore.appendOne (entryOf (version + 1) writes) journal with
  | error e journal₁ =>
    rw [hwritten] at hone
    rw [EStateM.bind_of_error hwritten] at hcoherent ⊢
    obtain ⟨hextends, -, _, hcarries₁⟩ := hone
    intro haligned
    exact h.passed hextends ⟨_, _, hcarries₁⟩ (hcoherent haligned)
  | ok _ journal₁ =>
    rw [hwritten] at hone
    rw [EStateM.bind_of_ok hwritten] at hcoherent ⊢
    obtain ⟨hextends, hadmits, _, hcarries₁⟩ := hone
    have hshort : writes.encode.length ≤ LogStore.greatestCommand :=
      hadmits.short _ (List.mem_singleton_self _)
    have hadvanced : ∀ {journal' : LogStore} {bytes durable : Bytes}, journal₁.Spools journal' →
        journal'.Carries bytes durable → (whole → ∃ records durable, journal'.Coherent records durable) →
        Journaled whole journal' (version + 1) (writes.performOn map) := by
      intro journal' _ _ hspools hcarries' hcoherent'
      have hextends' := hextends.trans hspools.extends
      rw [List.append_nil] at hextends'
      exact h.advanced hextends' hordered hshort ⟨_, _, hcarries'⟩ hcoherent'
    have hsettle := LogStore.yields_settle hcarries₁
    show EStateM.Yields _ _ (LogStore.settle journal₁)
    have hcoherent : EStateM.Yields _ _ (LogStore.settle journal₁) := hcoherent
    cases hsettled : LogStore.settle journal₁ with
    | ok _ journal' =>
      rw [hsettled] at hsettle hcoherent
      obtain ⟨hspools, durable', hcarries', -⟩ := hsettle
      refine ⟨?_, hadvanced hspools hcarries' hcoherent⟩
      show (EStateM.failed? (LogStore.settle journal₁)).isSome = false
      rw [hsettled]
      rfl
    | error e journal' =>
      rw [hsettled] at hsettle hcoherent
      obtain ⟨hspools, hcarries', -⟩ := hsettle
      intro haligned
      have hunsettled : (EStateM.failed? (LogStore.settle journal₁)).isSome = true := by
        rw [hsettled]
        rfl
      refine (if_pos hunsettled).mpr ?_
      exact hadvanced hspools hcarries' (hcoherent haligned)

theorem Journaled.fold (h : Journaled whole journal version map) (hversion : version < 2 ^ 64)
    (hsize : map.encode.length < 2 ^ 64)
    (hput : LogStore.putSnapshot version entryTerm map.encode journal = .ok () journal')
    (haligned : whole → journal'.Aligned)
    : Journaled whole journal' version map := by
  obtain ⟨bytes, durable, hcarries⟩ := h.carries
  have hfits : Snapshot.Fits ⟨version, entryTerm, map.encode⟩ := ⟨hversion, show 1 < 2 ^ 64 by decide⟩
  have hinstalled := LogStore.yields_putSnapshot_installed hcarries version entryTerm map.encode
  rw [hput] at hinstalled
  -- the snapshot is of the last version, so it covers every entry
  have hnone : journal'.entries = [] := by
    rw [hinstalled.entries]
    unfold LogStore.retained
    rw [List.filter_eq_nil_iff.2, ite_self]
    intro e he
    obtain ⟨k, hk, rfl⟩ := List.mem_iff_getElem.1 he
    have hindex := h.follows.index_eq hk
    have hlast := LogStore.lastIndex_eq h.follows
    rw [h.lastIndex] at hlast
    simp only [decide_eq_true_eq]
    omega
  refine ⟨hinstalled.carries, ?_, ?_, ⟨some ⟨version, entryTerm, map.encode⟩, ⟨?_, ?_, ?_⟩, ?_⟩, ?_⟩
  . rw [hnone]
    exact trivial
  . unfold LogStore.lastIndex
    rw [hnone, hinstalled.snapshotIndex]
    rfl
  . rw [LogStore.readSnapshot_encode hfits hinstalled.snapshot, if_pos hsize]
  . exact hinstalled.snapshotIndex
  . exact hinstalled.snapshotTerm
  . rw [hnone]
    show KeyMap.decode map.encode >>= (replay · []) = .ok map
    rw [KeyMap.decode_encode (KeyMap.fits_of_length hsize)]
    rfl
  . intro hwhole
    obtain ⟨records, durable', hcoherent⟩ := h.coherent hwhole
    have hyields := LogStore.yields_putSnapshot hcoherent version entryTerm map.encode
    rw [hput] at hyields
    exact hyields.1.coherent (.inr (haligned hwhole))

def Journals (whole : Prop) (store : StandaloneStore) (version : Nat) (map : KeyMap) : Prop :=
  ∃ journal, store.journal = some journal ∧ Journaled whole journal version map

def Kept (whole : Prop) (store : StandaloneStore) : Option WriteSet → Prop
  | none => store.Journals whole store.version store.map
  | some writes => store.Journals whole (store.version + 1) (writes.performOn store.map)

theorem Journals.compact (h : store.Journals whole store.version store.map) (hfolds : store.folds = true)
    (hversion : store.version < 2 ^ 64)
    : ∃ store', compact store = .ok () store' ∧
        (store'.map.encode.length < 2 ^ 64 → (whole → store'.Aligned) → store'.Kept whole none) := by
  obtain ⟨journal, hjournal, hjournaled⟩ := h
  obtain ⟨store', hcompact, hmemory⟩ := compact_inMemory store
  refine ⟨store', hcompact, fun hsize haligned => ?_⟩
  rw [map_of_inMemory hmemory] at hsize
  rw [compact_eq hjournal] at hcompact
  cases hcompact
  split at haligned
  . next hlong =>
    rw [if_pos hlong]
    unfold folds at hfolds
    rw [hjournal, Option.all_some, decide_eq_false (Nat.not_lt.2 hlong), Bool.false_or] at hfolds
    obtain ⟨journal', hstate⟩ := Option.isSome_iff_exists.1 hfolds
    obtain ⟨_, hput⟩ := EStateM.eq_ok_of_state? hstate
    have hafter : journal.after (.putSnapshot store.version entryTerm store.map.encode) = journal' := by
      have hperform : (LogCall.putSnapshot store.version entryTerm store.map.encode).perform journal
          = .ok () journal' := hput
      unfold LogStore.after
      rw [hperform]
    rw [hafter] at haligned ⊢
    exact ⟨journal', rfl, hjournaled.fold hversion hsize hput fun hwhole => haligned hwhole journal' rfl⟩
  . next hshort =>
    rw [if_neg hshort]
    exact ⟨journal, hjournal, hjournaled⟩

theorem Journals.append (h : store.Journals whole store.version store.map) (hordered : writes.removes.Ordered)
    (hversion : store.version + 1 < 2 ^ 64)
    : EStateM.Yields
        (fun _ store' => ∃ journal', store' = { store with journal := some journal' } ∧
          store.journal.any (·.unsettles (entryOf (store.version + 1) writes)) = false ∧
          Journaled whole journal' (store.version + 1) (writes.performOn store.map))
        (fun store' => ∃ journal', store' = { store with journal := some journal' } ∧
          ((whole → journal'.Aligned) →
            if store.journal.any (·.unsettles (entryOf (store.version + 1) writes)) then
              Journaled whole journal' (store.version + 1) (writes.performOn store.map)
            else Journaled whole journal' store.version store.map))
        (onJournal (LogStore.append [entryOf (store.version + 1) writes]) store) := by
  obtain ⟨journal, hjournal, hjournaled⟩ := h
  have happend := hjournaled.append hordered hversion
  rw [onJournal_of_some hjournal, hjournal, Option.any_some]
  cases hresult : LogStore.append [entryOf (store.version + 1) writes] journal with
  | ok _ journal' =>
    rw [hresult] at happend
    exact ⟨journal', rfl, happend⟩
  | error e journal' =>
    rw [hresult] at happend
    exact ⟨journal', rfl, happend⟩

theorem Journals.commit (base : Nat) (reads : KeyRanges) (h : store.Journals whole store.version store.map)
    (hcompacts : store.compacts base reads writes = true) (hordered : writes.removes.Ordered)
    (hversion : store.version + 1 < 2 ^ 64)
    : EStateM.Yields
        (fun _ store' => store.unsettles base reads writes = false ∧
          (store'.map.encode.length < 2 ^ 64 → (whole → store'.Aligned) → store'.Kept whole none))
        (fun store' => (whole → store'.Aligned) →
          store'.Kept whole (if store.unsettles base reads writes then some writes else none))
        (StandaloneStore.commit base reads writes store) := by
  rw [commit_eq]
  unfold compacts at hcompacts
  unfold unsettles
  cases hrefusal : store.refusal? base reads with
  | some e => exact fun _ => h
  | none =>
    rw [hrefusal] at hcompacts
    dsimp only
    cases hwrites : writes.isEmpty with
    | true =>
      rw [if_pos rfl]
      exact ⟨rfl, fun _ _ => h⟩
    | false =>
      rw [hwrites] at hcompacts
      rw [if_neg Bool.false_ne_true]
      have happend := h.append hordered hversion
      cases hresult : onJournal (LogStore.append [entryOf (store.version + 1) writes]) store with
      | error e store₁ =>
        rw [hresult] at happend
        unfold entryOf at hresult
        rw [hresult]
        obtain ⟨journal', rfl, happend⟩ := happend
        intro haligned
        have happend := happend fun hwhole => haligned hwhole journal' rfl
        rw [Option.isNone_none, Bool.not_false, Bool.and_self, Bool.true_and]
        split at happend
        . next hunsettled =>
          rw [if_pos hunsettled]
          exact ⟨journal', rfl, happend⟩
        . next hsettled =>
          rw [if_neg hsettled]
          exact ⟨journal', rfl, happend⟩
      | ok _ store₁ =>
        rw [hresult] at hcompacts happend
        unfold entryOf at hresult
        rw [hresult]
        obtain ⟨journal', rfl, hsettled, hadvanced⟩ := happend
        have hfolds : (StandaloneStore.advance { store with journal := some journal' } writes).folds = true :=
          hcompacts
        have hjournals : (StandaloneStore.advance { store with journal := some journal' } writes).Journals whole
            (store.version + 1) (writes.performOn store.map) := ⟨journal', rfl, hadvanced⟩
        obtain ⟨store', hcompact, hkept⟩ := hjournals.compact hfolds hversion
        dsimp only
        rw [hcompact]
        exact ⟨hsettled, hkept⟩

theorem Kept.commit_ahead {lingering : WriteSet} (h : store.Kept whole (some lingering)) (base : Nat)
    (reads : KeyRanges) (writes : WriteSet)
    : EStateM.Yields (fun _ store' => store' = store ∧ writes.isEmpty = true) (fun store' => store' = store)
        (StandaloneStore.commit base reads writes store) := by
  obtain ⟨journal, hjournal, hjournaled⟩ := h
  have hindex : (entryOf (store.version + 1) writes).index ≠ journal.lastIndex + 1 := by
    rw [hjournaled.lastIndex]
    exact Nat.ne_of_lt (Nat.lt_succ_self _)
  have honJournal := onJournal_of_some hjournal (LogStore.append [entryOf (store.version + 1) writes])
  rw [LogStore.append_of_gap hindex] at honJournal
  dsimp only at honJournal
  rw [← hjournal] at honJournal
  rw [commit_eq]
  cases store.refusal? base reads with
  | some e => exact rfl
  | none =>
    dsimp only
    by_cases hwrites : writes.isEmpty = true
    . rw [if_pos hwrites]
      exact ⟨rfl, hwrites⟩
    . rw [if_neg hwrites]
      unfold entryOf at honJournal
      rw [honJournal]
      exact rfl

theorem Kept.refuses {lingering : WriteSet} (h : store.Kept whole (some lingering)) (client : StandaloneClient)
    : ∃ result transaction,
        commitTransaction client.transaction store = (result, transaction, store) ∧
          (client.transaction.view.writes.isEmpty = false → result ≠ .ok ()) := by
  cases hclosed : client.transaction.view.closed with
  | true =>
    rw [commitTransaction_of_closed hclosed]
    exact ⟨_, _, rfl, fun _ => nofun⟩
  | false =>
    have hcommit := h.commit_ahead client.transaction.baseVersion client.transaction.view.reads
      client.transaction.view.writes
    rw [commitTransaction_eq hclosed]
    cases hresult : StandaloneStore.commit client.transaction.baseVersion client.transaction.view.reads
        client.transaction.view.writes store with
    | ok _ store' =>
      rw [hresult] at hcommit
      obtain ⟨rfl, hempty⟩ := hcommit
      refine ⟨_, _, rfl, fun hwrites => ?_⟩
      rw [hempty] at hwrites
      cases hwrites
    | error e store' =>
      rw [hresult] at hcommit
      cases hcommit
      exact ⟨_, _, rfl, fun _ => nofun⟩

theorem inMemory_of_failed {client : StandaloneClient} {transaction : StandaloneTransaction}
    {after : StandaloneStore} {e : Error}
    (hcommit : commitTransaction client.transaction store = (.error e, transaction, after))
    : after.inMemory = store.inMemory := by
  cases hclosed : client.transaction.view.closed with
  | true =>
    rw [commitTransaction_of_closed hclosed] at hcommit
    cases hcommit
    rfl
  | false =>
    have hmemory := commit_inMemory client.transaction.baseVersion client.transaction.view.reads
      client.transaction.view.writes store
    rw [commitTransaction_eq hclosed] at hcommit
    cases hresult : StandaloneStore.commit client.transaction.baseVersion client.transaction.view.reads
        client.transaction.view.writes store with
    | ok _ store' =>
      rw [hresult] at hcommit
      cases hcommit
    | error e' store' =>
      rw [hresult] at hcommit hmemory
      cases hcommit
      exact hmemory

def Reopens (store : StandaloneStore) (version : Nat) (map : KeyMap) : Prop :=
  ∀ policy limit, ∃ directory reopened volume, store.calmed.close = some directory ∧
    StandaloneStore.open policy limit directory = .ok reopened volume ∧
    reopened.map = map ∧ reopened.version = version

theorem Journals.reopens (h : store.Journals whole version map) (hwhole : whole)
    : store.Reopens version map := by
  obtain ⟨journal, hjournal, hjournaled⟩ := h
  -- closing and opening look at nothing but the journal
  have hbacked : StandaloneStore.Backed { store with version, map } :=
    ⟨journal, hjournal, hjournaled.backs hwhole⟩
  exact fun policy limit => hbacked.reopens policy limit

theorem Journals.ready (h : store.Journals whole store.version map) : store.calmed.Ready := by
  obtain ⟨journal, hjournal, hjournaled⟩ := h
  obtain ⟨bytes, durable, hcarries⟩ := hjournaled.carries
  refine ⟨{ journal with disk := journal.disk.calmed }, bytes, durable, ?_, hjournaled.lastIndex, ?_⟩
  . unfold calmed
    rw [hjournal]
    rfl
  . exact ⟨hcarries.sound, hcarries.file⟩

end StandaloneStore

namespace StandaloneSession

variable {whole : Prop} {session : StandaloneSession}

def unsettled? (session : StandaloneSession) : StandaloneEvent → Option WriteSet
  | .commit index => session.clients[index]?.bind fun client =>
    if !client.transaction.view.closed && session.store.unsettles client.transaction.baseVersion
        client.transaction.view.reads client.transaction.view.writes then
      some client.transaction.view.writes
    else none
  | _ => none

def lingering? (session : StandaloneSession) : List StandaloneEvent → Option WriteSet
  | [] => none
  | event :: rest => (session.unsettled? event).or ((session.perform event).lingering? rest)

def compacts (session : StandaloneSession) : StandaloneEvent → Bool
  | .commit index =>
    session.clients[index]?.all fun client =>
      client.transaction.view.closed ||
        session.store.compacts client.transaction.baseVersion client.transaction.view.reads
          client.transaction.view.writes
  | _ => true

theorem perform_kept (h : session.store.Kept whole none) (hvalid : session.Valid) {event : StandaloneEvent}
    (hcompacts : session.compacts event = true) (hversion : session.store.version + 1 < 2 ^ 64)
    (hsize : (session.perform event).store.map.encode.length < 2 ^ 64)
    (haligned : whole → (session.perform event).store.Aligned)
    : (session.perform event).store.Kept whole (session.unsettled? event) := by
  cases event with
  | commit index =>
    cases hclient : session.clients[index]? with
    | none =>
      simp only [StandaloneSession.perform, unsettled?, hclient]
      exact h
    | some client =>
      have hjoint := hvalid.clients client (List.mem_of_getElem? hclient)
      simp only [StandaloneSession.perform, unsettled?, compacts, hclient, Option.all_some, Option.bind_some]
        at hcompacts hsize haligned ⊢
      cases hclosed : client.transaction.view.closed with
      | true =>
        rw [StandaloneStore.commitTransaction_of_closed hclosed]
        exact h
      | false =>
        rw [hclosed, Bool.false_or] at hcompacts
        rw [StandaloneStore.commitTransaction_eq hclosed] at hsize haligned ⊢
        have hcommit := StandaloneStore.Journals.commit client.transaction.baseVersion
          client.transaction.view.reads h hcompacts (hjoint.removes_ordered hclosed) hversion
        rw [Bool.not_false, Bool.true_and]
        cases hresult : StandaloneStore.commit client.transaction.baseVersion client.transaction.view.reads
            client.transaction.view.writes session.store with
        | ok _ store' =>
          rw [hresult] at hcommit hsize haligned
          rw [hcommit.1]
          exact hcommit.2 hsize haligned
        | error e store' =>
          rw [hresult] at hcommit haligned
          exact hcommit haligned
  | _ => exact h

theorem perform_ahead {lingering : WriteSet} (h : session.store.Kept whole (some lingering))
    (event : StandaloneEvent)
    : (session.perform event).store = session.store := by
  cases event with
  | commit index =>
    cases hclient : session.clients[index]? with
    | none => simp only [StandaloneSession.perform, hclient]
    | some client =>
      obtain ⟨result, transaction, hcommit, -⟩ := h.refuses client
      simp only [StandaloneSession.perform, hclient, hcommit]
  | _ => rfl

theorem run_ahead {lingering : WriteSet} (h : session.store.Kept whole (some lingering))
    (events : List StandaloneEvent)
    : (session.run events).store = session.store := by
  induction events generalizing session with
  | nil => rfl
  | cons event rest ih =>
    have hsame := perform_ahead h event
    exact (ih (by rwa [hsame])).trans hsame

theorem run_kept (h : session.store.Kept whole none) (hvalid : session.Valid) {events : List StandaloneEvent}
    (hcompacts : ∀ k (hk : k < events.length), (session.run (events.take k)).compacts events[k] = true)
    (hversion : session.store.version + events.length < 2 ^ 64)
    (hsize : ∀ k ≤ events.length, (session.run (events.take k)).store.map.encode.length < 2 ^ 64)
    (haligned : whole → ∀ k ≤ events.length, (session.run (events.take k)).store.Aligned)
    : (session.run events).store.Kept whole (session.lingering? events) := by
  induction events generalizing session with
  | nil => exact h
  | cons event rest ih =>
    rw [List.length_cons] at hversion
    have hfirst : session.compacts event = true := hcompacts 0 (Nat.succ_pos _)
    have hmap : (session.perform event).store.map.encode.length < 2 ^ 64 :=
      hsize 1 (Nat.succ_le_succ (Nat.zero_le _))
    have hperform := perform_kept h hvalid hfirst (by omega) hmap
      fun hwhole => haligned hwhole 1 (Nat.succ_le_succ (Nat.zero_le _))
    unfold lingering?
    cases hunsettled : session.unsettled? event with
    | none =>
      rw [hunsettled] at hperform
      have hle := version_perform_le hvalid event
      exact ih hperform (hvalid.perform event) (fun k hk => hcompacts (k + 1) (Nat.succ_lt_succ hk)) (by omega)
        (fun k hk => hsize (k + 1) (Nat.succ_le_succ hk))
        (fun hwhole k hk => haligned hwhole (k + 1) (Nat.succ_le_succ hk))
    -- with an entry left in its journal the store changes no more
    | some lingering =>
      rw [hunsettled] at hperform
      have hsame : (session.run (event :: rest)).store = (session.perform event).store := run_ahead hperform rest
      rw [hsame]
      exact hperform

structure InStep (session : StandaloneSession) (whole : Prop) : Prop where
  journal : ∃ journal, session.store.journal = some journal ∧
    StandaloneStore.Leads journal session.store.version session.store.map
  commits : ∀ client ∈ session.clients, client.transaction.view.closed = false →
    (StandaloneStore.commitTransaction client.transaction session.store.calmed).1
      = session.store.verdict client.transaction.baseVersion client.transaction.view.reads
          client.transaction.view.writes
  reopens : whole → session.store.Reopens session.store.version session.store.map

/-- The journal has the writes of a commit that failed. Nothing can be committed behind them, and they are
there when the store is opened again. -/
structure Behind (session : StandaloneSession) (whole : Prop) (lingering : WriteSet) : Prop where
  journal : ∃ journal, session.store.journal = some journal ∧
    StandaloneStore.Leads journal (session.store.version + 1) (lingering.performOn session.store.map)
  refuses : ∀ client ∈ session.clients, ∃ result transaction,
    StandaloneStore.commitTransaction client.transaction session.store = (result, transaction, session.store) ∧
      (client.transaction.view.writes.isEmpty = false → result ≠ .ok ())
  reopens : whole → session.store.Reopens (session.store.version + 1) (lingering.performOn session.store.map)

theorem inStep_of_kept (h : session.store.Kept whole none) : session.InStep whole where
  journal := by
    obtain ⟨journal, hjournal, hjournaled⟩ := h
    exact ⟨journal, hjournal, hjournaled.leads⟩
  commits client _ hopen := by
    have hready : session.store.calmed.Ready := StandaloneStore.Journals.ready h
    have hcalm : session.store.calmed.plan = [] := by
      obtain ⟨journal, hjournal, -⟩ := h
      unfold StandaloneStore.plan StandaloneStore.calmed
      rw [hjournal]
      rfl
    have hverdict := StandaloneStore.commit_verdict client.transaction.baseVersion client.transaction.view.reads
      client.transaction.view.writes hready (.inl hcalm)
    have hsame : session.store.calmed.inMemory = session.store.inMemory := rfl
    rw [StandaloneStore.verdict_of_inMemory hsame] at hverdict
    rw [StandaloneStore.commitTransaction_eq hopen]
    cases hresult : StandaloneStore.commit client.transaction.baseVersion client.transaction.view.reads
        client.transaction.view.writes session.store.calmed with
    | ok _ store' =>
      rw [hresult] at hverdict
      exact hverdict.symm
    | error e store' =>
      rw [hresult] at hverdict
      exact hverdict.symm
  reopens := StandaloneStore.Journals.reopens h

theorem behind_of_kept {lingering : WriteSet} (h : session.store.Kept whole (some lingering))
    : session.Behind whole lingering where
  journal := by
    obtain ⟨journal, hjournal, hjournaled⟩ := h
    exact ⟨journal, hjournal, hjournaled.leads⟩
  refuses client _ := h.refuses client
  reopens := StandaloneStore.Journals.reopens h

/-- On a store opened from any directory, whichever steps of the appends to its journal fail: a commit that
fails changes neither map nor version, and the store is in step with its journal, unless the journal took an
entry in and could not bring it to the disk. From then on the store is behind its journal. What is in the
directory is what the journal has, if no record was left unfinished in it. -/
theorem failed_commits_linger {policy : SyncPolicy} {limit : Nat} {volume volume' : Volume}
    {store : StandaloneStore}
    (hvolume : volume.calmed.Sound) (hopen : StandaloneStore.open policy limit volume = .ok store volume')
    {events : List StandaloneEvent}
    (hcompacts : ∀ k (hk : k < events.length), (run { store } (events.take k)).compacts events[k] = true)
    (hversion : store.version + events.length < 2 ^ 64)
    (hsize : ∀ k ≤ events.length, (run { store } (events.take k)).store.map.encode.length < 2 ^ 64)
    : (∀ client ∈ (run { store } events).clients, ∀ e transaction after,
        StandaloneStore.commitTransaction client.transaction (run { store } events).store
          = (.error e, transaction, after) →
        after.inMemory = (run { store } events).store.inMemory) ∧
      (lingering? { store } events = none →
        (run { store } events).InStep (∀ k ≤ events.length, (run { store } (events.take k)).store.Aligned)) ∧
      ∀ writes, lingering? { store } events = some writes →
        (run { store } events).Behind (∀ k ≤ events.length, (run { store } (events.take k)).store.Aligned)
          writes := by
  have hkept : (run { store } events).store.Kept
      (∀ k ≤ events.length, (run { store } (events.take k)).store.Aligned) (lingering? { store } events) :=
    run_kept (StandaloneStore.journaled_of_open hvolume hopen) (valid_run (.opened hopen) []) hcompacts hversion
      hsize fun h => h
  refine ⟨?_, ?_, ?_⟩
  . intro client _ e transaction after hcommit
    exact StandaloneStore.inMemory_of_failed hcommit
  . intro hnone
    rw [hnone] at hkept
    exact inStep_of_kept hkept
  . intro writes hlingering
    rw [hlingering] at hkept
    exact behind_of_kept hkept

namespace Forced

-- Opening takes two steps, and so does each append. The second append fails when it is forced to the disk.
def plan : List (Option Fault) :=
  [none, none, none, some {}]

def volume : Volume :=
  { plan := none :: none :: plan }

def store : StandaloneStore :=
  { journal := some (.fresh .always plan) }

def events : List StandaloneEvent :=
  [.begin, .operate 0 (.put [1] [10]), .commit 0, .begin, .operate 1 (.put [2] [20]), .commit 1,
    .begin, .operate 2 (.put [3] [30])]

end Forced

theorem failed_commits_linger_forced
    : ∃ writes client result transaction directory reopened volume,
        lingering? { store := Forced.store } Forced.events = some writes ∧
        (run { store := Forced.store } Forced.events).clients[2]? = some client ∧
        StandaloneStore.commitTransaction client.transaction (run { store := Forced.store } Forced.events).store
          = (result, transaction, (run { store := Forced.store } Forced.events).store) ∧
        result ≠ .ok () ∧
        (run { store := Forced.store } Forced.events).store.calmed.close = some directory ∧
        StandaloneStore.open .never 5 directory = .ok reopened volume ∧
        reopened.map.pairs = [([1], [10]), ([2], [20])] ∧ reopened.version = 2 := by
  have hsound : Forced.volume.calmed.Sound := Volume.sound_empty
  obtain ⟨volume', hopen⟩ :
      ∃ volume', StandaloneStore.open .always 1024 Forced.volume = .ok Forced.store volume' := ⟨_, rfl⟩
  have hcompacts : ∀ k (hk : k < Forced.events.length),
      (run { store := Forced.store } (Forced.events.take k)).compacts Forced.events[k] = true := by
    decide +kernel
  have hsize : ∀ k ≤ Forced.events.length,
      (run { store := Forced.store } (Forced.events.take k)).store.map.encode.length < 2 ^ 64 := by
    decide +kernel
  have haligned : ∀ k ≤ Forced.events.length,
      (run { store := Forced.store } (Forced.events.take k)).store.Aligned := by
    decide +kernel
  have hlingers : (lingering? { store := Forced.store } Forced.events).map
      (fun writes => (writes.performOn (run { store := Forced.store } Forced.events).store.map).pairs)
        = some [([1], [10]), ([2], [20])] := by
    decide +kernel
  have hthird : (run { store := Forced.store } Forced.events).clients[2]?.map
      (·.transaction.view.writes.isEmpty) = some false := by
    decide +kernel
  have hversion : (run { store := Forced.store } Forced.events).store.version = 1 := by
    decide +kernel
  obtain ⟨writes, hlingering, hpairs⟩ := Option.map_eq_some_iff.1 hlingers
  obtain ⟨client, hclient, hwrites⟩ := Option.map_eq_some_iff.1 hthird
  have hbehind := (failed_commits_linger hsound hopen hcompacts (by decide) hsize).2.2 writes hlingering
  obtain ⟨result, transaction, hcommit, hresult⟩ := hbehind.refuses client (List.mem_of_getElem? hclient)
  obtain ⟨directory, reopened, volume, hclose, hreopen, hmap, hreopened⟩ := hbehind.reopens haligned .never 5
  refine ⟨writes, client, result, transaction, directory, reopened, volume, hlingering, hclient, hcommit,
    hresult hwrites, hclose, hreopen, ?_, ?_⟩
  . rw [hmap, hpairs]
  . rw [hreopened, hversion]

theorem failed_commit_lingers
    : ∃ journal directory reopened volume',
        outcomes { store := Forced.store } (Forced.events ++ [.commit 2])
          = [.ok (), .error (.io "Input/output error (os error 5)"),
            .error (.log "non-contiguous append: expected index 3, got 2")] ∧
        (run { store := Forced.store } Forced.events).store.plan = [] ∧
        (run { store := Forced.store } Forced.events).store.version = 1 ∧
        (run { store := Forced.store } Forced.events).store.map.pairs = [([1], [10])] ∧
        (run { store := Forced.store } Forced.events).store.journal = some journal ∧ journal.lastIndex = 2 ∧
        (run { store := Forced.store } Forced.events).store.close = some directory ∧
        StandaloneStore.open .always 1024 directory = .ok reopened volume' ∧
        reopened.map.pairs = [([1], [10]), ([2], [20])] := by
  have hjournal : (run { store := Forced.store } Forced.events).store.journal.map (·.lastIndex) = some 2 := by
    decide +kernel
  have hopened : ((run { store := Forced.store } Forced.events).store.close.bind fun directory =>
      (EStateM.value? (StandaloneStore.open .always 1024 directory)).map (·.map.pairs))
        = some [([1], [10]), ([2], [20])] := by
    decide +kernel
  obtain ⟨journal, hjournal, hlast⟩ := Option.map_eq_some_iff.1 hjournal
  obtain ⟨directory, hclose, hopened⟩ := Option.bind_eq_some_iff.1 hopened
  obtain ⟨reopened, hvalue, hpairs⟩ := Option.map_eq_some_iff.1 hopened
  obtain ⟨volume', hopen⟩ := EStateM.eq_ok_of_value? hvalue
  exact ⟨journal, directory, reopened, volume', by decide +kernel, by decide +kernel, by decide +kernel,
    by decide +kernel, hjournal, hlast, hclose, hopen, hpairs⟩

end StandaloneSession

end ReplicatedStore
