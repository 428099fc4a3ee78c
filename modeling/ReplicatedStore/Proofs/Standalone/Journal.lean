import ReplicatedStore.Proofs.KeySpace.WriteSet
import ReplicatedStore.Proofs.Storage.Folding
import ReplicatedStore.Proofs.Storage.Interruption
import ReplicatedStore.StandaloneStore

/-!
The journal of a standalone store: which map its snapshot and its entries lead to, through appends and through
compactions that replaced both of its files, one of them or none.
-/

namespace ReplicatedStore

namespace StandaloneStore

variable {whole : Prop} {journal journal' : LogStore} {version : Nat} {map : KeyMap} {writes : WriteSet}

def redo (map : KeyMap) (entry : LogEntry) : Except EncodingError KeyMap :=
  if entry.isNoop then .ok map else (WriteSet.decode entry.command).map (·.performOn map)

theorem replay_eq_foldlM (map : KeyMap) (entries : List LogEntry)
    : replay map entries = entries.foldlM redo map := by
  induction entries generalizing map with
  | nil => rfl
  | cons entry rest ih =>
    rw [replay, List.foldlM_cons, redo]
    cases entry.isNoop with
    | true => exact ih map
    | false =>
      cases WriteSet.decode entry.command with
      | error e => rfl
      | ok writes => exact ih (writes.performOn map)

theorem replay_append (map : KeyMap) (entries added : List LogEntry)
    : replay map (entries ++ added) = replay map entries >>= (replay · added) := by
  simp only [replay_eq_foldlM, List.foldlM_append]

def entryOf (version : Nat) (writes : WriteSet) : LogEntry :=
  ⟨entryTerm, version, writes.encode⟩

theorem replay_entryOf (hordered : writes.removes.Ordered) (hlength : writes.encode.length < 2 ^ 64)
    : replay map [entryOf version writes] = .ok (writes.performOn map) := by
  have hnoop : (entryOf version writes).isNoop = false := by
    unfold LogEntry.isNoop entryOf
    simpa using writes.encode_ne_nil
  rw [replay_eq_foldlM, List.foldlM_cons]
  unfold redo
  rw [hnoop, if_neg Bool.false_ne_true]
  unfold entryOf
  rw [WriteSet.decode_encode hordered (WriteSet.fits_of_length hlength)]
  rfl

structure Backs (journal : LogStore) (version : Nat) (map : KeyMap) : Prop where
  coherent : ∃ records durable, journal.Coherent records durable
  lastIndex : journal.lastIndex = version
  leads : ∃ snapshot, LogStore.readSnapshot journal.disk = .ok snapshot journal.disk ∧
    journal.snapshotIndex ≤ (snapshot.map (·.index)).getD 0 ∧ (snapshot.map (·.index)).getD 0 ≤ version ∧
    restore snapshot >>= (replay · (journal.entries.filter ((snapshot.map (·.index)).getD 0 < ·.index)))
      = .ok map

theorem Backs.append (h : Backs journal version map) (hordered : writes.removes.Ordered)
    (hversion : version + 1 < 2 ^ 64)
    (happend : LogStore.append [entryOf (version + 1) writes] journal = .ok () journal')
    : Backs journal' (version + 1) (writes.performOn map) ∧ journal'.disk.plan <:+ journal.disk.plan := by
  obtain ⟨records, durable, hcoherent⟩ := h.coherent
  have hrange : ∀ e ∈ [entryOf (version + 1) writes], e.InRange := by
    intro e he
    rw [List.mem_singleton.1 he]
    exact ⟨show 1 < 2 ^ 64 by decide, hversion⟩
  have hyields := LogStore.yields_appendEntries hcoherent hrange
  rw [happend] at hyields
  obtain ⟨hextends, -, durable', hcoherent', -⟩ := hyields
  have hentries := hextends.entries
  have hfits : (entryOf (version + 1) writes).Fits := by
    apply hcoherent'.entry_fits
    rw [hentries]
    exact List.mem_append_right _ (List.mem_singleton_self _)
  have hlength : writes.encode.length < 2 ^ 64 :=
    Nat.lt_of_le_of_lt hfits.command (show LogStore.greatestCommand < 2 ^ 64 by decide)
  refine ⟨⟨⟨_, _, hcoherent'⟩, ?_, ?_⟩, hextends.plan⟩
  . unfold LogStore.lastIndex
    rw [hentries, List.getLast?_concat]
    rfl
  . obtain ⟨snapshot, hread, hle, hpast, hleads⟩ := h.leads
    refine ⟨snapshot, LogStore.readSnapshot_congr hread hextends.snapshot, ?_, Nat.le_succ_of_le hpast, ?_⟩
    . rw [hextends.snapshotIndex]
      exact hle
    . have hnew : [entryOf (version + 1) writes].filter ((snapshot.map (·.index)).getD 0 < ·.index)
          = [entryOf (version + 1) writes] := by
        apply List.filter_cons_of_pos
        exact decide_eq_true (Nat.lt_succ_of_le hpast)
      rw [hentries, List.filter_append, hnew]
      cases hrestore : restore snapshot with
      | error e =>
        rw [hrestore] at hleads
        cases hleads
      | ok base =>
        rw [hrestore] at hleads
        have hleads :
            replay base (journal.entries.filter ((snapshot.map (·.index)).getD 0 < ·.index)) = .ok map :=
          hleads
        show replay base _ = _
        rw [replay_append, hleads]
        exact replay_entryOf hordered hlength

theorem Backs.fold {records : List LogEntry} {durable : Bytes} (h : Backs journal version map)
    (hrecords : journal.Coherent records durable) (hversion : version < 2 ^ 64)
    (hsize : map.encode.length < 2 ^ 64)
    (hinstalls : journal.Installs journal' version entryTerm map.encode records durable)
    (hcoherent : ∃ records' durable', journal'.Coherent records' durable')
    : Backs journal' version map ∧ journal'.disk.plan <:+ journal.disk.plan := by
  have hread : journal'.disk.Holds LogStore.snapshotName
      (some (Snapshot.encode ⟨version, entryTerm, map.encode⟩)) →
      LogStore.readSnapshot journal'.disk = .ok (some ⟨version, entryTerm, map.encode⟩) journal'.disk := by
    intro hholds
    rw [LogStore.readSnapshot_encode ⟨hversion, show 1 < 2 ^ 64 by decide⟩ hholds, if_pos hsize]
  have hrestore : restore (some ⟨version, entryTerm, map.encode⟩) = .ok map :=
    KeyMap.decode_encode (KeyMap.fits_of_length hsize)
  have hnone : journal.entries.filter (version < ·.index) = [] :=
    hrecords.filter_beyond (Nat.le_of_eq h.lastIndex) (List.prefix_refl _)
  refine ⟨?_, hinstalls.plan_suffix⟩
  -- the fold stops before the snapshot is replaced, between that and the log, or after both
  cases hinstalls with
  | before keeps entries buffer _ =>
    obtain ⟨snapshot, hold, hle, hpast, hleads⟩ := h.leads
    refine ⟨hcoherent, ?_, snapshot, LogStore.readSnapshot_congr hold keeps.snapshot, ?_, hpast, ?_⟩
    . rw [← h.lastIndex]
      exact LogStore.lastIndex_congr entries keeps.snapshotIndex
    . rw [keeps.snapshotIndex]
      exact hle
    . rw [entries]
      exact hleads
  | between le _ _ _ snapshotIndex entries _ _ hsnapshot =>
    refine ⟨hcoherent, ?_, _, hread hsnapshot, ?_, Nat.le_refl _, ?_⟩
    . rw [← h.lastIndex]
      exact LogStore.lastIndex_congr entries snapshotIndex
    . rw [snapshotIndex]
      exact le
    . rw [entries, hrestore]
      show replay map (journal.entries.filter (version < ·.index)) = .ok map
      rw [hnone]
      rfl
  | after _ _ _ snapshotIndex _ entries _ _ _ _ hsnapshot =>
    have hretained : journal.retained version entryTerm = [] := by
      unfold LogStore.retained
      rw [hnone, ite_self]
    refine ⟨hcoherent, ?_, _, hread hsnapshot, Nat.le_of_eq snapshotIndex, Nat.le_refl _, ?_⟩
    . unfold LogStore.lastIndex
      rw [entries, hretained, snapshotIndex]
      rfl
    . rw [entries, hretained, hrestore]
      rfl

structure Leads (journal : LogStore) (version : Nat) (map : KeyMap) : Prop where
  lastIndex : journal.lastIndex = version
  replays : ∃ snapshot, LogStore.storedSnapshot journal = .ok snapshot journal ∧
    restore snapshot >>= (replay · journal.entries) = .ok map

structure Journaled (whole : Prop) (journal : LogStore) (version : Nat) (map : KeyMap) : Prop where
  carries : ∃ bytes durable, journal.Carries bytes durable
  follows : Follows journal.snapshotIndex journal.entries
  lastIndex : journal.lastIndex = version
  knows : ∃ snapshot, journal.Knows snapshot ∧ restore snapshot >>= (replay · journal.entries) = .ok map
  coherent : whole → ∃ records durable, journal.Coherent records durable

theorem Journaled.leads (h : Journaled whole journal version map) : Leads journal version map where
  lastIndex := h.lastIndex
  replays := by
    obtain ⟨snapshot, hknows, hreplay⟩ := h.knows
    exact ⟨snapshot, hknows.storedSnapshot, hreplay⟩

theorem Journaled.backs (h : Journaled whole journal version map) (hwhole : whole)
    : Backs journal version map where
  coherent := h.coherent hwhole
  lastIndex := h.lastIndex
  leads := by
    obtain ⟨snapshot, hknows, hreplay⟩ := h.knows
    obtain ⟨records, durable, hcoherent⟩ := h.coherent hwhole
    have hlast := LogStore.lastIndex_eq h.follows
    rw [h.lastIndex] at hlast
    refine ⟨snapshot, hknows.reads, Nat.le_of_eq hknows.snapshotIndex, ?_, ?_⟩
    . rw [← hknows.snapshotIndex]
      omega
    . rw [← hknows.snapshotIndex, hcoherent.filter_self (List.prefix_refl _)]
      exact hreplay

theorem journaled_of_open {policy : SyncPolicy} {limit : Nat} {volume volume' : Volume}
    {store : StandaloneStore}
    (hvolume : volume.calmed.Sound) (hopen : StandaloneStore.open policy limit volume = .ok store volume')
    : ∃ journal, store.journal = some journal ∧ Journaled whole journal store.version store.map := by
  obtain ⟨journal, volume₁, hjournal, hrest⟩ := EStateM.of_bind hopen
  obtain ⟨snapshot, volume₂, hsnapshot, hmap⟩ := EStateM.of_bind hrest
  obtain ⟨snapshot₀, records, -, hread, -, hdisk, hopens⟩ := LogStore.opens_of_ok hvolume hjournal
  obtain ⟨durable, hcoherent, -⟩ := hopens.coherent
  have hread : LogStore.readSnapshot journal.disk = .ok snapshot₀ journal.disk :=
    LogStore.readSnapshot_congr hread hopens.file
  rw [← hdisk, hread] at hsnapshot
  cases hsnapshot
  cases hresult : restore snapshot >>= (replay · journal.entries) with
  | error e =>
    rw [hresult] at hmap
    cases hmap
  | ok map =>
    rw [hresult] at hmap
    cases hmap
    exact ⟨journal, rfl, ⟨_, _, hcoherent.carries⟩, hcoherent.follows, rfl,
      ⟨snapshot, ⟨hread, hopens.snapshotIndex, hopens.snapshotTerm⟩, hresult⟩, fun _ => ⟨_, _, hcoherent⟩⟩

theorem backs_of_open {policy : SyncPolicy} {limit : Nat} {volume volume' : Volume} {store : StandaloneStore}
    (hvolume : volume.calmed.Sound) (hopen : StandaloneStore.open policy limit volume = .ok store volume')
    : ∃ journal, store.journal = some journal ∧ Backs journal store.version store.map := by
  obtain ⟨journal, hjournal, hjournaled⟩ := journaled_of_open hvolume hopen
  exact ⟨journal, hjournal, hjournaled.backs trivial⟩

theorem Backs.reopen (h : Backs journal version map) (hcalm : journal.disk.plan = []) (policy : SyncPolicy)
    (limit : Nat)
    : ∃ store volume, StandaloneStore.open policy limit journal.close = .ok store volume ∧ store.map = map ∧
        store.version = version := by
  obtain ⟨records, durable, hcoherent⟩ := h.coherent
  obtain ⟨flushed, hclose, hspools, hflushed, hempty⟩ := hcoherent.close hcalm
  obtain ⟨snapshot, hread, hle, hpast, hleads⟩ := h.leads
  have hread' := LogStore.readSnapshot_congr hread hspools.snapshot
  have hmemory := hspools.memory
  have hentries : flushed.entries = journal.entries := by
    rw [hmemory]
  have hindex : flushed.snapshotIndex = journal.snapshotIndex := hspools.keeps.snapshotIndex
  have hsound : flushed.disk.Sound := by
    rw [← Volume.calmed_eq (Volume.calm_of_suffix hspools.plan hcalm)]
    exact hflushed.carries.sound
  obtain ⟨log, held, hopens, -, hwhole⟩ :=
    hflushed.reopen hsound rfl hread' (by rw [hindex]; exact hle) policy
  have hheld : held = journal.entries := (hwhole hempty).trans hentries
  have hkept : log.entries
      = journal.entries.drop ((snapshot.map (·.index)).getD 0 - journal.snapshotIndex) := by
    rw [hopens.entries, hheld, LogStore.filter_index hcoherent.follows hle]
  have hlength := LogStore.lastIndex_eq hcoherent.follows
  rw [h.lastIndex] at hlength
  have hversion : log.lastIndex = version := by
    have hfollows : Follows log.snapshotIndex log.entries := by
      have := hcoherent.follows.drop (n := (snapshot.map (·.index)).getD 0 - journal.snapshotIndex) (by omega)
      rw [hkept, hopens.snapshotIndex]
      rwa [Nat.add_sub_cancel' hle] at this
    rw [LogStore.lastIndex_eq hfollows, hkept, hopens.snapshotIndex, List.length_drop]
    omega
  rw [hclose]
  unfold StandaloneStore.open
  rw [EStateM.bind_of_ok hopens.opened, EStateM.bind_of_ok hopens.reads, hopens.entries, hheld, hleads]
  exact ⟨_, _, rfl, rfl, hversion⟩

end StandaloneStore

end ReplicatedStore
