import ReplicatedStore.Proofs.Storage.Mishaps

/-!
The installation of a snapshot that is cut short. Opening goes by indexes only, so between the two files it
finds what the installation would have left if the log has the entry of the snapshot or ends before it; a
conflicting suffix stays.
-/

namespace ReplicatedStore

namespace LogStore

variable {log log' : LogStore} {records : List LogEntry} {durable : Bytes} {snapshot : Option Snapshot}
  {index term : Nat} {data : Bytes}

structure OpensAs (policy : SyncPolicy) (v : Volume) (snapshot : Option Snapshot) (entries : List LogEntry)
    (log : LogStore) : Prop where
  opened : LogStore.open policy v = .ok log log.disk
  stored : storedSnapshot log = .ok snapshot log
  snapshotIndex : log.snapshotIndex = (snapshot.map (·.index)).getD 0
  snapshotTerm : log.snapshotTerm = (snapshot.map (·.term)).getD 0
  entries : log.entries = entries

theorem OpensAs.reads {policy : SyncPolicy} {v : Volume} {entries : List LogEntry}
    (h : OpensAs policy v snapshot entries log)
    : readSnapshot log.disk = .ok snapshot log.disk := by
  have hstored := h.stored
  unfold storedSnapshot at hstored
  rcases readSnapshot_cases log.disk with ⟨found, hread⟩ | ⟨e, hread⟩
  . rw [onDisk_of_ok hread] at hstored
    cases hstored
    exact hread
  . rw [onDisk_of_error hread] at hstored
    cases hstored

theorem Frayed.content (h : log.Frayed records durable) (hfit : ∀ e ∈ records, e.Fits)
    : ∃ n rest, log.disk.content? logName = some ((records.take n).flatMap LogRecord.encode ++ rest) ∧
        LogRecord.read? rest = none ∧ (log.writer.buffer = [] → records.take n = records) := by
  obtain ⟨torn, hcarries, htorn, hends⟩ := h
  obtain ⟨written, hfile, hbytes⟩ := hcarries.file
  rw [content?_of_file hfile]
  rcases hends with rfl | hempty
  . rw [List.append_nil] at hbytes
    have hcut : (records.flatMap LogRecord.encode).take written.length = written := by
      rw [← hbytes]
      exact List.take_left' rfl
    obtain ⟨n, rest, htake, hrest, hwhole⟩ := LogRecord.exists_take hfit written.length
    rw [hcut] at htake
    refine ⟨n, rest, congrArg some htake, hrest, fun hempty => ?_⟩
    rw [hempty, List.append_nil] at hbytes
    have hall := hwhole 0
    rw [LogRecord.filter_layout_of_length_le (Nat.le_of_eq (congrArg List.length hbytes.symm))] at hall
    rw [← LogRecord.layout_snd 0 (records.take n), hall, LogRecord.layout_snd]
  . rw [hempty, List.append_nil] at hbytes
    refine ⟨records.length, torn, ?_, htorn, fun _ => List.take_length⟩
    rw [List.take_length]
    exact congrArg some hbytes

theorem Frayed.reopen (h : log.Frayed records durable) (hd : log.Describes records) {v : Volume}
    (hv : v.Sound) (hfile : v.find? logName = log.disk.find? logName)
    (hread : readSnapshot v = .ok snapshot v) (hle : log.snapshotIndex ≤ (snapshot.map (·.index)).getD 0)
    (policy : SyncPolicy)
    : ∃ log' held, OpensAs policy v snapshot
          (held.filter ((snapshot.map (·.index)).getD 0 < ·.index)) log' ∧
        held <+: log.entries ∧ (log.writer.buffer = [] → held = log.entries) := by
  obtain ⟨n, rest, hwritten, hrest, hall⟩ := h.content hd.fit
  have hcontent : (v.content? logName).getD [] = (records.take n).flatMap LogRecord.encode ++ rest := by
    unfold Volume.content? at hwritten ⊢
    rw [hfile, hwritten]
    rfl
  obtain ⟨m, hselects, hwhole⟩ := hd.selects.take n
  have hselects := hselects.raise hle
  rw [LogRecord.layout_take, show ∀ b i : Nat, b ≤ i → b + 0 - i = 0 by omega] at hselects
  . obtain ⟨log', hopen, hopens, hentries⟩ := open_of_selects hv hread hcontent
      (fun e he => hd.fit e (List.mem_of_mem_take he)) hrest policy hselects
    refine ⟨log', log.entries.take m, ⟨hopen, ?_, hopens.snapshotIndex, hopens.snapshotTerm, ?_⟩,
      List.take_prefix _ _, ?_⟩
    . exact onDisk_of_ok (readSnapshot_congr hread hopens.file)
    . have htake : log.entries.take m = ((log.offsets.zip log.entries).take m).map (·.2) := by
        rw [List.map_take, hd.map_snd]
      rw [hentries, htake, List.filter_map]
      rfl
    . intro hempty
      have hlength := congrArg List.length (hall hempty)
      rw [List.length_take] at hlength
      have hkept := hwhole (by rw [LogRecord.length_layout]; omega)
      have hmap := congrArg (List.map (·.2)) hkept
      rwa [List.map_take, hd.map_snd] at hmap
  . exact hle

theorem Coherent.reopen (h : log.Coherent records durable) {v : Volume} (hv : v.Sound)
    (hfile : v.find? logName = log.disk.find? logName) (hread : readSnapshot v = .ok snapshot v)
    (hle : log.snapshotIndex ≤ (snapshot.map (·.index)).getD 0) (policy : SyncPolicy)
    : ∃ log' held, OpensAs policy v snapshot
          (held.filter ((snapshot.map (·.index)).getD 0 < ·.index)) log' ∧
        held <+: log.entries ∧ (log.writer.buffer = [] → held = log.entries) :=
  h.carries.frayed.reopen h.toDescribes hv hfile hread hle policy

/-- What the directory opens as when the process died in the installation of a snapshot. Entries that
were still in the buffer of the writer may be missing at the end. -/
inductive Interrupted (policy : SyncPolicy) (log : LogStore) (index term : Nat) (data : Bytes)
    (directory : Volume) : Prop where
  | before {snapshot log' held} (stored : storedSnapshot log = .ok snapshot log)
      (opens : OpensAs policy directory snapshot held log')
      (part : held <+: log.entries) (whole : log.writer.buffer = [] → held = log.entries)
  | after {log' held} (opens : OpensAs policy directory (some ⟨index, term, data⟩) held log')
      (part : held <+: log.retained index term)
      (whole : log.writer.buffer = [] → held = log.retained index term)
  | mixed {log' held} (disagrees : log.termAt? index ≠ some term) (beyond : index < log.lastIndex)
      (opens : OpensAs policy directory (some ⟨index, term, data⟩) (held.filter (index < ·.index)) log')
      (part : held <+: log.entries) (whole : log.writer.buffer = [] → held = log.entries)

theorem Describes.filter_self (h : log.Describes records) {held : List LogEntry}
    (hheld : held <+: log.entries)
    : held.filter (log.snapshotIndex < ·.index) = held := by
  rw [List.filter_eq_self]
  intro e he
  exact decide_eq_true (h.follows.lt_of_mem (hheld.subset he))

theorem Describes.filter_beyond (h : log.Describes records) (hlast : log.lastIndex ≤ index)
    {held : List LogEntry} (hheld : held <+: log.entries)
    : held.filter (index < ·.index) = [] := by
  rw [List.filter_eq_nil_iff]
  intro e he
  obtain ⟨k, hk, rfl⟩ := List.mem_iff_getElem.1 (hheld.subset he)
  have hindex := h.follows.index_eq hk
  rw [lastIndex_eq h.follows] at hlast
  simp
  omega

theorem Describes.interrupted (h : log.Describes records) {v : Volume} {held : List LogEntry}
    {policy : SyncPolicy}
    (hopens : OpensAs policy v (some ⟨index, term, data⟩) (held.filter (index < ·.index)) log')
    (hheld : held <+: log.entries) (hwhole : log.writer.buffer = [] → held = log.entries)
    : Interrupted policy log index term data v := by
  by_cases hterm : log.termAt? index = some term
  . have hretained : log.retained index term = log.entries.filter (index < ·.index) := if_pos hterm
    refine .after hopens ?_ ?_
    . rw [hretained]
      exact hheld.filter _
    . intro hempty
      rw [hretained, hwhole hempty]
  by_cases hlast : index < log.lastIndex
  . exact .mixed hterm hlast hopens hheld hwhole
  . -- nothing is left of the log either way
    have hnone := h.filter_beyond (Nat.not_lt.1 hlast) hheld
    have hretained : log.retained index term = [] := if_neg hterm
    refine .after hopens ?_ ?_
    . rw [hnone]
      exact List.nil_prefix
    . intro _
      rw [hnone, hretained]

theorem Installs.interrupted (h : log.Installs log' index term data records durable)
    (hcoherent : log.Coherent records durable) (hk : log.Knows snapshot)
    (hrange : Snapshot.Fits ⟨index, term, data⟩ ∧ data.length < 2 ^ 64) (policy : SyncPolicy)
    : Interrupted policy log index term data log'.disk.calmed := by
  have hnew : log'.disk.Holds snapshotName (some (Snapshot.encode ⟨index, term, data⟩)) →
      readSnapshot log'.disk.calmed = .ok (some ⟨index, term, data⟩) log'.disk.calmed := by
    intro hsnapshot
    rw [readSnapshot_encode (v := log'.disk.calmed) hrange.1 hsnapshot, if_pos hrange.2]
  cases h with
  | before keeps entries buffer coherent =>
    have hread : readSnapshot log'.disk.calmed = .ok snapshot log'.disk.calmed :=
      readSnapshot_congr hk.reads keeps.snapshot
    have hindex : log'.snapshotIndex = (snapshot.map (·.index)).getD 0 :=
      keeps.snapshotIndex.trans hk.snapshotIndex
    obtain ⟨log₁, held, hopens, hheld, hwhole⟩ :=
      coherent.reopen coherent.carries.sound rfl hread (Nat.le_of_eq hindex) policy
    rw [← hindex, coherent.filter_self hheld] at hopens
    rw [entries] at hheld
    refine .before hk.storedSnapshot hopens hheld ?_
    intro hempty
    rw [hwhole (buffer.trans hempty), entries]
  | between le plan faulty policy' snapshotIndex entries buffer coherent hsnapshot =>
    obtain ⟨log₁, held, hopens, hheld, hwhole⟩ := coherent.reopen coherent.carries.sound rfl
      (hnew hsnapshot) (Nat.le_trans (Nat.le_of_eq snapshotIndex) le) policy
    rw [entries] at hheld hwhole
    exact hcoherent.interrupted hopens hheld fun hempty => hwhole (buffer hempty)
  | after le plan policy' snapshotIndex snapshotTerm entries describes sound file writer hsnapshot =>
    obtain ⟨id, hfile⟩ := file
    have hcontent : (log'.disk.calmed.content? logName).getD []
        = (log.retained index term).flatMap LogRecord.encode ++ [] := by
      rw [content?_of_file (v := log'.disk.calmed) hfile, List.append_nil]
      rfl
    have hselects := describes.selects
    rw [snapshotIndex] at hselects
    obtain ⟨log₁, hopen, hopens, hentries⟩ :=
      open_of_selects sound (hnew hsnapshot) hcontent describes.fit rfl policy hselects
    rw [describes.map_snd, entries] at hentries
    refine .after ⟨hopen, ?_, hopens.snapshotIndex, hopens.snapshotTerm, hentries⟩
      (List.prefix_refl _) fun _ => rfl
    exact onDisk_of_ok (readSnapshot_congr (hnew hsnapshot) hopens.file)

end LogStore

/-- Whenever the process dies in the installation of a snapshot (the step that fails is its last), the
directory opens as before the call or as after it, but for a log that goes on behind the snapshot without
having its entry. -/
theorem putSnapshot_interrupted {v v' : Volume} {policy₀ : SyncPolicy} {log₀ log' : LogStore}
    (hv : v.calmed.Sound) (hopen : LogStore.open policy₀ v = .ok log₀ v') {calls : List LogCall}
    (hrange : ∀ call ∈ calls, call.InRange)
    (hstep : ∀ k ≤ calls.length, (log₀.run (calls.take k)).InStep) {index term : Nat} {data : Bytes}
    (hsnapshot : Snapshot.Fits ⟨index, term, data⟩ ∧ data.length < 2 ^ 64) {e : Error}
    (hdies : LogStore.putSnapshot index term data (log₀.run calls) = .error e log') (policy : SyncPolicy)
    : LogStore.Interrupted policy (log₀.run calls) index term data log'.disk.calmed := by
  obtain ⟨_, records₀, _, -, -, -, hopens⟩ := LogStore.opens_of_ok hv hopen
  obtain ⟨durable₀, hcoherent₀, -⟩ := hopens.coherent
  obtain ⟨records, durable, hcoherent⟩ := hcoherent₀.run hrange (Nat.le_refl _) hstep
  have hlast := hstep calls.length (Nat.le_refl _)
  rw [List.take_length] at hcoherent hlast
  obtain ⟨snapshot, hknows⟩ := hlast.knows
  have hinstalls := LogStore.yields_putSnapshot hcoherent index term data
  rw [hdies] at hinstalls
  exact hinstalls.1.interrupted hcoherent hknows hsnapshot policy

namespace Halfway

-- An append takes two steps; four more put a snapshot into its place, and the one behind them fails.
def plan : List (Option Fault) :=
  [none, none, none, none, none, none, some {}]

def log : LogStore :=
  .fresh .always plan

def calls : List LogCall :=
  [.append [⟨1, 1, [1]⟩, ⟨1, 2, [2]⟩, ⟨1, 3, [3]⟩]]

end Halfway

theorem putSnapshot_interrupted_after
    : ∃ e log', LogStore.putSnapshot 2 1 [7] (Halfway.log.run Halfway.calls) = .error e log' ∧
        LogStore.Interrupted .never (Halfway.log.run Halfway.calls) 2 1 [7] log'.disk.calmed := by
  have hdead : (EStateM.failed? (LogStore.putSnapshot 2 1 [7] (Halfway.log.run Halfway.calls))).isSome := by
    decide +kernel
  obtain ⟨log', hfailed⟩ := Option.isSome_iff_exists.1 hdead
  obtain ⟨e, herror⟩ := EStateM.eq_error_of_failed? hfailed
  have hsound : (Volume.calmed { plan := none :: none :: Halfway.plan }).Sound := Volume.sound_empty
  have hrange : ∀ call ∈ Halfway.calls, call.InRange := by
    decide
  have hstep : ∀ k ≤ Halfway.calls.length, (Halfway.log.run (Halfway.calls.take k)).InStep := by
    decide +kernel
  exact ⟨e, log', herror, putSnapshot_interrupted hsound (LogStore.open_planned .always Halfway.plan) hrange
    hstep (by decide) herror .never⟩

theorem suffix_survives_interruption
    : ∃ e log' log'' v', LogStore.putSnapshot 2 5 [7] (Halfway.log.run Halfway.calls) = .error e log' ∧
        LogStore.open .always log'.disk.calmed = .ok log'' v' ∧
        log''.snapshotIndex = 2 ∧ log''.snapshotTerm = 5 ∧ log''.entries = [⟨1, 3, [3]⟩] ∧
        (Halfway.log.run Halfway.calls).snapshotIndex = 0 ∧
        (Halfway.log.run Halfway.calls).retained 2 5 = [] := by
  have hdead : (EStateM.failed? (LogStore.putSnapshot 2 5 [7] (Halfway.log.run Halfway.calls))).bind
      (fun log' => (EStateM.value? (LogStore.open .always log'.disk.calmed)).map fun log'' =>
        (log''.snapshotIndex, log''.snapshotTerm, log''.entries)) = some (2, 5, [⟨1, 3, [3]⟩]) := by
    decide +kernel
  obtain ⟨log', hfailed, hopened⟩ := Option.bind_eq_some_iff.1 hdead
  obtain ⟨log'', hvalue, hlog⟩ := Option.map_eq_some_iff.1 hopened
  obtain ⟨e, herror⟩ := EStateM.eq_error_of_failed? hfailed
  obtain ⟨v', hopen⟩ := EStateM.eq_ok_of_value? hvalue
  obtain ⟨hindex, hlog⟩ := Prod.mk.inj hlog
  obtain ⟨hterm, hentries⟩ := Prod.mk.inj hlog
  exact ⟨e, log', log'', v', herror, hopen, hindex, hterm, hentries, by decide +kernel, by decide +kernel⟩

end ReplicatedStore
