import ReplicatedStore.Proofs.Storage.Selection
import ReplicatedStore.Proofs.Storage.Steps

/-!
An open log beside the bytes of its file and its buffer, when steps may fail: which records they are,
which of them the memory knows, and what an append makes of them.
-/

namespace ReplicatedStore

structure LogEntry.InRange (entry : LogEntry) : Prop where
  term : entry.term < 2 ^ 64
  index : entry.index < 2 ^ 64

instance (entry : LogEntry) : Decidable entry.InRange :=
  decidable_of_iff (entry.term < 2 ^ 64 ∧ entry.index < 2 ^ 64)
    ⟨fun h => ⟨h.1, h.2⟩, fun h => ⟨h.term, h.index⟩⟩

namespace LogStore

structure Carries (log : LogStore) (bytes durable : Bytes) : Prop where
  sound : log.disk.calmed.Sound
  file : ∃ written, log.disk.find? logName = some (.file ⟨log.writer.file, written, durable⟩) ∧
    written ++ log.writer.buffer = bytes

structure Describes (log : LogStore) (records : List LogEntry) : Prop where
  fit : ∀ e ∈ records, e.Fits
  selects : Selects log.snapshotIndex 0 (LogRecord.layout 0 records) (log.offsets.zip log.entries)
  parallel : log.offsets.length = log.entries.length
  fileLength : log.fileLength = (records.flatMap LogRecord.encode).length

/-- The memory, the buffer and the file agree. -/
structure Coherent (log : LogStore) (records : List LogEntry) (durable : Bytes) : Prop
    extends log.Describes records where
  carries : log.Carries (records.flatMap LogRecord.encode) durable

def Aligned (log : LogStore) : Prop :=
  ∃ content durable, log.disk.find? logName = some (.file ⟨log.writer.file, content, durable⟩) ∧
    content.length + log.writer.buffer.length = log.fileLength

structure Stands (log : LogStore) (records : List LogEntry) (durable : Bytes)
    (plan : List (Option Fault)) : Prop extends log.Describes records where
  carries : log.Carries (records.flatMap LogRecord.encode) durable ∨
    plan ≠ [] ∧ ∃ bytes, log.Carries bytes durable ∧
      bytes.length ≠ (records.flatMap LogRecord.encode).length

def Frayed (log : LogStore) (records : List LogEntry) (durable : Bytes) : Prop :=
  ∃ torn, log.Carries (records.flatMap LogRecord.encode ++ torn) durable ∧ LogRecord.read? torn = none ∧
    (torn = [] ∨ log.writer.buffer = [])

structure Spools (log log' : LogStore) : Prop where
  memory : log' = { log with
    disk := log'.disk
    writer := { log.writer with buffer := log'.writer.buffer } }
  plan : log'.disk.plan <:+ log.disk.plan
  snapshot : log'.disk.find? snapshotName = log.disk.find? snapshotName

structure Keeps (log log' : LogStore) : Prop where
  snapshotIndex : log'.snapshotIndex = log.snapshotIndex
  snapshotTerm : log'.snapshotTerm = log.snapshotTerm
  policy : log'.policy = log.policy
  plan : log'.disk.plan <:+ log.disk.plan
  snapshot : log'.disk.find? snapshotName = log.disk.find? snapshotName

structure Extends (log log' : LogStore) (added : List LogEntry) : Prop extends log.Keeps log' where
  entries : log'.entries = log.entries ++ added

structure Admits (log : LogStore) (added : List LogEntry) : Prop where
  follows : Follows log.lastIndex added
  short : ∀ e ∈ added, e.command.length ≤ greatestCommand

variable {log log' log'' : LogStore} {bytes durable : Bytes} {records added added' : List LogEntry}
  {plan plan' : List (Option Fault)}

theorem Spools.refl (log : LogStore) : log.Spools log where
  memory := rfl
  plan := List.suffix_refl _
  snapshot := rfl

theorem Spools.trans (h : log.Spools log') (h' : log'.Spools log'') : log.Spools log'' where
  memory := by
    rw [h'.memory, h.memory]
  plan := h'.plan.trans h.plan
  snapshot := h'.snapshot.trans h.snapshot

theorem Spools.plan_ne (h : log.Spools log') (hplan : log'.disk.plan ≠ []) : log.disk.plan ≠ [] :=
  h.plan.ne_nil hplan

theorem spools_of_updates {disk : Volume} {file : StoredFile} (h : log.disk.Updates disk logName file)
    (buffer : Bytes)
    : log.Spools { log with disk, writer := { log.writer with buffer } } where
  memory := rfl
  plan := h.plan
  snapshot := h.other _ snapshotName_ne.1

theorem Spools.describes (h : log.Spools log') (hd : log.Describes records) : log'.Describes records := by
  rw [h.memory]
  exact ⟨hd.fit, hd.selects, hd.parallel, hd.fileLength⟩

theorem Spools.keeps (h : log.Spools log') : log.Keeps log' := by
  refine ⟨?_, ?_, ?_, h.plan, h.snapshot⟩
  . rw [h.memory]
  . rw [h.memory]
  . rw [h.memory]

theorem Spools.extends (h : log.Spools log') : log.Extends log' [] := by
  refine { h.keeps with entries := ?_ }
  rw [h.memory, List.append_nil]

theorem Keeps.trans (h : log.Keeps log') (h' : log'.Keeps log'') : log.Keeps log'' where
  snapshotIndex := h'.snapshotIndex.trans h.snapshotIndex
  snapshotTerm := h'.snapshotTerm.trans h.snapshotTerm
  policy := h'.policy.trans h.policy
  plan := h'.plan.trans h.plan
  snapshot := h'.snapshot.trans h.snapshot

theorem Extends.trans (h : log.Extends log' added) (h' : log'.Extends log'' added')
    : log.Extends log'' (added ++ added') := by
  refine { h.toKeeps.trans h'.toKeeps with entries := ?_ }
  rw [h'.entries, h.entries, List.append_assoc]

theorem Describes.map_snd (h : log.Describes records)
    : (log.offsets.zip log.entries).map (·.2) = log.entries :=
  List.map_snd_zip (Nat.le_of_eq h.parallel.symm)

theorem Describes.follows (h : log.Describes records) : Follows log.snapshotIndex log.entries := by
  have := h.selects.follows
  rwa [h.map_snd] at this

theorem Coherent.stands (h : log.Coherent records durable) (plan : List (Option Fault))
    : log.Stands records durable plan :=
  { h.toDescribes with carries := .inl h.carries }

theorem Carries.frayed (h : log.Carries (records.flatMap LogRecord.encode) durable)
    : log.Frayed records durable := by
  refine ⟨[], ?_, rfl, .inl rfl⟩
  rw [List.append_nil]
  exact h

theorem Admits.take (h : log.Admits added) (n : Nat) : log.Admits (added.take n) where
  follows := h.follows.take n
  short e he := h.short e (List.mem_of_mem_take he)

theorem Stands.of_suffix (h : log.Stands records durable plan) (hsuffix : plan <:+ plan')
    : log.Stands records durable plan' := by
  exact { h.toDescribes with carries := h.carries.imp_right (And.imp_left hsuffix.ne_nil) }

theorem Stands.coherent (h : log.Stands records durable plan) (hwhole : plan = [] ∨ log.Aligned)
    : log.Coherent records durable := by
  refine { h.toDescribes with carries := ?_ }
  rcases h.carries with hcarries | ⟨hplan, bytes, hcarries, hlength⟩
  . exact hcarries
  . exfalso
    rcases hwhole with hnil | ⟨content, durable', hfile, halign⟩
    . exact hplan hnil
    . obtain ⟨written, hfile', rfl⟩ := hcarries.file
      rw [hfile'] at hfile
      cases hfile
      rw [List.length_append, halign, h.fileLength] at hlength
      exact hlength rfl

theorem yields_onDisk {α : Type} {step : Disk α} {Q : α → Volume → Prop} {E : Volume → Prop}
    (h : EStateM.Yields Q E (step log.disk))
    : EStateM.Yields (fun a log' => ∃ disk, log' = { log with disk } ∧ Q a disk)
        (fun log' => ∃ disk, log' = { log with disk } ∧ E disk) (onDisk step log) := by
  unfold onDisk
  cases hr : step log.disk with
  | ok a disk =>
    rw [hr] at h
    exact ⟨disk, rfl, h⟩
  | error e disk =>
    rw [hr] at h
    exact ⟨disk, rfl, h⟩

theorem yields_flush (h : log.Carries bytes durable)
    : EStateM.Yields
        (fun _ log' => log.Spools log' ∧ log'.Carries bytes durable ∧ log'.writer.buffer = [])
        (fun log' => log.Spools log' ∧ log'.Carries bytes durable ∧ log.disk.plan ≠ [] ∧
          log.writer.buffer ≠ [])
        (flush log) := by
  obtain ⟨written, hfile, hbytes⟩ := h.file
  by_cases hempty : log.writer.buffer = []
  . rw [flush_of_empty hempty]
    exact ⟨.refl log, h, hempty⟩
  . unfold flush
    rw [EStateM.bind_get]
    dsimp only
    rw [if_neg (by simpa using hempty)]
    apply (yields_onDisk (Disk.yields_append h.sound hfile log.writer.buffer)).bind
    . rintro _ ⟨_, _, hfalse⟩
      exact hfalse.elim
    rintro ⟨stored, fault⟩ _ ⟨disk, rfl, hupdates, houtcome⟩
    rw [EStateM.bind_modify]
    have hspools := spools_of_updates hupdates (log.writer.buffer.drop stored)
    have hcarries : Carries { log with
        disk
        writer := { log.writer with buffer := log.writer.buffer.drop stored } } bytes durable := by
      refine ⟨hupdates.sound, _, hupdates.self, ?_⟩
      dsimp only
      rw [List.append_assoc, List.take_append_drop]
      exact hbytes
    rcases houtcome with hwhole | ⟨-, hfault, hplan⟩
    . cases hwhole
      exact ⟨hspools, hcarries, List.drop_length⟩
    . cases hfault
      exact ⟨hspools, hcarries, hplan, hempty⟩

theorem yields_put (h : log.Carries bytes durable) {record : Bytes}
    (hroom : LogWriter.capacity ≤ record.length → log.writer.buffer = [])
    : EStateM.Yields (fun _ log' => log.Spools log' ∧ log'.Carries (bytes ++ record) durable)
        (fun log' => log.Spools log' ∧ log.disk.plan ≠ [] ∧ ∃ k < record.length,
          log'.Carries (bytes ++ record.take k) durable ∧ (k = 0 ∨ log'.writer.buffer = []))
        (put record log) := by
  obtain ⟨written, hfile, hbytes⟩ := h.file
  unfold put
  rw [EStateM.bind_get]
  dsimp only
  split
  . next hle =>
    rw [hroom hle, List.append_nil] at hbytes
    apply (yields_onDisk (Disk.yields_append h.sound hfile record)).bind
    . rintro _ ⟨_, _, hfalse⟩
      exact hfalse.elim
    rintro ⟨stored, fault⟩ _ ⟨disk, rfl, hupdates, houtcome⟩
    have hspools := spools_of_updates hupdates log.writer.buffer
    have hcarries : Carries { log with disk } (bytes ++ record.take stored) durable := by
      refine ⟨hupdates.sound, _, hupdates.self, ?_⟩
      dsimp only
      rw [hroom hle, List.append_nil, hbytes]
    rcases houtcome with hwhole | ⟨hpart, hfault, hplan⟩
    . cases hwhole
      rw [List.take_length] at hcarries
      exact ⟨hspools, hcarries⟩
    . cases hfault
      exact ⟨hspools, hplan, stored, hpart, hcarries, .inr (hroom hle)⟩
  . refine ⟨⟨rfl, List.suffix_refl _, rfl⟩, h.sound, written, hfile, ?_⟩
    dsimp only
    rw [← List.append_assoc, hbytes]

theorem yields_write (h : log.Carries bytes durable) (record : Bytes)
    : EStateM.Yields (fun _ log' => log.Spools log' ∧ log'.Carries (bytes ++ record) durable)
        (fun log' => log.Spools log' ∧ log.disk.plan ≠ [] ∧ ∃ k < record.length,
          log'.Carries (bytes ++ record.take k) durable ∧ (k = 0 ∨ log'.writer.buffer = []))
        (write record log) := by
  rw [write_eq]
  split
  . next hfull =>
    apply (yields_flush h).bind
    . rintro log₁ ⟨hspools, hcarries, hplan, -⟩
      refine ⟨hspools, hplan, 0, Nat.zero_lt_of_lt hfull, ?_, .inl rfl⟩
      rw [List.take_zero, List.append_nil]
      exact hcarries
    rintro _ log₁ ⟨hspools, hcarries, hempty⟩
    apply (yields_put hcarries fun _ => hempty).imp
    . rintro _ log₂ ⟨hspools', hcarries'⟩
      exact ⟨hspools.trans hspools', hcarries'⟩
    . rintro log₂ ⟨hspools', hplan, hcarries'⟩
      exact ⟨hspools.trans hspools', hspools.plan_ne hplan, hcarries'⟩
  . next hroom => exact yields_put h (unbuffered_of_room hroom)

theorem yields_force (h : log.Carries bytes durable)
    : EStateM.Yields (fun _ log' => log.Spools log' ∧ log'.Carries bytes bytes)
        (fun log' => log.Spools log' ∧ log'.Carries bytes durable ∧ log.disk.plan ≠ [])
        (sync log) := by
  unfold sync
  apply (yields_flush h).bind
  . exact fun _ h => ⟨h.1, h.2.1, h.2.2.1⟩
  rintro _ log₁ ⟨hspools, hcarries, hempty⟩
  obtain ⟨written, hfile, hbytes⟩ := hcarries.file
  rw [EStateM.bind_get]
  apply (yields_onDisk (Disk.yields_sync hcarries.sound hfile)).imp
  . rintro _ _ ⟨disk, rfl, hupdates⟩
    refine ⟨hspools.trans (spools_of_updates hupdates _), hupdates.sound, written, ?_, hbytes⟩
    rw [hempty, List.append_nil] at hbytes
    rw [hupdates.self, hbytes]
  . rintro _ ⟨disk, rfl, hupdates, hplan⟩
    refine ⟨hspools.trans (spools_of_updates hupdates _), ?_, hspools.plan_ne hplan⟩
    exact ⟨hupdates.sound, written, hupdates.self, hbytes⟩

theorem settle_eq (log : LogStore)
    : settle log = match log.policy with
        | .always => sync log
        | .interval => flush log
        | .never => .ok () log := by
  unfold settle
  rw [EStateM.bind_get]
  cases log.policy <;> rfl

theorem yields_settle (h : log.Carries bytes durable)
    : EStateM.Yields
        (fun _ log' => log.Spools log' ∧ ∃ durable', log'.Carries bytes durable' ∧
          (log.policy = .always → durable' = bytes))
        (fun log' => log.Spools log' ∧ log'.Carries bytes durable ∧ log.disk.plan ≠ [])
        (settle log) := by
  rw [settle_eq]
  cases hpolicy : log.policy with
  | always =>
    apply (yields_force h).imp
    . rintro _ log' ⟨hspools, hcarries⟩
      exact ⟨hspools, bytes, hcarries, fun _ => rfl⟩
    . exact fun _ h => h
  | interval =>
    apply (yields_flush h).imp
    . rintro _ log' ⟨hspools, hcarries, -⟩
      refine ⟨hspools, durable, hcarries, ?_⟩
      intro halways
      cases halways
    . exact fun _ h => ⟨h.1, h.2.1, h.2.2.1⟩
  | never =>
    refine ⟨.refl log, durable, h, ?_⟩
    intro halways
    cases halways

theorem Extends.refl (log : LogStore) : log.Extends log [] :=
  (Spools.refl log).extends

theorem Extends.lastIndex_eq (h : log.Extends log' added) (hfollows : Follows log.snapshotIndex log.entries)
    (hfollows' : Follows log'.snapshotIndex log'.entries)
    : log'.lastIndex = log.lastIndex + added.length := by
  rw [LogStore.lastIndex_eq hfollows, LogStore.lastIndex_eq hfollows', h.snapshotIndex, h.entries,
    List.length_append, Nat.add_assoc]

theorem Describes.append {entry : LogEntry} (h : log.Describes records)
    (hindex : entry.index = log.lastIndex + 1) (hfit : entry.Fits)
    : Describes { log with
        offsets := log.offsets ++ [log.fileLength]
        fileLength := log.fileLength + LogRecord.size entry
        entries := log.entries ++ [entry] } (records ++ [entry]) where
  fit e he := by
    rcases List.mem_append.1 he with he | he
    . exact h.fit e he
    . rw [List.mem_singleton.1 he]
      exact hfit
  selects := by
    rw [lastIndex_eq h.follows] at hindex
    dsimp only
    rw [LogRecord.layout_append, List.zip_append h.parallel, ← h.fileLength, Nat.zero_add]
    apply h.selects.append
    rw [List.length_zip, h.parallel, Nat.min_self, Nat.zero_add]
    exact .keep hindex .nil
  parallel := by
    dsimp only
    rw [List.length_append, List.length_append, h.parallel]
    rfl
  fileLength := by
    dsimp only
    rw [h.fileLength, List.flatMap_append, List.length_append, List.flatMap_singleton, LogRecord.size_eq]

theorem yields_appendOne {entry : LogEntry} (h : log.Coherent records durable) (hrange : entry.InRange)
    : EStateM.Yields
        (fun _ log' => log.Extends log' [entry] ∧ log'.Coherent (records ++ [entry]) durable)
        (fun log' => log.Extends log' [] ∧ log'.Stands records durable log.disk.plan ∧
          log'.Frayed records durable ∧ (log.disk.plan = [] → ¬ log.Admits [entry]))
        (appendOne entry log) := by
  unfold appendOne
  rw [EStateM.bind_get]
  dsimp only
  split
  . next hindex => exact ⟨.refl log, h.stands _, h.carries.frayed, fun _ hadmits => hindex hadmits.follows.1⟩
  . next hindex =>
    split
    . next hlong =>
      refine ⟨.refl log, h.stands _, h.carries.frayed, fun _ hadmits => ?_⟩
      exact Nat.not_le.2 hlong (hadmits.short entry (List.mem_singleton_self _))
    . next hcommand =>
      have hindex : entry.index = log.lastIndex + 1 := Decidable.not_not.1 hindex
      have hfit : entry.Fits := ⟨hrange.term, hrange.index, Nat.not_lt.1 hcommand⟩
      apply (yields_write h.carries (LogRecord.encode entry)).bind
      . rintro log' ⟨hspools, hplan, k, hk, hcarries, hbuffer⟩
        -- a record that is cut short reads as none
        have htorn : LogRecord.read? ((LogRecord.encode entry).take k) = none := by
          rw [LogRecord.size_eq] at hk
          have := LogRecord.read?_take hfit hk []
          rwa [List.append_nil] at this
        refine ⟨hspools.extends, { hspools.describes h.toDescribes with carries := ?_ },
          ⟨_, hcarries, htorn, ?_⟩, fun hcalm => (hplan hcalm).elim⟩
        . cases k with
          | zero =>
            rw [List.take_zero, List.append_nil] at hcarries
            exact .inl hcarries
          | succ k =>
            refine .inr ⟨hplan, _, hcarries, ?_⟩
            rw [List.length_append, List.length_take]
            omega
        . apply hbuffer.imp_left
          rintro rfl
          rfl
      . rintro _ log' ⟨hspools, hcarries⟩
        have hmemory := hspools.memory
        refine ⟨⟨⟨?_, ?_, ?_, hspools.plan, hspools.snapshot⟩, ?_⟩, ?_⟩
        . rw [hmemory]
        . rw [hmemory]
        . rw [hmemory]
        . rw [hmemory]
        . have hlast : log'.lastIndex = log.lastIndex := by
            rw [hmemory]
            rfl
          refine { (hspools.describes h.toDescribes).append (by rw [hlast, hindex]) hfit with
            carries := ?_ }
          rw [List.flatMap_append, List.flatMap_singleton]
          exact ⟨hcarries.sound, hcarries.file⟩

theorem yields_appendAll (h : log.Coherent records durable) (hrange : ∀ e ∈ added, e.InRange)
    : EStateM.Yields
        (fun _ log' => log.Extends log' added ∧ log'.Coherent (records ++ added) durable)
        (fun log' => ∃ n, log.Extends log' (added.take n) ∧
          log'.Stands (records ++ added.take n) durable log.disk.plan ∧
          log'.Frayed (records ++ added.take n) durable ∧
          (log.disk.plan = [] → ¬ log.Admits (added.take (n + 1))))
        (added.forM appendOne log) := by
  induction added generalizing log records with
  | nil =>
    rw [List.append_nil]
    exact ⟨.refl log, h⟩
  | cons entry rest ih =>
    unfold List.forM
    apply (yields_appendOne h (hrange entry List.mem_cons_self)).bind
    . rintro log₁ ⟨hextends, hstands, hfrayed, hrefuses⟩
      refine ⟨0, hextends, ?_, ?_, hrefuses⟩
      . rw [List.take_zero, List.append_nil]
        exact hstands
      . rw [List.take_zero, List.append_nil]
        exact hfrayed
    rintro _ log₁ ⟨hextends, hcoherent⟩
    apply (ih hcoherent fun e he => hrange e (List.mem_cons_of_mem _ he)).imp
    . rintro _ log₂ ⟨hextends', hcoherent'⟩
      rw [List.append_assoc] at hcoherent'
      exact ⟨hextends.trans hextends', hcoherent'⟩
    . rintro log₂ ⟨n, hextends', hstands, hfrayed, hrefuses⟩
      rw [List.append_assoc] at hstands hfrayed
      refine ⟨n + 1, hextends.trans hextends', hstands.of_suffix hextends.plan, hfrayed, ?_⟩
      intro hcalm hadmits
      apply hrefuses (Volume.calm_of_suffix hextends.plan hcalm)
      refine ⟨?_, fun e he => hadmits.short e (List.mem_cons_of_mem _ he)⟩
      rw [hextends.lastIndex_eq h.follows hcoherent.follows]
      exact hadmits.follows.2

theorem yields_appendEntries (h : log.Coherent records durable) (hrange : ∀ e ∈ added, e.InRange)
    : EStateM.Yields
        (fun _ log' => log.Extends log' added ∧ (added = [] → log' = log) ∧
          ∃ durable', log'.Coherent (records ++ added) durable' ∧ (log.policy = .always → added ≠ [] →
            durable' = (records ++ added).flatMap LogRecord.encode))
        (fun log' => ∃ n, log.Extends log' (added.take n) ∧
          log'.Stands (records ++ added.take n) durable log.disk.plan ∧
          log'.Frayed (records ++ added.take n) durable ∧
          (log.disk.plan = [] → ¬ log.Admits (added.take (n + 1))))
        (append added log) := by
  unfold append
  split
  . next hempty =>
    have hnil : added = [] := by simpa using hempty
    rw [hnil, List.append_nil]
    exact ⟨.refl log, fun _ => rfl, durable, h, fun _ hne => (hne rfl).elim⟩
  . next hne =>
    have hne : added ≠ [] := by simpa using hne
    apply (yields_appendAll h hrange).bind
    . exact fun _ h => h
    rintro _ log₁ ⟨hextends, hcoherent⟩
    apply (yields_settle hcoherent.carries).imp
    . rintro _ log' ⟨hspools, durable', hcarries, hforced⟩
      have hextends' := hextends.trans hspools.extends
      rw [List.append_nil] at hextends'
      refine ⟨hextends', fun hnil => (hne hnil).elim, durable',
        { hspools.describes hcoherent.toDescribes with carries := hcarries }, ?_⟩
      intro halways _
      exact hforced (hextends.policy.trans halways)
    . rintro log' ⟨hspools, hcarries, hplan⟩
      have hextends' := hextends.trans hspools.extends
      rw [List.append_nil] at hextends'
      -- all of the entries are written before they are settled
      refine ⟨added.length, ?_, ?_, ?_, fun hcalm => ?_⟩
      . rw [List.take_length]
        exact hextends'
      . rw [List.take_length]
        exact { hspools.describes hcoherent.toDescribes with carries := .inl hcarries }
      . rw [List.take_length]
        exact hcarries.frayed
      . exact (hplan (Volume.calm_of_suffix hextends.plan hcalm)).elim

end LogStore

end ReplicatedStore
