import ReplicatedStore.Proofs.Storage.Directory

/-!
What the operations on an intact log come to when no step fails: the entries that are left, and the
files that go with them.
-/

namespace ReplicatedStore

namespace LogStore

variable {log : LogStore} {snapshot : Option Snapshot} {hard : HardState} {v' : Volume}
  {written durable : Bytes}

theorem onDisk_of_ok {α : Type} {step : Disk α} {a : α} (h : step log.disk = .ok a v')
    : onDisk step log = .ok a { log with disk := v' } := by
  unfold onDisk
  rw [h]

theorem onDisk_of_error {α : Type} {step : Disk α} {e : Error} (h : step log.disk = .error e v')
    : onDisk step log = .error e { log with disk := v' } := by
  unfold onDisk
  rw [h]

structure Writes (log : LogStore) (written durable : Bytes) : Prop where
  sound : log.disk.Sound
  file : log.disk.find? logName = some (.file ⟨log.writer.file, written, durable⟩)

theorem Intact.writes (h : log.Intact snapshot hard)
    : log.Writes (log.entries.flatMap LogRecord.encode) (log.entries.flatMap LogRecord.encode) where
  sound := h.stores.sound
  file := h.file

theorem flush_of_empty (h : log.writer.buffer = []) : flush log = .ok () log := by
  unfold flush
  rw [EStateM.bind_get]
  dsimp only
  rw [if_pos (by simp [h])]
  rfl

theorem flush_ok (h : log.Writes written durable)
    : ∃ v', flush log = .ok () { log with disk := v', writer := { log.writer with buffer := [] } } ∧
        log.disk.Sets v' logName ⟨log.writer.file, written ++ log.writer.buffer, durable⟩ := by
  by_cases hempty : log.writer.buffer = []
  . refine ⟨log.disk, ?_, h.sound, ?_, fun _ _ => rfl⟩
    . rw [flush_of_empty hempty, ← hempty]
    . rw [hempty, List.append_nil]
      exact h.file
  . unfold flush
    rw [EStateM.bind_get]
    dsimp only
    rw [if_neg (by simpa using hempty)]
    obtain ⟨v', happend, hset⟩ := Disk.append_file h.sound h.file log.writer.buffer
    refine ⟨v', ?_, hset⟩
    rw [EStateM.bind_of_ok (onDisk_of_ok happend)]
    dsimp only
    rw [EStateM.bind_modify, List.drop_length]
    rfl

def put (record : Bytes) : LogM Unit := do
  let writer := (← get).writer
  if LogWriter.capacity ≤ record.length then
    let (_, fault) ← onDisk (Disk.append writer.file record)
    if let some e := fault then throw e
  else
    modify fun log => { log with writer := { writer with buffer := writer.buffer ++ record } }

theorem write_eq (record : Bytes) (log : LogStore)
    : write record log
        =
      if LogWriter.capacity - log.writer.buffer.length < record.length then (do flush; put record) log
      else put record log := by
  unfold write
  rw [EStateM.bind_get]
  dsimp only
  split <;> rfl

theorem unbuffered_of_room {record : Bytes}
    (hroom : ¬ LogWriter.capacity - log.writer.buffer.length < record.length)
    (hle : LogWriter.capacity ≤ record.length)
    : log.writer.buffer = [] := by
  apply List.eq_nil_of_length_eq_zero
  unfold LogWriter.capacity at hroom hle
  omega

theorem put_ok (h : log.Writes written durable) {record : Bytes}
    (hroom : LogWriter.capacity ≤ record.length → log.writer.buffer = [])
    : ∃ v' written' buffer',
        put record log
            = .ok () { log with disk := v', writer := { file := log.writer.file, buffer := buffer' } } ∧
        log.disk.Sets v' logName ⟨log.writer.file, written', durable⟩ ∧
        written' ++ buffer' = written ++ log.writer.buffer ++ record := by
  unfold put
  rw [EStateM.bind_get]
  dsimp only
  split
  . next hle =>
    obtain ⟨v', happend, hset⟩ := Disk.append_file h.sound h.file record
    refine ⟨v', _, log.writer.buffer, ?_, hset, ?_⟩
    . rw [EStateM.bind_of_ok (onDisk_of_ok happend)]
      rfl
    . rw [hroom hle, List.append_nil, List.append_nil]
  . refine ⟨log.disk, written, log.writer.buffer ++ record, rfl, ?_, ?_⟩
    . exact ⟨h.sound, h.file, fun _ _ => rfl⟩
    . rw [List.append_assoc]

theorem write_ok (h : log.Writes written durable) (record : Bytes)
    : ∃ v' written' buffer',
        write record log
            = .ok () { log with disk := v', writer := { file := log.writer.file, buffer := buffer' } } ∧
        log.disk.Sets v' logName ⟨log.writer.file, written', durable⟩ ∧
        written' ++ buffer' = written ++ log.writer.buffer ++ record := by
  rw [write_eq]
  split
  . obtain ⟨v₁, hflush, hset₁⟩ := flush_ok h
    rw [EStateM.bind_of_ok hflush]
    have hwrites : Writes { log with disk := v₁, writer := { log.writer with buffer := [] } }
        (written ++ log.writer.buffer) durable := ⟨hset₁.sound, hset₁.self⟩
    obtain ⟨v', written', buffer', hput, hset, hbytes⟩ := put_ok hwrites
      (show LogWriter.capacity ≤ record.length → _ from fun _ => rfl)
    refine ⟨v', written', buffer', hput, hset₁.trans hset, ?_⟩
    rw [hbytes, List.append_nil]
  . next hroom => exact put_ok h (unbuffered_of_room hroom)

theorem appendOne_ok (h : log.Writes written durable) {entry : LogEntry}
    (hindex : entry.index = log.lastIndex + 1) (hfit : entry.Fits)
    : ∃ v' written' buffer',
        appendOne entry log
            = .ok () { log with
                disk := v'
                writer := { file := log.writer.file, buffer := buffer' }
                offsets := log.offsets ++ [log.fileLength]
                fileLength := log.fileLength + LogRecord.size entry
                entries := log.entries ++ [entry] } ∧
        log.disk.Sets v' logName ⟨log.writer.file, written', durable⟩ ∧
        written' ++ buffer' = written ++ log.writer.buffer ++ LogRecord.encode entry := by
  obtain ⟨v', written', buffer', hwrite, hset, hbytes⟩ := write_ok h (LogRecord.encode entry)
  refine ⟨v', written', buffer', ?_, hset, hbytes⟩
  have hcommand : ¬ greatestCommand < entry.command.length := Nat.not_lt.2 hfit.command
  unfold appendOne
  rw [EStateM.bind_get]
  dsimp only
  rw [if_neg (by simpa using hindex), if_neg hcommand]
  rw [EStateM.bind_of_ok hwrite]
  rfl

theorem appendAll_ok {entries : List LogEntry} (h : log.Writes written durable)
    (hfollows : Follows log.lastIndex entries) (hfit : ∀ e ∈ entries, e.Fits)
    : ∃ v' written' buffer',
        entries.forM appendOne log
            = .ok () { log with
                disk := v'
                writer := { file := log.writer.file, buffer := buffer' }
                offsets := log.offsets ++ offsetsOf log.fileLength entries
                fileLength := log.fileLength + (entries.flatMap LogRecord.encode).length
                entries := log.entries ++ entries } ∧
        log.disk.Sets v' logName ⟨log.writer.file, written', durable⟩ ∧
        written' ++ buffer' = written ++ log.writer.buffer ++ entries.flatMap LogRecord.encode := by
  -- the induction is on the entries; each one stands behind the last of those before it
  induction entries generalizing log written with
  | nil =>
    refine ⟨log.disk, written, log.writer.buffer, ?_, ⟨h.sound, h.file, fun _ _ => rfl⟩, ?_⟩
    . simp [offsetsOf]
      rfl
    . simp
  | cons e rest ih =>
    obtain ⟨v₁, written₁, buffer₁, hone, hset₁, hbytes₁⟩ := appendOne_ok h hfollows.1
      (hfit e List.mem_cons_self)
    have hwrites : Writes { log with
        disk := v₁
        writer := { file := log.writer.file, buffer := buffer₁ }
        offsets := log.offsets ++ [log.fileLength]
        fileLength := log.fileLength + LogRecord.size e
        entries := log.entries ++ [e] } written₁ durable := ⟨hset₁.sound, hset₁.self⟩
    obtain ⟨v', written', buffer', hall, hset, hbytes⟩ := ih hwrites
      (by simpa [lastIndex, hfollows.1] using hfollows.2)
      (fun e' he' => hfit e' (List.mem_cons_of_mem _ he'))
    refine ⟨v', written', buffer', ?_, hset₁.trans hset, ?_⟩
    . unfold List.forM
      rw [EStateM.bind_of_ok hone, hall]
      simp [offsetsOf, LogRecord.size_eq, Nat.add_assoc]
    . rw [hbytes, hbytes₁]
      simp

theorem settle_ok (h : log.Writes written durable) (hpolicy : log.policy = .always)
    : ∃ v', settle log = .ok () { log with disk := v', writer := { log.writer with buffer := [] } } ∧
        log.disk.Sets v' logName ⟨log.writer.file, written ++ log.writer.buffer,
          written ++ log.writer.buffer⟩ := by
  obtain ⟨v₁, hflush, hset₁⟩ := flush_ok h
  obtain ⟨v', hsync, hset⟩ := Disk.sync_file hset₁.sound hset₁.self
  refine ⟨v', ?_, hset₁.trans hset⟩
  have halways : settle log = (do flush; onDisk (Disk.sync (← get).writer.file)) log := by
    unfold settle
    rw [EStateM.bind_get, hpolicy]
  rw [halways, EStateM.bind_of_ok hflush, EStateM.bind_get]
  apply onDisk_of_ok
  exact hsync

theorem Intact.append {entries : List LogEntry} (h : log.Intact snapshot hard)
    (hfollows : Follows log.lastIndex entries) (hfit : ∀ e ∈ entries, e.Fits)
    : ∃ log', LogStore.append entries log = .ok () log' ∧ log'.Intact snapshot hard ∧
        log'.entries = log.entries ++ entries := by
  cases hentries : entries with
  | nil => exact ⟨log, rfl, h, by simp⟩
  | cons e rest =>
    rw [← hentries]
    obtain ⟨v₁, written₁, buffer₁, hall, hset₁, hbytes₁⟩ := appendAll_ok h.writes hfollows hfit
    have hwrites : Writes { log with
        disk := v₁
        writer := { file := log.writer.file, buffer := buffer₁ }
        offsets := log.offsets ++ offsetsOf log.fileLength entries
        fileLength := log.fileLength + (entries.flatMap LogRecord.encode).length
        entries := log.entries ++ entries } written₁ _ := ⟨hset₁.sound, hset₁.self⟩
    obtain ⟨v', hsettle, hset⟩ := settle_ok hwrites h.policy
    dsimp only at hset
    rw [hbytes₁, h.unbuffered, List.append_nil, ← List.flatMap_append] at hset
    refine ⟨{ log with
      disk := v'
      writer := { file := log.writer.file }
      offsets := log.offsets ++ offsetsOf log.fileLength entries
      fileLength := log.fileLength + (entries.flatMap LogRecord.encode).length
      entries := log.entries ++ entries }, ?_, ?_, rfl⟩
    . unfold LogStore.append
      rw [hentries, if_neg (by simp), ← hentries]
      rw [EStateM.bind_of_ok hall]
      exact hsettle
    . exact {
        stores := by
          apply h.stores.setLog (hset₁.trans hset)
          . apply h.stores.follows.append
            rw [← h.snapshotIndex, ← lastIndex_eq h.follows]
            exact hfollows
          . intro e' he'
            rcases List.mem_append.1 he' with he' | he'
            . exact h.stores.entriesFit e' he'
            . exact hfit e' he'
        policy := h.policy
        unbuffered := rfl
        file := hset.self
        offsets := by
          dsimp only
          rw [h.offsets, h.fileLength, offsetsOf_append, Nat.zero_add]
        fileLength := by
          dsimp only
          rw [h.fileLength, List.flatMap_append, List.length_append]
        snapshotIndex := h.snapshotIndex
        snapshotTerm := h.snapshotTerm }

theorem renewWriter_ok (log : LogStore) {file : StoredFile} (hs : log.disk.Sound)
    (hfile : log.disk.find? logName = some (.file file)) (hempty : log.writer.buffer = [])
    : renewWriter log = .ok () { log with writer := { file := file.id } } := by
  unfold renewWriter
  rw [EStateM.bind_of_ok (onDisk_of_ok (Disk.openExisting_file hs hfile)), EStateM.bind_get]
  dsimp only
  rw [if_neg (by simp [hempty])]
  rfl

theorem Intact.cuts {index : Nat} {kept : List LogEntry} (h : log.Intact snapshot hard)
    (hlow : log.snapshotIndex < index) (hhigh : index ≤ log.lastIndex)
    (hkept : kept = log.entries.take (log.position index))
    : ∃ v', LogStore.discardFrom index log
            = .ok () { log with
                disk := v'
                writer := { file := log.writer.file }
                entries := kept
                offsets := log.offsets.take (log.position index)
                fileLength := (kept.flatMap LogRecord.encode).length } ∧
        log.disk.Sets v' logName ⟨log.writer.file, kept.flatMap LogRecord.encode,
          kept.flatMap LogRecord.encode⟩ := by
  have hlast := lastIndex_eq h.follows
  have hposition : log.position index < log.entries.length := by
    unfold position
    omega
  have hoffset : log.offsets.getD (log.position index) 0 = (kept.flatMap LogRecord.encode).length := by
    rw [h.offsets, hkept]
    exact offset_eq log.entries hposition
  have hbytes : log.entries.flatMap LogRecord.encode
      = kept.flatMap LogRecord.encode ++
        (log.entries.drop (log.position index)).flatMap LogRecord.encode := by
    rw [hkept, ← List.flatMap_append, List.take_append_drop]
  have hshort : (kept.flatMap LogRecord.encode).length
      ≤ (log.entries.flatMap LogRecord.encode).length := by
    rw [hbytes, List.length_append]
    omega
  have hopen := Disk.openExisting_file h.stores.sound h.file
  obtain ⟨v₁, hcut, hset₁⟩ := Disk.setLength_file h.stores.sound h.file hshort
  obtain ⟨v₂, hsync, hset₂⟩ := Disk.sync_file hset₁.sound hset₁.self
  have hset := hset₁.trans hset₂
  dsimp only at hset
  rw [hbytes, List.take_left' rfl] at hset
  refine ⟨v₂, ?_, hset⟩
  unfold LogStore.discardFrom
  rw [EStateM.bind_get]
  dsimp only
  rw [if_neg (by omega), if_neg (by omega), hoffset]
  rw [EStateM.bind_of_ok (flush_of_empty h.unbuffered)]
  rw [EStateM.bind_of_ok (onDisk_of_ok hopen)]
  rw [EStateM.bind_of_ok (onDisk_of_ok hcut)]
  rw [EStateM.bind_of_ok (onDisk_of_ok hsync)]
  rw [EStateM.bind_modify, ← hkept]
  exact renewWriter_ok { log with
    disk := v₂
    entries := kept
    offsets := log.offsets.take (log.position index)
    fileLength := (kept.flatMap LogRecord.encode).length } hset.sound hset.self h.unbuffered

theorem Intact.discardFrom {index : Nat} (h : log.Intact snapshot hard)
    (hlow : log.snapshotIndex < index) (hhigh : index ≤ log.lastIndex)
    : ∃ log', LogStore.discardFrom index log = .ok () log' ∧ log'.Intact snapshot hard ∧
        log'.entries = log.entries.take (log.position index) := by
  obtain ⟨v', hdiscard, hset⟩ := h.cuts hlow hhigh rfl
  refine ⟨_, hdiscard, ?_, rfl⟩
  exact {
    stores := by
      apply h.stores.setLog hset
      . exact h.stores.follows.take _
      . intro e he
        exact h.stores.entriesFit e (List.mem_of_mem_take he)
    policy := h.policy
    unbuffered := rfl
    file := hset.self
    offsets := by
      dsimp only
      rw [h.offsets]
      exact take_offsetsOf 0 log.entries _
    fileLength := rfl
    snapshotIndex := h.snapshotIndex
    snapshotTerm := h.snapshotTerm }

theorem filter_index {base index : Nat} {entries : List LogEntry} (h : Follows base entries)
    (hle : base ≤ index)
    : entries.filter (index < ·.index) = entries.drop (index - base) := by
  induction entries generalizing base with
  | nil => simp
  | cons e rest ih =>
    by_cases heq : index = base
    . rw [heq, Nat.sub_self, List.drop_zero, List.filter_eq_self]
      intro e' he'
      obtain ⟨k, hk, rfl⟩ := List.mem_iff_getElem.1 he'
      have := h.index_eq hk
      simp
      omega
    . rw [List.filter_cons_of_neg (by simp [h.1]; omega)]
      rw [ih h.2 (by omega)]
      rw [show index - base = index - (base + 1) + 1 by omega]
      rfl

theorem retained_eq {index : Nat} (term : Nat) (h : Follows log.snapshotIndex log.entries)
    (hle : log.snapshotIndex ≤ index)
    : log.retained index term
        =
      if log.termAt? index = some term then log.entries.drop (index - log.snapshotIndex) else [] := by
  unfold retained
  rw [filter_index h hle]

theorem retained_follows {index : Nat} (term : Nat) (h : Follows log.snapshotIndex log.entries)
    (hle : log.snapshotIndex ≤ index)
    : Follows index (log.retained index term) := by
  rw [retained_eq term h hle]
  split
  . by_cases hlength : index - log.snapshotIndex ≤ log.entries.length
    . have := h.drop hlength
      rwa [Nat.add_sub_cancel' hle] at this
    . rw [List.drop_eq_nil_of_le (by omega)]
      trivial
  . trivial

theorem retained_fits {index : Nat} (term : Nat) (h : log.Intact snapshot hard)
    (hle : log.snapshotIndex ≤ index)
    : ∀ e ∈ log.retained index term, e.Fits := by
  intro e he
  rw [retained_eq term h.follows hle] at he
  split at he
  . exact h.stores.entriesFit e (List.mem_of_mem_drop he)
  . cases he

theorem Intact.replaces {index term : Nat} {data : Bytes} {kept : List LogEntry}
    (h : log.Intact snapshot hard) (hle : log.snapshotIndex ≤ index)
    (hkept : kept = log.retained index term)
    : ∃ v' file, LogStore.putSnapshot index term data log
            = .ok () { log with
                disk := v'
                writer := { file }
                fileLength := (kept.flatMap LogRecord.encode).length
                entries := kept
                offsets := offsetsOf 0 kept
                snapshotIndex := index
                snapshotTerm := term } ∧
        v'.Sound ∧
        v'.find? logName = some (.file ⟨file, kept.flatMap LogRecord.encode,
          kept.flatMap LogRecord.encode⟩) ∧
        v'.Holds snapshotName (Snapshot.encode ⟨index, term, data⟩) ∧
        v'.find? HardState.fileName = log.disk.find? HardState.fileName := by
  obtain ⟨v₁, hreplace₁, hsound₁, hholds₁, hother₁⟩ := Disk.replace_sound h.stores.sound snapshotName
    (Snapshot.encode ⟨index, term, data⟩)
  obtain ⟨v₂, hreplace₂, hsound₂, ⟨file, hfile₂⟩, hother₂⟩ := Disk.replace_sound hsound₁ logName
    (kept.flatMap LogRecord.encode)
  have hflush : flush { log with disk := v₁ } = .ok () { log with disk := v₁ } :=
    flush_of_empty h.unbuffered
  refine ⟨v₂, file, ?_, hsound₂, hfile₂, ?_, ?_⟩
  . unfold LogStore.putSnapshot
    rw [EStateM.bind_get]
    dsimp only
    rw [if_neg (by omega), ← hkept]
    rw [EStateM.bind_of_ok (onDisk_of_ok hreplace₁)]
    rw [EStateM.bind_of_ok hflush]
    rw [EStateM.bind_of_ok (onDisk_of_ok hreplace₂)]
    rw [EStateM.bind_modify]
    exact renewWriter_ok { log with
      disk := v₂
      fileLength := (kept.flatMap LogRecord.encode).length
      entries := kept
      offsets := offsetsOf 0 kept
      snapshotIndex := index
      snapshotTerm := term } hsound₂ hfile₂ h.unbuffered
  . exact hholds₁.of_eq (hother₂ _ snapshotName_ne.1 snapshotName_ne.2)
  . obtain ⟨h₁, h₂, h₃, h₄⟩ := hardName_ne
    rw [hother₂ _ h₁ h₂, hother₁ _ h₃ h₄]

theorem Intact.putSnapshot {index term : Nat} {data : Bytes} (h : log.Intact snapshot hard)
    (hle : log.snapshotIndex ≤ index) (hfit : Snapshot.Fits ⟨index, term, data⟩)
    : ∃ log', LogStore.putSnapshot index term data log = .ok () log' ∧
        log'.Intact (some ⟨index, term, data⟩) hard ∧ log'.entries = log.retained index term := by
  obtain ⟨v', file, hput, hsound, hfile, hholds, hhard⟩ := h.replaces hle rfl
  refine ⟨_, hput, ?_, rfl⟩
  exact {
    stores := {
      sound := hsound
      logFile := .inl ⟨file, hfile⟩
      snapshotFile := hholds
      hardFile := h.stores.hardFile.imp (·.of_eq hhard) (And.imp_right (·.of_eq hhard))
      follows := retained_follows term h.follows hle
      entriesFit := retained_fits term h hle
      snapshotFits := by
        intro s hs
        cases hs
        exact hfit
      hardFits := h.stores.hardFits }
    policy := h.policy
    unbuffered := rfl
    file := hfile
    offsets := rfl
    fileLength := rfl
    snapshotIndex := rfl
    snapshotTerm := rfl }

theorem readSnapshot_eq {v : Volume} {entries : List LogEntry} (h : v.Stores entries snapshot hard)
    : readSnapshot v
        =
      if ∀ s ∈ snapshot, s.data.length < 2 ^ 64 then .ok snapshot v
      else .error (.corrupted "snapshot length mismatch") v := by
  have hread := Disk.read?_holds h.snapshotFile
  unfold readSnapshot
  rw [EStateM.bind_of_ok hread]
  cases snapshot with
  | none =>
    rw [if_pos (by simp)]
    rfl
  | some s =>
    rw [Option.map_some]
    dsimp only
    rw [Snapshot.decode_encode (h.snapshotFits s rfl)]
    by_cases hlt : s.data.length < 2 ^ 64
    . rw [if_pos hlt, if_pos (by simpa using hlt)]
      rfl
    . rw [if_neg hlt, if_neg (by simpa using hlt)]
      rfl

theorem Intact.storedSnapshot (h : log.Intact snapshot hard)
    : LogStore.storedSnapshot log
        =
      if ∀ s ∈ snapshot, s.data.length < 2 ^ 64 then .ok snapshot log
      else .error (.corrupted "snapshot length mismatch") log := by
  have hread := readSnapshot_eq h.stores
  unfold LogStore.storedSnapshot
  split
  . next hshort =>
    rw [if_pos hshort] at hread
    exact onDisk_of_ok hread
  . next hlong =>
    rw [if_neg hlong] at hread
    exact onDisk_of_error hread

theorem Intact.save {hard' : HardState} (h : log.Intact snapshot hard) (hfit : hard'.Fits)
    : ∃ v', onDisk (HardState.save hard') log = .ok () { log with disk := v' } ∧
        { log with disk := v' }.Intact snapshot hard' := by
  obtain ⟨v', hreplace, hsound, hholds, hother⟩ := Disk.replace_sound h.stores.sound
    HardState.fileName hard'.encode
  obtain ⟨-, -, h₁, h₂, h₃, h₄⟩ := logName_ne
  have hlog := hother _ h₁ h₂
  have hsnapshot := hother _ h₃ h₄
  refine ⟨v', onDisk_of_ok hreplace, ?_⟩
  exact { h with
    stores := { h.stores with
      sound := hsound
      logFile := h.stores.logFile.imp (·.of_eq hlog) (And.imp_right (·.of_eq hlog))
      snapshotFile := h.stores.snapshotFile.of_eq hsnapshot
      hardFile := .inl hholds
      hardFits := hfit }
    file := by
      dsimp only
      rw [hlog, h.file] }

end LogStore

end ReplicatedStore
