import ReplicatedStore.Proofs.Storage.LogStore

/-!
Opening a directory: the log, the snapshot and the hard state come back as they were stored.
-/

namespace ReplicatedStore

variable {v : Volume} {entries : List LogEntry} {snapshot : Option Snapshot} {hard : HardState}

theorem HardState.load_ok (hfit : hard.Fits)
    (h : v.Holds fileName (some hard.encode) ∨ hard = {} ∧ v.Holds fileName none)
    : load v = .ok hard v := by
  unfold load
  rcases h with hfile | ⟨hnew, hnone⟩
  . rw [EStateM.bind_of_ok (Disk.read?_holds hfile)]
    dsimp only
    rw [decode_encode hfit]
    rfl
  . rw [EStateM.bind_of_ok (Disk.read?_holds hnone), hnew]
    rfl

namespace LogRecord

theorem layout_snd (start : Nat) (entries : List LogEntry)
    : (layout start entries).map (·.2) = entries := by
  unfold layout
  apply List.map_snd_zip
  exact Nat.le_of_eq (LogStore.length_offsetsOf start entries).symm

theorem layout_fst (start : Nat) (entries : List LogEntry)
    : (layout start entries).map (·.1) = LogStore.offsetsOf start entries := by
  unfold layout
  apply List.map_fst_zip
  exact Nat.le_of_eq (LogStore.length_offsetsOf start entries)

end LogRecord

namespace LogStore

theorem select_layout {base : Nat} (count start : Nat) (h : Follows (base + count) entries)
    : select base count (LogRecord.layout start entries) = .ok (LogRecord.layout start entries) := by
  induction entries generalizing count start with
  | nil => rfl
  | cons e rest ih =>
    have hrest := ih (count + 1) (start + LogRecord.size e) h.2
    have hindex := h.1
    unfold LogRecord.layout at hrest ⊢
    rw [offsetsOf, List.zip_cons_cons, select]
    rw [if_neg (by omega), if_neg (by omega), hrest]
    rfl

theorem readRecords_ok (h : v.Stores entries snapshot hard)
    : readRecords v
        =
      .ok (LogRecord.layout 0 entries, (entries.flatMap LogRecord.encode).length) v := by
  unfold readRecords
  rw [EStateM.bind_get]
  rcases h.logFile with ⟨id, hfile⟩ | ⟨hnil, hnone⟩
  . have hcontent : v.content? logName = some (entries.flatMap LogRecord.encode) := by
      unfold Volume.content?
      rw [hfile]
    rw [hcontent]
    dsimp only
    rw [LogRecord.scan_encode h.entriesFit, Nat.zero_add]
    rfl
  . have hcontent : v.content? logName = none := by
      have hnone : v.find? logName = none := hnone
      unfold Volume.content?
      rw [hnone]
    rw [hcontent, hnil]
    rfl

theorem open_ok (h : v.Stores entries snapshot hard)
    (hshort : ∀ s ∈ snapshot, s.data.length < 2 ^ 64)
    : ∃ log, LogStore.open .always v = .ok log log.disk ∧ log.Intact snapshot hard ∧
        log.entries = entries := by
  have hsnapshot := readSnapshot_eq h
  rw [if_pos hshort] at hsnapshot
  -- opening creates the file `log` if there is none, with nothing in it
  have hopen : ∃ id v', Disk.openOrCreate logName v = .ok id v' ∧
      v.Sets v' logName
        ⟨id, entries.flatMap LogRecord.encode, entries.flatMap LogRecord.encode⟩ := by
    rcases h.logFile with hfile | ⟨hnil, hnone⟩
    . exact Disk.openOrCreate_holds h.sound hfile
    . rw [hnil]
      exact Disk.openOrCreate_holds h.sound hnone
  obtain ⟨id, v', hcreate, hset⟩ := hopen
  have hcontent : v'.content? logName = some (entries.flatMap LogRecord.encode) := by
    unfold Volume.content?
    rw [hset.self]
  have hselect : select ((snapshot.map (·.index)).getD 0) 0 (LogRecord.layout 0 entries)
      = .ok (LogRecord.layout 0 entries) := select_layout 0 0 h.follows
  have hwhole : ¬ (entries.flatMap LogRecord.encode).length
      < (v'.content? logName).elim 0 List.length := by
    rw [hcontent]
    exact Nat.lt_irrefl _
  refine ⟨{
    disk := v'
    writer := { file := id }
    entries := (LogRecord.layout 0 entries).map (·.2)
    offsets := (LogRecord.layout 0 entries).map (·.1)
    fileLength := (entries.flatMap LogRecord.encode).length
    snapshotIndex := (snapshot.map (·.index)).getD 0
    snapshotTerm := (snapshot.map (·.term)).getD 0
    policy := .always }, ?_, ?_, LogRecord.layout_snd 0 entries⟩
  . unfold LogStore.open
    rw [EStateM.bind_of_ok hsnapshot, EStateM.bind_of_ok (readRecords_ok h)]
    dsimp only
    rw [EStateM.bind_of_ok hcreate, EStateM.bind_get]
    rw [if_neg hwhole, hselect]
    dsimp only
    rw [EStateM.bind_of_ok (Disk.openExisting_file hset.sound hset.self)]
    rfl
  . exact {
      stores := by
        rw [LogRecord.layout_snd]
        exact h.setLog hset h.follows h.entriesFit
      policy := rfl
      unbuffered := rfl
      file := by
        rw [LogRecord.layout_snd]
        exact hset.self
      offsets := by
        rw [LogRecord.layout_snd]
        exact LogRecord.layout_fst 0 entries
      fileLength := by
        rw [LogRecord.layout_snd]
      snapshotIndex := rfl
      snapshotTerm := rfl }

theorem open_error (policy : SyncPolicy) (h : v.Stores entries snapshot hard)
    (hlong : ¬ ∀ s ∈ snapshot, s.data.length < 2 ^ 64)
    : LogStore.open policy v = .error (.corrupted "snapshot length mismatch") v := by
  have hsnapshot := readSnapshot_eq h
  rw [if_neg hlong] at hsnapshot
  unfold LogStore.open
  exact EStateM.bind_of_error hsnapshot

end LogStore

end ReplicatedStore
