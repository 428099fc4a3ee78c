import ReplicatedStore.Proofs.Storage.Faults

/-!
Whatever becomes of an operation on the log, the hard state in the directory stays.
-/

namespace ReplicatedStore

namespace LogStore

open Volume

structure Safe (log : LogStore) (hard : HardState) : Prop where
  guards : log.disk.Guards hard
  apart : log.disk.Apart log.writer.file

variable {α : Type} {log : LogStore} {hard : HardState}

theorem logName_not_hard : ¬ IsHard logName ∧ ¬ IsHard (Disk.temporary logName) := by
  unfold IsHard
  decide

theorem snapshotName_not_hard : ¬ IsHard snapshotName ∧ ¬ IsHard (Disk.temporary snapshotName) := by
  unfold IsHard
  decide

theorem Safe.of_writer {log' : LogStore} (hs : log.Safe hard) (hdisk : log'.disk = log.disk)
    (hwriter : log'.writer.file = log.writer.file)
    : log'.Safe hard := by
  refine ⟨?_, ?_⟩
  . rw [hdisk]
    exact hs.guards
  . rw [hdisk, hwriter]
    exact hs.apart

theorem ends_onDisk {step : Disk α} {Q : α → Volume → Prop} (hs : log.Safe hard)
    (h : EStateM.Ends (log.disk.Spares ·) Q (step log.disk))
    : EStateM.Ends (·.Safe hard)
        (fun a log' => log'.writer = log.writer ∧ log.disk.Spares log'.disk ∧ Q a log'.disk)
        (onDisk step log) := by
  unfold onDisk
  cases hr : step log.disk with
  | ok a v =>
    rw [hr] at h
    exact ⟨⟨hs.guards.spares h.1, h.1.apart _ hs.apart⟩, rfl, h⟩
  | error e v =>
    rw [hr] at h
    exact ⟨hs.guards.spares h, h.apart _ hs.apart⟩

theorem ends_flush (hs : log.Safe hard)
    : EStateM.Ends (·.Safe hard) (fun _ _ => True) (flush log) := by
  unfold flush
  rw [EStateM.bind_get]
  dsimp only
  split
  . exact ⟨hs, trivial⟩
  . apply (ends_onDisk hs (Disk.ends_append hs.guards.sound _ fun _ h => hs.apart.ne_hard h)).bind
    rintro ⟨stored, fault⟩ log' hs' ⟨hwriter, -⟩
    dsimp only
    rw [EStateM.bind_modify]
    let written : LogStore := { log' with
      writer := { log.writer with buffer := log.writer.buffer.drop stored } }
    have hs' : written.Safe hard := hs'.of_writer rfl (by rw [hwriter])
    cases fault with
    | none => exact ⟨hs', trivial⟩
    | some e => exact hs'

theorem ends_put (hs : log.Safe hard) (record : Bytes)
    : EStateM.Ends (·.Safe hard) (fun _ _ => True) (put record log) := by
  unfold put
  rw [EStateM.bind_get]
  dsimp only
  split
  . apply (ends_onDisk hs (Disk.ends_append hs.guards.sound _ fun _ h => hs.apart.ne_hard h)).bind
    rintro ⟨stored, fault⟩ log' hs' -
    cases fault with
    | none => exact ⟨hs', trivial⟩
    | some e => exact hs'
  . exact ⟨hs.of_writer rfl rfl, trivial⟩

theorem ends_write (hs : log.Safe hard) (record : Bytes)
    : EStateM.Ends (·.Safe hard) (fun _ _ => True) (write record log) := by
  rw [write_eq]
  split
  . apply (ends_flush hs).bind
    intro _ log' hs' _
    exact ends_put hs' record
  . exact ends_put hs record

theorem ends_settle (hs : log.Safe hard)
    : EStateM.Ends (·.Safe hard) (fun _ _ => True) (settle log) := by
  unfold settle
  rw [EStateM.bind_get]
  cases log.policy with
  | always =>
    apply (ends_flush hs).bind
    intro _ log' hs' _
    rw [EStateM.bind_get]
    apply (ends_onDisk hs' (Disk.ends_sync hs'.guards.sound fun _ h => hs'.apart.ne_hard h)).imp
    . exact fun _ h => h
    . exact fun _ _ _ _ => trivial
  | interval => exact ends_flush hs
  | never => exact ⟨hs, trivial⟩

theorem ends_appendOne (hs : log.Safe hard) (entry : LogEntry)
    : EStateM.Ends (·.Safe hard) (fun _ _ => True) (appendOne entry log) := by
  unfold appendOne
  rw [EStateM.bind_get]
  dsimp only
  split
  . exact hs
  . split
    . exact hs
    . apply (ends_write hs _).bind
      intro _ log' hs' _
      exact ⟨hs'.of_writer rfl rfl, trivial⟩

theorem ends_forM (hs : log.Safe hard) (entries : List LogEntry)
    : EStateM.Ends (·.Safe hard) (fun _ _ => True) (entries.forM appendOne log) := by
  induction entries generalizing log with
  | nil => exact ⟨hs, trivial⟩
  | cons entry rest ih =>
    unfold List.forM
    apply (ends_appendOne hs entry).bind
    intro _ log' hs' _
    exact ih hs'

theorem ends_append (hs : log.Safe hard) (entries : List LogEntry)
    : EStateM.Ends (·.Safe hard) (fun _ _ => True) (append entries log) := by
  unfold append
  split
  . exact ⟨hs, trivial⟩
  . apply (ends_forM hs entries).bind
    intro _ log' hs' _
    exact ends_settle hs'

theorem ends_renewWriter (hs : log.Safe hard)
    : EStateM.Ends (·.Safe hard) (fun _ _ => True) (renewWriter log) := by
  unfold renewWriter
  apply (ends_onDisk hs (Disk.ends_openExisting hs.guards.sound logName_not_hard.1)).bind
  rintro file log₁ hs₁ ⟨-, -, hfile⟩
  rw [EStateM.bind_get]
  dsimp only
  split
  . apply (ends_onDisk hs₁ (Disk.ends_append hs₁.guards.sound _ fun _ h => hs₁.apart.ne_hard h)).bind
    rintro _ log₂ hs₂ ⟨-, hspares, -⟩
    exact ⟨⟨hs₂.guards, hspares.apart file hfile⟩, trivial⟩
  . exact ⟨⟨hs₁.guards, hfile⟩, trivial⟩

theorem ends_discardFrom (hs : log.Safe hard) (index : Nat)
    : EStateM.Ends (·.Safe hard) (fun _ _ => True) (discardFrom index log) := by
  unfold discardFrom
  rw [EStateM.bind_get]
  dsimp only
  split
  . exact hs
  . split
    . exact ⟨hs, trivial⟩
    . apply (ends_flush hs).bind
      intro _ log₁ hs₁ _
      apply (ends_onDisk hs₁ (Disk.ends_openExisting hs₁.guards.sound logName_not_hard.1)).bind
      rintro file log₂ hs₂ ⟨-, -, hfile₂⟩
      apply (ends_onDisk hs₂
        (Disk.ends_setLength hs₂.guards.sound _ fun _ h => hfile₂.ne_hard h)).bind
      rintro _ log₃ hs₃ ⟨-, hspares, -⟩
      have hfile₃ := hspares.apart file hfile₂
      apply (ends_onDisk hs₃ (Disk.ends_sync hs₃.guards.sound fun _ h => hfile₃.ne_hard h)).bind
      rintro _ log₄ hs₄ -
      rw [EStateM.bind_modify]
      exact ends_renewWriter (hs₄.of_writer rfl rfl)

theorem ends_putSnapshot (hs : log.Safe hard) (index term : Nat) (data : Bytes)
    : EStateM.Ends (·.Safe hard) (fun _ _ => True) (putSnapshot index term data log) := by
  unfold putSnapshot
  rw [EStateM.bind_get]
  dsimp only
  split
  . exact hs
  . apply (ends_onDisk hs
      (Disk.ends_replace hs.guards.sound _ snapshotName_not_hard.1 snapshotName_not_hard.2)).bind
    intro _ log₁ hs₁ _
    apply (ends_flush hs₁).bind
    intro _ log₂ hs₂ _
    apply (ends_onDisk hs₂
      (Disk.ends_replace hs₂.guards.sound _ logName_not_hard.1 logName_not_hard.2)).bind
    intro _ log₃ hs₃ _
    rw [EStateM.bind_modify]
    exact ends_renewWriter (hs₃.of_writer rfl rfl)

variable {v : Volume}

theorem ends_readSnapshot (hv : v.calmed.Sound)
    : EStateM.Ends (v.Spares ·) (fun _ _ => True) (readSnapshot v) := by
  unfold readSnapshot Disk.read?
  rw [bind_assoc, EStateM.bind_get]
  cases hentry : v.find? snapshotName with
  | none => exact ⟨.refl hv, trivial⟩
  | some entry =>
    obtain ⟨file, rfl, -⟩ := hv.found hentry
    rw [pure_bind]
    dsimp only
    cases Snapshot.decode file.content with
    | ok snapshot => exact ⟨.refl hv, trivial⟩
    | error what => exact .refl hv

theorem ends_storedSnapshot (hs : log.Safe hard)
    : EStateM.Ends (·.Safe hard) (fun _ _ => True) (storedSnapshot log) := by
  apply (ends_onDisk hs (ends_readSnapshot hs.guards.sound)).imp
  . exact fun _ h => h
  . exact fun _ _ _ _ => trivial

theorem ends_readRecords (hv : v.calmed.Sound)
    : EStateM.Ends (v.Spares ·) (fun _ _ => True) (readRecords v) := by
  unfold readRecords
  rw [EStateM.bind_get]
  cases v.content? logName with
  | none => exact ⟨.refl hv, trivial⟩
  | some content => exact ⟨.refl hv, trivial⟩

theorem ends_assemble (hv : v.calmed.Sound) (policy : SyncPolicy) (snapshot : Option Snapshot)
    (records : List (Nat × LogEntry)) (length : Nat)
    : EStateM.Ends (v.Spares ·) (fun log v' => log.disk = v' ∧ v'.Apart log.writer.file)
        ((match select ((snapshot.map (·.index)).getD 0) 0 records with
          | .error e => throw e
          | .ok kept => do
            let file ← Disk.openExisting logName
            return {
              disk := ← get
              writer := { file }
              entries := kept.map (·.2)
              offsets := kept.map (·.1)
              fileLength := length
              snapshotIndex := (snapshot.map (·.index)).getD 0
              snapshotTerm := (snapshot.map (·.term)).getD 0
              policy } : Disk LogStore) v) := by
  cases select ((snapshot.map (·.index)).getD 0) 0 records with
  | error e => exact .refl hv
  | ok kept =>
    apply (Disk.ends_openExisting hv logName_not_hard.1).bind
    intro file v' hspares hfile
    exact ⟨hspares, rfl, hfile⟩

theorem ends_open (hv : v.calmed.Sound) (policy : SyncPolicy)
    : EStateM.Ends (v.Spares ·) (fun log v' => log.disk = v' ∧ v'.Apart log.writer.file)
        (LogStore.open policy v) := by
  unfold LogStore.open
  apply (ends_readSnapshot hv).bind
  intro snapshot v₁ h₁ _
  apply EStateM.Ends.bind (h₁.ends (ends_readRecords h₁.sound))
  rintro ⟨records, length⟩ v₂ h₂ -
  apply EStateM.Ends.bind (h₂.ends (Disk.ends_openOrCreate h₂.sound logName_not_hard.1))
  intro file v₃ h₃ hfile
  rw [EStateM.bind_get]
  dsimp only
  split
  . apply h₃.ends
    apply (Disk.ends_setLength h₃.sound length fun _ h => hfile.ne_hard h).bind
    intro _ v₄ h₄ _
    have hsync := Disk.ends_sync h₄.sound fun _ h => (h₄.apart file hfile).ne_hard h
    apply EStateM.Ends.bind (h₄.ends hsync)
    intro _ v₅ h₅ _
    exact h₅.ends (ends_assemble h₅.sound policy snapshot records length)
  . exact h₃.ends (ends_assemble h₃.sound policy snapshot records length)

end LogStore

end ReplicatedStore
