import ReplicatedStore.Proofs.Storage.Rewriting

/-!
Opening a directory whatever its file of the log holds: the whole records in front count, and those that
the snapshot leaves are the entries.
-/

namespace ReplicatedStore

namespace LogStore

variable {v v' : Volume} {snapshot : Option Snapshot} {records : List LogEntry} {tail durable : Bytes}
  {policy : SyncPolicy} {log : LogStore}

theorem readSnapshot_cases (v : Volume)
    : (∃ snapshot, readSnapshot v = .ok snapshot v) ∨ ∃ e, readSnapshot v = .error e v := by
  unfold readSnapshot Disk.read?
  rw [bind_assoc, EStateM.bind_get]
  cases v.find? snapshotName with
  | none => exact .inl ⟨none, rfl⟩
  | some entry =>
    cases entry with
    | directory => exact .inr ⟨_, rfl⟩
    | file file =>
      rw [pure_bind]
      dsimp only
      cases Snapshot.decode file.content with
      | ok snapshot => exact .inl ⟨_, rfl⟩
      | error what => exact .inr ⟨_, rfl⟩

theorem readSnapshot_congr (h : readSnapshot v = .ok snapshot v)
    (hfile : v'.find? snapshotName = v.find? snapshotName)
    : readSnapshot v' = .ok snapshot v' := by
  unfold readSnapshot Disk.read? at h ⊢
  rw [bind_assoc, EStateM.bind_get] at h ⊢
  rw [hfile]
  cases hentry : v.find? snapshotName with
  | none =>
    rw [hentry] at h
    cases h
    rfl
  | some entry =>
    rw [hentry] at h
    cases entry with
    | directory => cases h
    | file file =>
      rw [pure_bind] at h ⊢
      dsimp only at h ⊢
      cases hdecode : Snapshot.decode file.content with
      | ok found =>
        rw [hdecode] at h
        cases h
        rfl
      | error what =>
        rw [hdecode] at h
        cases h

theorem readSnapshot_encode {s : Snapshot} (hfits : s.Fits)
    (h : v.Holds snapshotName (some s.encode))
    : readSnapshot v
        =
      if s.data.length < 2 ^ 64 then .ok (some s) v
      else .error (.corrupted "snapshot length mismatch") v := by
  have hread := Disk.read?_holds h
  unfold readSnapshot
  rw [EStateM.bind_of_ok hread]
  dsimp only
  rw [Snapshot.decode_encode hfits]
  split <;> rfl

theorem readRecords_eq (v : Volume)
    : readRecords v = .ok (LogRecord.scan 0 ((v.content? logName).getD [])) v := by
  unfold readRecords
  rw [EStateM.bind_get]
  cases v.content? logName with
  | none =>
    rw [Option.getD_none, LogRecord.scan_of_read?_none 0 rfl]
    rfl
  | some content => rfl

theorem content?_of_file {name : String} {file : StoredFile} (h : v.find? name = some (.file file))
    : v.content? name = some file.content := by
  unfold Volume.content?
  rw [h]

structure Opens (v : Volume) (policy : SyncPolicy) (snapshot : Option Snapshot) (records : List LogEntry)
    (log : LogStore) : Prop where
  snapshotIndex : log.snapshotIndex = (snapshot.map (·.index)).getD 0
  snapshotTerm : log.snapshotTerm = (snapshot.map (·.term)).getD 0
  policy : log.policy = policy
  unbuffered : log.writer.buffer = []
  plan : log.disk.plan <:+ v.plan
  file : log.disk.find? snapshotName = v.find? snapshotName
  coherent : ∃ durable, log.Coherent records durable ∧
    ∀ content, v.Holds logName content → durable = records.flatMap LogRecord.encode

theorem yields_assemble {w : Volume} {id : Nat}
    (h : v.Updates w logName ⟨id, records.flatMap LogRecord.encode, durable⟩)
    (hforced : ∀ content, v.Holds logName content → durable = records.flatMap LogRecord.encode)
    (hfit : ∀ e ∈ records, e.Fits) (policy : SyncPolicy) (snapshot : Option Snapshot)
    : EStateM.Yields (fun log v' => log.disk = v' ∧ Opens v policy snapshot records log)
        (fun v' => v.plan ≠ [] ∨ v'.calmed.Sound ∧ v'.plan <:+ v.plan ∧
          ∀ kept, ¬ Selects ((snapshot.map (·.index)).getD 0) 0 (LogRecord.layout 0 records) kept)
        ((match select ((snapshot.map (·.index)).getD 0) 0 (LogRecord.layout 0 records) with
          | .error e => throw e
          | .ok kept => do
            let file ← Disk.openExisting logName
            return {
              disk := ← get
              writer := { file }
              entries := kept.map (·.2)
              offsets := kept.map (·.1)
              fileLength := (records.flatMap LogRecord.encode).length
              snapshotIndex := (snapshot.map (·.index)).getD 0
              snapshotTerm := (snapshot.map (·.term)).getD 0
              policy } : Disk LogStore) w) := by
  -- the log is refused if its indexes do not follow the snapshot
  cases hselect : select ((snapshot.map (·.index)).getD 0) 0 (LogRecord.layout 0 records) with
  | error e =>
    refine .inr ⟨h.sound, h.plan, fun kept hselects => ?_⟩
    rw [hselects.select] at hselect
    cases hselect
  | ok kept =>
    dsimp only
    apply (Disk.yields_openExisting h.sound h.self).bind
    . exact fun _ herror => .inl (h.plan_ne herror.2)
    rintro _ v₁ ⟨rfl, h₁⟩
    have h₁ := h.trans h₁
    refine ⟨rfl, rfl, rfl, rfl, rfl, h₁.plan, h₁.other _ snapshotName_ne.1, durable, ?_, hforced⟩
    refine ⟨⟨hfit, ?_, ?_, rfl⟩, h₁.sound, _, h₁.self, List.append_nil _⟩
    . have hzip : (kept.map (·.1)).zip (kept.map (·.2)) = kept := by
        rw [List.zip_map', List.map_id'']
        exact fun _ => rfl
      dsimp only
      rw [hzip]
      exact selects_of_select hselect
    . dsimp only
      rw [List.length_map, List.length_map]

theorem content_of_found {name : String} {file : StoredFile}
    (h : v.find? name = some (.file file) ∨ v.find? name = none ∧ file.content = [] ∧ file.durable = [])
    : file.content = (v.content? name).getD [] ∧
        ∀ content, v.Holds name content → file.durable = file.content := by
  rcases h with hfile | ⟨hnone, hnil, hnil'⟩
  . constructor
    . rw [content?_of_file hfile]
      rfl
    . intro content hholds
      cases content with
      | none => cases hholds.symm.trans hfile
      | some bytes =>
        obtain ⟨id, hid⟩ := hholds
        cases hid.symm.trans hfile
        rfl
  . constructor
    . unfold Volume.content?
      rw [hnone, hnil]
      rfl
    . intro _ _
      rw [hnil, hnil']

theorem yields_open (hv : v.calmed.Sound) (hread : readSnapshot v = .ok snapshot v)
    (hcontent : (v.content? logName).getD [] = records.flatMap LogRecord.encode ++ tail)
    (hfit : ∀ e ∈ records, e.Fits) (htail : LogRecord.read? tail = none) (policy : SyncPolicy)
    : EStateM.Yields (fun log v' => log.disk = v' ∧ Opens v policy snapshot records log)
        (fun v' => v.plan ≠ [] ∨ v'.calmed.Sound ∧ v'.plan <:+ v.plan ∧
          ∀ kept, ¬ Selects ((snapshot.map (·.index)).getD 0) 0 (LogRecord.layout 0 records) kept)
        (LogStore.open policy v) := by
  have hscan : readRecords v
      = .ok (LogRecord.layout 0 records, (records.flatMap LogRecord.encode).length) v := by
    rw [readRecords_eq, hcontent, LogRecord.scan_records 0 hfit htail, Nat.zero_add]
  unfold LogStore.open
  rw [EStateM.bind_of_ok hread, EStateM.bind_of_ok hscan]
  dsimp only
  apply (Disk.yields_openOrCreate hv logName).bind
  . exact fun _ h => .inl h
  rintro _ v₁ ⟨file, rfl, h₁, hold⟩
  obtain ⟨hbytes, hsettled⟩ := content_of_found hold
  rw [hcontent] at hbytes
  have hlength : (v₁.content? logName).elim 0 List.length = file.content.length := by
    rw [content?_of_file h₁.self]
    rfl
  rw [EStateM.bind_get]
  -- what follows the last whole record is cut off
  by_cases hlonger : (records.flatMap LogRecord.encode).length < (v₁.content? logName).elim 0 List.length
  . rw [if_pos hlonger]
    rw [hlength] at hlonger
    have hle := Nat.le_of_lt hlonger
    apply (Disk.yields_setLength h₁.sound h₁.self hle).bind
    . exact fun _ herror => .inl (h₁.plan_ne herror.2)
    rintro _ v₂ h₂
    have h₂ := h₁.trans h₂
    rw [hbytes, List.take_left' rfl] at h₂
    have hsync := Disk.yields_sync h₂.sound h₂.self
    apply hsync.bind
    . exact fun _ herror => .inl (h₂.plan_ne herror.2)
    rintro _ v₃ h₃
    exact yields_assemble (h₂.trans h₃) (fun _ _ => rfl) hfit policy snapshot
  . rw [if_neg hlonger]
    have hnil : tail = [] := by
      rw [hlength, hbytes, List.length_append] at hlonger
      exact List.eq_nil_of_length_eq_zero (by omega)
    rw [hnil, List.append_nil] at hbytes
    have hfile : file = ⟨file.id, records.flatMap LogRecord.encode, file.durable⟩ := by
      rw [← hbytes]
    rw [hfile] at h₁
    refine yields_assemble h₁ (fun content hholds => ?_) hfit policy snapshot
    rw [hsettled content hholds, hbytes]

theorem opens_of_ok (hv : v.calmed.Sound) (h : LogStore.open policy v = .ok log v')
    : ∃ snapshot records tail, readSnapshot v = .ok snapshot v ∧
        (v.content? logName).getD [] = records.flatMap LogRecord.encode ++ tail ∧
        log.disk = v' ∧ Opens v policy snapshot records log := by
  rcases readSnapshot_cases v with ⟨snapshot, hread⟩ | ⟨e, hread⟩
  . obtain ⟨records, tail, hcontent, hfit, htail⟩ := LogRecord.exists_records ((v.content? logName).getD [])
    have hopen := yields_open hv hread hcontent hfit htail policy
    rw [h] at hopen
    exact ⟨snapshot, records, tail, hread, hcontent, hopen⟩
  . unfold LogStore.open at h
    rw [EStateM.bind_of_error hread] at h
    cases h

theorem open_of_selects (hv : v.Sound) (hread : readSnapshot v = .ok snapshot v)
    (hcontent : (v.content? logName).getD [] = records.flatMap LogRecord.encode ++ tail)
    (hfit : ∀ e ∈ records, e.Fits) (htail : LogRecord.read? tail = none) (policy : SyncPolicy)
    {kept : List (Nat × LogEntry)}
    (hselects : Selects ((snapshot.map (·.index)).getD 0) 0 (LogRecord.layout 0 records) kept)
    : ∃ log, LogStore.open policy v = .ok log log.disk ∧ Opens v policy snapshot records log ∧
        log.entries = kept.map (·.2) := by
  have hopen := yields_open (by rwa [Volume.calmed_eq hv.calm]) hread hcontent hfit htail policy
  cases hresult : LogStore.open policy v with
  | ok log v' =>
    rw [hresult] at hopen
    obtain ⟨rfl, hopens⟩ := hopen
    refine ⟨log, rfl, hopens, ?_⟩
    obtain ⟨durable, hcoherent, -⟩ := hopens.coherent
    have hsame := hcoherent.selects.select
    rw [hopens.snapshotIndex, hselects.select] at hsame
    rw [← hcoherent.map_snd, ← Except.ok.inj hsame]
  | error e v' =>
    rw [hresult] at hopen
    exact (hopen.elim (fun hplan => hplan hv.calm) fun hnone => hnone.2.2 kept hselects).elim

def fresh (policy : SyncPolicy) (plan : List (Option Fault)) : LogStore where
  disk := { entries := [(logName, .file ⟨0, [], []⟩)], nextId := 1, plan }
  writer := { file := 0 }
  policy

theorem open_empty (policy : SyncPolicy)
    : LogStore.open policy {} = .ok (fresh policy []) (fresh policy []).disk := by
  rfl

theorem open_planned (policy : SyncPolicy) (plan : List (Option Fault))
    : LogStore.open policy { plan := none :: none :: plan }
        =
      .ok (fresh policy plan) (fresh policy plan).disk := by
  rfl

end LogStore

end ReplicatedStore
