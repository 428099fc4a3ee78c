import ReplicatedStore.Proofs.Storage.Coherence

/-!
Discarding entries and installing a snapshot when steps may fail: how far each one got, and what is then
in the file of the log, in the file of the snapshot and in memory.
-/

namespace ReplicatedStore

namespace LogRecord

theorem getElem_layout {entries : List LogEntry} {n : Nat} (hn : n < (layout 0 entries).length)
    (hn' : n < entries.length)
    : (layout 0 entries)[n] = (((entries.take n).flatMap encode).length, entries[n]) := by
  have hn'' : n < (LogStore.offsetsOf 0 entries).length := by rwa [LogStore.length_offsetsOf]
  have hoffset := LogStore.offset_eq entries hn'
  rw [List.getD_eq_getElem?_getD, List.getElem?_eq_getElem hn''] at hoffset
  have hpair : (layout 0 entries)[n] = ((LogStore.offsetsOf 0 entries)[n], entries[n]) := List.getElem_zip
  rw [hpair]
  exact Prod.ext hoffset rfl

theorem flatMap_split (entries : List LogEntry) (n : Nat)
    : entries.flatMap encode = (entries.take n).flatMap encode ++ (entries.drop n).flatMap encode := by
  rw [← List.flatMap_append, List.take_append_drop]

end LogRecord

namespace LogStore

variable {log log' : LogStore} {durable : Bytes} {records : List LogEntry} {index term : Nat} {data : Bytes}

theorem Describes.entry_fits (h : log.Describes records) {e : LogEntry} (he : e ∈ log.entries)
    : e.Fits := by
  rw [← h.map_snd] at he
  obtain ⟨r, hr, rfl⟩ := List.mem_map.1 he
  have hrecord : r.2 ∈ (LogRecord.layout 0 records).map (·.2) :=
    List.mem_map_of_mem (h.selects.sublist.subset hr)
  rw [LogRecord.layout_snd] at hrecord
  exact h.fit _ hrecord

theorem yields_renewWriter (log : LogStore) {file : StoredFile} (hs : log.disk.calmed.Sound)
    (hfile : log.disk.find? logName = some (.file file)) (hempty : log.writer.buffer = [])
    : EStateM.Yields
        (fun _ log' => ∃ disk, log' = { log with disk, writer := { file := file.id } } ∧
          log.disk.Updates disk logName file)
        (fun log' => ∃ disk, log' = { log with disk } ∧ log.disk.Updates disk logName file ∧
          log.disk.plan ≠ [])
        (renewWriter log) := by
  unfold renewWriter
  apply (yields_onDisk (Disk.yields_openExisting hs hfile)).bind
  . exact fun _ h => h
  rintro _ _ ⟨disk, rfl, rfl, hupdates⟩
  rw [EStateM.bind_get]
  dsimp only
  rw [if_neg (by simp [hempty])]
  exact ⟨disk, rfl, hupdates⟩

structure Discards (log log' : LogStore) (index : Nat) (records : List LogEntry) (durable : Bytes) : Prop
    extends log.Keeps log' where
  outcome : log'.entries = log.entries ∧ log'.Stands records durable log.disk.plan ∨
    log'.entries = log.entries.take (log.position index) ∧
      ∃ n, log'.Coherent (records.take n) ((records.take n).flatMap LogRecord.encode)

theorem Describes.cut (h : log.Describes records) {p : Nat} (hp : p < log.entries.length)
    : ∃ n, log.offsets.getD p 0 = ((records.take n).flatMap LogRecord.encode).length ∧
        ((records.take n).flatMap LogRecord.encode).length < (records.flatMap LogRecord.encode).length ∧
        Describes { log with
          entries := log.entries.take p
          offsets := log.offsets.take p
          fileLength := log.offsets.getD p 0 } (records.take n) := by
  have hlength : p < (log.offsets.zip log.entries).length := by
    rw [List.length_zip, h.parallel, Nat.min_self]
    exact hp
  obtain ⟨n, hn, hget, hselects⟩ := h.selects.before hlength
  have hn' : n < records.length := by rwa [LogRecord.length_layout] at hn
  have hoffset : log.offsets.getD p 0 = ((records.take n).flatMap LogRecord.encode).length := by
    rw [LogRecord.getElem_layout hn hn', List.getElem_zip] at hget
    rw [List.getD_eq_getElem?_getD, List.getElem?_eq_getElem (by rw [h.parallel]; exact hp)]
    exact (Prod.mk.inj hget).1.symm
  refine ⟨n, hoffset, ?_, ?_, ?_, ?_, hoffset⟩
  . have hsize := LogRecord.size_eq records[n]
    rw [LogRecord.flatMap_split records n, List.drop_eq_getElem_cons hn', List.flatMap_cons]
    rw [List.length_append, List.length_append, hsize]
    unfold LogRecord.size LogRecord.overhead
    omega
  . exact fun e he => h.fit e (List.mem_of_mem_take he)
  . rw [← LogRecord.layout_take]
    have htake : (log.offsets.zip log.entries).take p = (log.offsets.take p).zip (log.entries.take p) :=
      List.take_zipWith
    rw [← htake]
    exact hselects
  . dsimp only
    rw [List.length_take, List.length_take, h.parallel]

theorem Coherent.discards (h : log.Coherent records durable) (hspools : log.Spools log')
    (hcarries : log'.Carries (records.flatMap LogRecord.encode) durable)
    : log.Discards log' index records durable := by
  refine { hspools.keeps with outcome := .inl ⟨by rw [hspools.memory], ?_⟩ }
  exact { hspools.describes h.toDescribes with carries := .inl hcarries }

theorem Coherent.discards_of_updates (h : log.Coherent records durable) (log₁ : LogStore) {disk : Volume}
    (hspools : log.Spools log₁) (hempty : log₁.writer.buffer = [])
    (hupdates : log₁.disk.Updates disk logName
      ⟨log₁.writer.file, records.flatMap LogRecord.encode, durable⟩)
    : log.Discards { log₁ with disk } index records durable := by
  refine h.discards (hspools.trans (spools_of_updates hupdates _)) ⟨hupdates.sound, _, hupdates.self, ?_⟩
  rw [hempty, List.append_nil]

theorem Coherent.discards_of_cut (h : log.Coherent records durable) (log₁ : LogStore) {disk : Volume} {n : Nat}
    (hspools : log.Spools log₁) (hempty : log₁.writer.buffer = [])
    (hupdates : log₁.disk.Updates disk logName
      ⟨log₁.writer.file, (records.take n).flatMap LogRecord.encode, durable⟩)
    (hshort : ((records.take n).flatMap LogRecord.encode).length < (records.flatMap LogRecord.encode).length)
    (hfaulty : log.disk.plan ≠ [])
    : log.Discards { log₁ with disk } index records durable := by
  have hspools' := hspools.trans (spools_of_updates hupdates log₁.writer.buffer)
  refine { hspools'.keeps with outcome := .inl ⟨by rw [hspools'.memory], ?_⟩ }
  refine { hspools'.describes h.toDescribes with
    carries := .inr ⟨hfaulty, _, ⟨hupdates.sound, _, hupdates.self, rfl⟩, ?_⟩ }
  dsimp only
  rw [hempty, List.append_nil]
  exact Nat.ne_of_lt hshort

theorem Spools.discards {log₁ : LogStore} {disk : Volume} {writer : LogWriter} {n : Nat}
    (h : log.Spools log₁)
    (hdescribes : Describes { log with
      entries := log.entries.take (log.position index)
      offsets := log.offsets.take (log.position index)
      fileLength := ((records.take n).flatMap LogRecord.encode).length } (records.take n))
    (hwriter : writer = { file := log₁.writer.file })
    (hupdates : log₁.disk.Updates disk logName ⟨log₁.writer.file, (records.take n).flatMap LogRecord.encode,
      (records.take n).flatMap LogRecord.encode⟩)
    : ∃ log', log' = { log₁ with
          disk
          writer
          entries := log₁.entries.take (log.position index)
          offsets := log₁.offsets.take (log.position index)
          fileLength := ((records.take n).flatMap LogRecord.encode).length } ∧
        log'.Coherent (records.take n) ((records.take n).flatMap LogRecord.encode) ∧
        log.Discards log' index records durable := by
  subst hwriter
  have hspools := h.trans (spools_of_updates hupdates [])
  have hmemory := h.memory
  have hcoherent : Coherent { log₁ with
      disk
      writer := { file := log₁.writer.file }
      entries := log₁.entries.take (log.position index)
      offsets := log₁.offsets.take (log.position index)
      fileLength := ((records.take n).flatMap LogRecord.encode).length } (records.take n)
      ((records.take n).flatMap LogRecord.encode) := by
    refine ⟨?_, hupdates.sound, _, hupdates.self, List.append_nil _⟩
    rw [hmemory]
    exact ⟨hdescribes.fit, hdescribes.selects, hdescribes.parallel, hdescribes.fileLength⟩
  refine ⟨_, rfl, hcoherent, { hspools.keeps with outcome := .inr ⟨?_, n, hcoherent⟩ }⟩
  rw [hmemory]

theorem yields_discardFrom (h : log.Coherent records durable) (index : Nat)
    : EStateM.Yields
        (fun _ log' => log.Discards log' index records durable ∧
          (∃ records' durable', log'.Coherent records' durable') ∧
          log'.entries = log.entries.take (log.position index))
        (fun log' => log.Discards log' index records durable ∧
          (log.disk.plan = [] → index ≤ log.snapshotIndex))
        (discardFrom index log) := by
  unfold discardFrom
  rw [EStateM.bind_get]
  dsimp only
  split
  . next hlow => exact ⟨h.discards (.refl log) h.carries, fun _ => hlow⟩
  split
  . next hhigh =>
    refine ⟨h.discards (.refl log) h.carries, ⟨_, _, h⟩, (List.take_of_length_le ?_).symm⟩
    rw [lastIndex_eq h.follows] at hhigh
    unfold position
    omega
  next hlow hhigh =>
  have hp : log.position index < log.entries.length := by
    rw [lastIndex_eq h.follows] at hhigh
    unfold position
    omega
  obtain ⟨n, hoffset, hshort, hdescribes⟩ := h.cut hp
  have hcut : (records.flatMap LogRecord.encode).take ((records.take n).flatMap LogRecord.encode).length
      = (records.take n).flatMap LogRecord.encode := by
    rw [LogRecord.flatMap_split records n]
    exact List.take_left' rfl
  rw [hoffset] at hdescribes ⊢
  -- up to here nothing happens to the file
  apply (yields_flush h.carries).bind
  . exact fun _ herror => ⟨h.discards herror.1 herror.2.1, fun hcalm => (herror.2.2.1 hcalm).elim⟩
  rintro _ log₁ ⟨hspools, hcarries, hempty⟩
  obtain ⟨written, hfile, hbytes⟩ := hcarries.file
  rw [hempty, List.append_nil] at hbytes
  subst hbytes
  have hfaulty : ∀ {disk : Volume}, disk.plan ≠ [] → disk.plan <:+ log₁.disk.plan →
      (log.disk.plan = [] → index ≤ log.snapshotIndex) :=
    fun hplan hsuffix hcalm => (hplan (Volume.calm_of_suffix (hsuffix.trans hspools.plan) hcalm)).elim
  apply (yields_onDisk (Disk.yields_openExisting hcarries.sound hfile)).bind
  . rintro _ ⟨disk, rfl, h₁, hplan⟩
    exact ⟨h.discards_of_updates log₁ hspools hempty h₁, hfaulty hplan (List.suffix_refl _)⟩
  rintro _ _ ⟨disk₁, rfl, rfl, h₁⟩
  apply (yields_onDisk (Disk.yields_setLength h₁.sound h₁.self (Nat.le_of_lt hshort))).bind
  . rintro _ ⟨disk, rfl, h₂, hplan⟩
    exact ⟨h.discards_of_updates log₁ hspools hempty (h₁.trans h₂), hfaulty hplan h₁.plan⟩
  rintro _ _ ⟨disk₂, rfl, h₂⟩
  have h₂ := h₁.trans h₂
  dsimp only at h₂ ⊢
  rw [hcut] at h₂
  have hsync := Disk.yields_sync h₂.sound h₂.self
  apply (yields_onDisk hsync).bind
  . rintro _ ⟨disk, rfl, h₃, hplan⟩
    have hplan₀ := (hspools.trans (spools_of_updates h₂ log₁.writer.buffer)).plan_ne hplan
    exact ⟨h.discards_of_cut log₁ hspools hempty (h₂.trans h₃) hshort hplan₀, hfaulty hplan h₂.plan⟩
  rintro _ _ ⟨disk₃, rfl, h₃⟩
  have h₃ := h₂.trans h₃
  dsimp only at h₃
  rw [EStateM.bind_modify]
  apply (yields_renewWriter { log₁ with
    disk := disk₃
    entries := log₁.entries.take (log.position index)
    offsets := log₁.offsets.take (log.position index)
    fileLength := ((records.take n).flatMap LogRecord.encode).length } h₃.sound h₃.self hempty).imp
  . rintro _ _ ⟨disk, rfl, h₄⟩
    obtain ⟨_, rfl, hcoherent, hdiscards⟩ := hspools.discards hdescribes rfl (h₃.trans h₄)
    refine ⟨hdiscards, ⟨_, _, hcoherent⟩, ?_⟩
    rw [hspools.memory]
  . rintro _ ⟨disk, rfl, h₄, hplan⟩
    have hwriter : log₁.writer = { file := log₁.writer.file } := by
      rw [← hempty]
    obtain ⟨_, rfl, -, hdiscards⟩ := hspools.discards hdescribes hwriter (h₃.trans h₄)
    exact ⟨hdiscards, hfaulty hplan h₃.plan⟩

inductive Installs (log log' : LogStore) (index term : Nat) (data : Bytes) (records : List LogEntry)
    (durable : Bytes) : Prop where
  | before (keeps : log.Keeps log') (entries : log'.entries = log.entries)
      (buffer : log'.writer.buffer = log.writer.buffer) (coherent : log'.Coherent records durable)
  | between (le : log.snapshotIndex ≤ index) (plan : log'.disk.plan <:+ log.disk.plan)
      (faulty : log.disk.plan ≠ []) (policy : log'.policy = log.policy)
      (snapshotIndex : log'.snapshotIndex = log.snapshotIndex) (entries : log'.entries = log.entries)
      (buffer : log.writer.buffer = [] → log'.writer.buffer = []) (coherent : log'.Coherent records durable)
      (snapshot : log'.disk.Holds snapshotName (some (Snapshot.encode ⟨index, term, data⟩)))
  | after (le : log.snapshotIndex ≤ index) (plan : log'.disk.plan <:+ log.disk.plan)
      (policy : log'.policy = log.policy) (snapshotIndex : log'.snapshotIndex = index)
      (snapshotTerm : log'.snapshotTerm = term) (entries : log'.entries = log.retained index term)
      (describes : log'.Describes (log.retained index term)) (sound : log'.disk.calmed.Sound)
      (file : log'.disk.Holds logName (some ((log.retained index term).flatMap LogRecord.encode)))
      (writer : log.disk.plan = [] ∨ log'.Aligned →
        log'.Coherent (log.retained index term) ((log.retained index term).flatMap LogRecord.encode))
      (snapshot : log'.disk.Holds snapshotName (some (Snapshot.encode ⟨index, term, data⟩)))

theorem logName_touched : logName ≠ snapshotName ∧ logName ≠ Disk.temporary snapshotName := by
  decide

theorem Describes.retained_fits (h : log.Describes records)
    : ∀ e ∈ log.retained index term, e.Fits := by
  intro e he
  unfold retained at he
  split at he
  . exact h.entry_fits (List.mem_filter.1 he).1
  . cases he

theorem Coherent.between {disk : Volume} (h : log.Coherent records durable)
    (hle : log.snapshotIndex ≤ index) (htouches : log.disk.Touches disk snapshotName)
    (hholds : disk.Holds snapshotName (some (Snapshot.encode ⟨index, term, data⟩)))
    (hspools : Spools { log with disk } log')
    (hcarries : log'.Carries (records.flatMap LogRecord.encode) durable)
    (hplan : disk.plan ≠ []) (hbuffer : log.writer.buffer = [] → log'.writer.buffer = [])
    : log.Installs log' index term data records durable := by
  have hmemory := hspools.memory
  have hdescribes : Describes { log with disk } records := ⟨h.fit, h.selects, h.parallel, h.fileLength⟩
  refine .between hle (hspools.plan.trans htouches.plan) (htouches.plan.ne_nil hplan) ?_ ?_ ?_ hbuffer
    { hspools.describes hdescribes with carries := hcarries } (hholds.of_eq hspools.snapshot)
  . rw [hmemory]
  . rw [hmemory]
  . rw [hmemory]

def shortened (log : LogStore) (index term : Nat) (disk : Volume) (writer : LogWriter) : LogStore :=
  { log with
    disk
    writer
    fileLength := ((log.retained index term).flatMap LogRecord.encode).length
    entries := log.retained index term
    offsets := offsetsOf 0 (log.retained index term)
    snapshotIndex := index
    snapshotTerm := term }

theorem Coherent.shortened {disk : Volume} {writer : LogWriter} {id : Nat}
    (h : log.Coherent records durable) (hle : log.snapshotIndex ≤ index)
    (hplan : disk.plan <:+ log.disk.plan) (hsound : disk.calmed.Sound)
    (hfile : disk.find? logName = some (.file ⟨id, (log.retained index term).flatMap LogRecord.encode,
      (log.retained index term).flatMap LogRecord.encode⟩))
    (hholds : disk.Holds snapshotName (some (Snapshot.encode ⟨index, term, data⟩)))
    (hbuffer : writer.buffer = []) (hfresh : log.disk.plan = [] → writer.file = id)
    : log.Installs (log.shortened index term disk writer) index term data records durable := by
  have hdescribes : (log.shortened index term disk writer).Describes (log.retained index term) :=
    ⟨h.retained_fits, selects_layout 0 (retained_follows term h.follows hle), length_offsetsOf _ _, rfl⟩
  refine .after hle hplan rfl rfl rfl rfl hdescribes hsound ⟨id, hfile⟩ ?_ hholds
  intro hwhole
  have hid : writer.file = id := by
    rcases hwhole with hnil | ⟨_, _, haligned, -⟩
    . exact hfresh hnil
    . cases haligned.symm.trans hfile
      rfl
  refine { hdescribes with carries := ⟨hsound, (log.retained index term).flatMap LogRecord.encode, ?_, ?_⟩ }
  . dsimp only [LogStore.shortened]
    rw [hid]
    exact hfile
  . dsimp only [LogStore.shortened]
    rw [hbuffer, List.append_nil]

theorem Installs.coherent (h : log.Installs log' index term data records durable)
    (hwhole : log.disk.plan = [] ∨ log'.Aligned)
    : ∃ records' durable', log'.Coherent records' durable' := by
  cases h with
  | before _ _ _ coherent => exact ⟨_, _, coherent⟩
  | between _ _ _ _ _ _ _ coherent _ => exact ⟨_, _, coherent⟩
  | after _ _ _ _ _ _ _ _ _ writer _ => exact ⟨_, _, writer hwhole⟩

theorem Installs.plan_suffix (h : log.Installs log' index term data records durable)
    : log'.disk.plan <:+ log.disk.plan := by
  cases h with
  | before keeps _ _ _ => exact keeps.plan
  | between _ plan _ _ _ _ _ _ _ => exact plan
  | after _ plan _ _ _ _ _ _ _ _ _ => exact plan

theorem yields_putSnapshot (h : log.Coherent records durable) (index term : Nat) (data : Bytes)
    : EStateM.Yields
        (fun _ log' => log.Installs log' index term data records durable ∧ log'.snapshotIndex = index ∧
          log'.Aligned)
        (fun log' => log.Installs log' index term data records durable ∧ (log.disk.plan = [] → log' = log))
        (putSnapshot index term data log) := by
  unfold putSnapshot
  rw [EStateM.bind_get]
  dsimp only
  split
  . exact ⟨.before ⟨rfl, rfl, rfl, List.suffix_refl _, rfl⟩ rfl rfl h, fun _ => rfl⟩
  next hle =>
  have hle : log.snapshotIndex ≤ index := Nat.not_lt.1 hle
  obtain ⟨written, hfile, hbytes⟩ := h.carries.file
  apply (yields_onDisk (Disk.yields_replace h.carries.sound snapshotName _)).bind
  . rintro _ ⟨disk, rfl, htouches, hsame, hplan⟩
    refine ⟨.before ⟨rfl, rfl, rfl, htouches.plan, hsame⟩ rfl rfl
      ⟨⟨h.fit, h.selects, h.parallel, h.fileLength⟩, ?_⟩, fun hcalm => (hplan hcalm).elim⟩
    refine ⟨htouches.sound, written, ?_, hbytes⟩
    rw [← hfile]
    exact htouches.other _ logName_touched.1 logName_touched.2
  rintro _ _ ⟨disk₁, rfl, htouches, hholds⟩
  have hcarries : Carries { log with disk := disk₁ } (records.flatMap LogRecord.encode) durable := by
    refine ⟨htouches.sound, written, ?_, hbytes⟩
    rw [← hfile]
    exact htouches.other _ logName_touched.1 logName_touched.2
  -- from here on the snapshot is the new one
  apply (yields_flush hcarries).bind
  . rintro log' ⟨hspools, hcarries, hplan, hbuffered⟩
    exact ⟨h.between hle htouches hholds hspools hcarries hplan fun hempty => (hbuffered hempty).elim,
      fun hcalm => (htouches.plan.ne_nil hplan hcalm).elim⟩
  rintro _ log₂ ⟨hspools, hcarries₂, hempty⟩
  obtain ⟨written₂, hfile₂, hbytes₂⟩ := hcarries₂.file
  apply (yields_onDisk (Disk.yields_replace hcarries₂.sound logName _)).bind
  . rintro _ ⟨disk, rfl, htouches₂, hsame, hplan⟩
    refine ⟨?_, fun hcalm => (htouches.plan.ne_nil (hspools.plan_ne hplan) hcalm).elim⟩
    apply h.between hle htouches hholds
    . exact hspools.trans ⟨rfl, htouches₂.plan, htouches₂.other _ snapshotName_ne.1 snapshotName_ne.2⟩
    . exact ⟨htouches₂.sound, written₂, hsame.trans hfile₂, hbytes₂⟩
    . exact hspools.plan_ne hplan
    . exact fun _ => hempty
  rintro _ _ ⟨disk₃, rfl, htouches₃, ⟨id, hfile₃⟩⟩
  -- and from here on the log
  rw [EStateM.bind_modify]
  have hmemory := hspools.memory
  have hplan₃ := (htouches₃.plan.trans hspools.plan).trans htouches.plan
  have hholds₃ := hholds.of_eq
    ((htouches₃.other _ snapshotName_ne.1 snapshotName_ne.2).trans hspools.snapshot)
  have hinstalls : ∀ {disk : Volume} {writer : LogWriter}, writer.buffer = [] →
      (log.disk.plan = [] → writer.file = id) → disk₃.Updates disk logName
        ⟨id, (log.retained index term).flatMap LogRecord.encode,
          (log.retained index term).flatMap LogRecord.encode⟩ →
      log.Installs (log.shortened index term disk writer) index term data records durable :=
    fun hbuffer hfresh hupdates => h.shortened hle (hupdates.plan.trans hplan₃) hupdates.sound hupdates.self
      (hholds₃.of_eq (hupdates.other _ snapshotName_ne.1)) hbuffer hfresh
  have hlog : { log₂ with
      disk := disk₃
      fileLength := ((log.retained index term).flatMap LogRecord.encode).length
      entries := log.retained index term
      offsets := offsetsOf 0 (log.retained index term)
      snapshotIndex := index
      snapshotTerm := term } = log.shortened index term disk₃ log₂.writer := by
    rw [hmemory]
    rfl
  dsimp only at hlog ⊢
  rw [hlog]
  apply (yields_renewWriter (log.shortened index term disk₃ log₂.writer) htouches₃.sound hfile₃ hempty).imp
  . rintro _ _ ⟨disk, rfl, hupdates⟩
    exact ⟨hinstalls rfl (fun _ => rfl) hupdates, rfl, _, _, hupdates.self, rfl⟩
  . rintro _ ⟨disk, rfl, hupdates, hplan⟩
    have hfaulty := hplan₃.ne_nil hplan
    exact ⟨hinstalls hempty (fun hcalm => (hfaulty hcalm).elim) hupdates, fun hcalm => (hfaulty hcalm).elim⟩

structure Installed (log log' : LogStore) (index term : Nat) (data : Bytes) : Prop where
  snapshotIndex : log'.snapshotIndex = index
  snapshotTerm : log'.snapshotTerm = term
  entries : log'.entries = log.retained index term
  snapshot : log'.disk.Holds snapshotName (some (Snapshot.encode ⟨index, term, data⟩))
  carries : ∃ bytes durable, log'.Carries bytes durable

theorem yields_putSnapshot_installed {bytes : Bytes} (h : log.Carries bytes durable) (index term : Nat)
    (data : Bytes)
    : EStateM.Yields (fun _ log' => log.Installed log' index term data) (fun _ => True)
        (putSnapshot index term data log) := by
  obtain ⟨written, hfile, hbytes⟩ := h.file
  unfold putSnapshot
  rw [EStateM.bind_get]
  dsimp only
  split
  . exact trivial
  apply (yields_onDisk (Disk.yields_replace h.sound snapshotName _)).bind
  . exact fun _ _ => trivial
  rintro _ _ ⟨disk₁, rfl, htouches, hholds⟩
  have hcarries : Carries { log with disk := disk₁ } bytes durable :=
    ⟨htouches.sound, written, (htouches.other _ logName_touched.1 logName_touched.2).trans hfile, hbytes⟩
  apply (yields_flush hcarries).bind
  . exact fun _ _ => trivial
  rintro _ log₂ ⟨hspools, hcarries₂, hempty⟩
  apply (yields_onDisk (Disk.yields_replace hcarries₂.sound logName _)).bind
  . exact fun _ _ => trivial
  rintro _ _ ⟨disk₃, rfl, htouches₃, ⟨id, hfile₃⟩⟩
  rw [EStateM.bind_modify]
  -- the later steps are about the file of the log
  have hholds₃ : disk₃.Holds snapshotName (some (Snapshot.encode ⟨index, term, data⟩)) :=
    hholds.of_eq ((htouches₃.other _ snapshotName_ne.1 snapshotName_ne.2).trans hspools.snapshot)
  have hrenewed : ∀ log₃ : LogStore, log₃.disk = disk₃ → log₃.writer.buffer = [] →
      log₃.snapshotIndex = index → log₃.snapshotTerm = term → log₃.entries = log.retained index term →
      EStateM.Yields (fun _ log' => log.Installed log' index term data) (fun _ => True) (renewWriter log₃) := by
    rintro log₃ rfl hempty₃ hindex hterm hentries
    apply (yields_renewWriter log₃ htouches₃.sound hfile₃ hempty₃).imp
    . rintro _ _ ⟨disk, rfl, hupdates⟩
      exact ⟨hindex, hterm, hentries, hholds₃.of_eq (hupdates.other _ snapshotName_ne.1), _, _,
        hupdates.sound, _, hupdates.self, List.append_nil _⟩
    . exact fun _ _ => trivial
  exact hrenewed _ rfl hempty rfl rfl rfl

end LogStore

end ReplicatedStore
