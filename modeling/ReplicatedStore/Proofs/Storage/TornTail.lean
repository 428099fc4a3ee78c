import ReplicatedStore.Proofs.Storage.Sessions

/-!
A log whose file was cut after closing. What ends before the cut is opened, the rest is cut off, and the log goes
on from there.
-/

namespace ReplicatedStore

namespace LogRecord

def lastStop (records : List (Nat × LogEntry)) : Nat :=
  (records.getLast?.map stop).getD 0

theorem lastStop_layout (entries : List LogEntry)
    : lastStop (layout 0 entries) = (entries.flatMap encode).length := by
  rcases List.eq_nil_or_concat entries with rfl | ⟨front, e, rfl⟩
  . rfl
  . rw [List.concat_eq_append]
    unfold lastStop
    rw [layout_append, Nat.zero_add, layout_cons, List.getLast?_append]
    rw [List.flatMap_append, List.length_append, List.flatMap_singleton, size_eq]
    rfl

end LogRecord

namespace LogStore

theorem Selects.eq_filter {base count : Nat} {records kept : List (Nat × LogEntry)}
    (h : Selects base count records kept)
    : kept = records.filter (base < ·.2.index) := by
  induction h with
  | nil => rfl
  | skip hle _ ih => rw [List.filter_cons_of_neg (by simpa using hle), ih]
  | keep hindex _ ih => rw [List.filter_cons_of_pos (by simp; omega), ← ih]

variable {log : LogStore} {records : List LogEntry} {snapshot : Option Snapshot}

theorem Admits.left {as bs : List LogEntry} (h : log.Admits (as ++ bs)) : log.Admits as where
  follows := h.follows.left
  short e he := h.short e (List.mem_append_left _ he)

theorem Regular.append (h : log.Regular records snapshot) {added : List LogEntry} (hadmits : log.Admits added)
    (hrange : ∀ e ∈ added, e.InRange)
    : ∃ log', LogStore.append added log = .ok () log' ∧ log.Extends log' added ∧
        log'.Regular (records ++ added) snapshot := by
  obtain ⟨durable, hcoherent⟩ := h.coherent
  have happend := yields_appendEntries hcoherent hrange
  cases hresult : LogStore.append added log with
  | ok _ log' =>
    rw [hresult] at happend
    obtain ⟨hextends, -, durable', hcoherent', -⟩ := happend
    refine ⟨log', rfl, hextends, { hextends.knows h.toKnows with coherent := ⟨durable', hcoherent'⟩, calm := ?_ }⟩
    exact Volume.calm_of_suffix hextends.plan h.calm
  | error e log' =>
    rw [hresult] at happend
    obtain ⟨n, -, -, -, hrefuses⟩ := happend
    exact (hrefuses h.calm (hadmits.take (n + 1))).elim

theorem Regular.appends (h : log.Regular records snapshot) {batches : List (List LogEntry)}
    (hadmits : log.Admits batches.flatten) (hrange : ∀ e ∈ batches.flatten, e.InRange)
    : ∃ log', batches.forM LogStore.append log = .ok () log' ∧ log.Extends log' batches.flatten ∧
        log'.Regular (records ++ batches.flatten) snapshot := by
  induction batches generalizing log records with
  | nil => exact ⟨log, rfl, .refl log, by rwa [List.flatten_nil, List.append_nil]⟩
  | cons batch rest ih =>
    rw [List.flatten_cons] at hadmits hrange ⊢
    obtain ⟨log₁, happend, hextends, h₁⟩ :=
      h.append hadmits.left fun e he => hrange e (List.mem_append_left _ he)
    have hadmits₁ : log₁.Admits rest.flatten := by
      obtain ⟨_, hcoherent⟩ := h.coherent
      obtain ⟨_, hcoherent₁⟩ := h₁.coherent
      refine ⟨?_, fun e he => hadmits.short e (List.mem_append_right _ he)⟩
      rw [hextends.lastIndex_eq hcoherent.follows hcoherent₁.follows]
      exact hadmits.follows.right
    obtain ⟨log₂, happends, hextends₂, h₂⟩ := ih h₁ hadmits₁ fun e he => hrange e (List.mem_append_right _ he)
    rw [List.append_assoc] at h₂
    refine ⟨log₂, ?_, hextends.trans hextends₂, h₂⟩
    unfold List.forM
    rw [EStateM.bind_of_ok happend, happends]

structure Recovers (log : LogStore) (records : List LogEntry) (cut : Nat) (policy : SyncPolicy)
    (reopened : LogStore) : Prop where
  opened : LogStore.open policy (log.close.store logName ((records.flatMap LogRecord.encode).take cut))
    = .ok reopened reopened.disk
  snapshot : ∃ snapshot, storedSnapshot log = .ok snapshot log ∧
    storedSnapshot reopened = .ok snapshot reopened ∧
    reopened.snapshotIndex = log.snapshotIndex ∧ reopened.snapshotTerm = log.snapshotTerm
  entries : reopened.entries = ((log.offsets.zip log.entries).filter (LogRecord.stop · ≤ cut)).map (·.2)
  fileLength : reopened.fileLength
    = LogRecord.lastStop ((LogRecord.layout 0 records).filter (LogRecord.stop · ≤ cut))
  shortened : reopened.disk.content? logName
    = some ((records.flatMap LogRecord.encode).take reopened.fileLength)
  continues : ∀ batches : List (List LogEntry), reopened.Admits batches.flatten →
    (∀ e ∈ batches.flatten, e.InRange) →
    ∃ extended, batches.forM append reopened = .ok () extended ∧ ∀ policy, ∃ again,
      LogStore.open policy extended.close = .ok again again.disk ∧
      again.entries = reopened.entries ++ batches.flatten
  faithful : ∀ events : List LogEvent, (∀ event ∈ events, event.InRange) →
    (events.foldl LogHost.perform (.opened reopened)).Faithful

theorem Describes.before (h : log.Describes records) (cut : Nat)
    : ∃ n rest, (records.flatMap LogRecord.encode).take cut
          = (records.take n).flatMap LogRecord.encode ++ rest ∧
        LogRecord.read? rest = none ∧
        LogRecord.layout 0 (records.take n) = (LogRecord.layout 0 records).filter (LogRecord.stop · ≤ cut) ∧
        Selects log.snapshotIndex 0 (LogRecord.layout 0 (records.take n))
          ((log.offsets.zip log.entries).filter (LogRecord.stop · ≤ cut)) := by
  obtain ⟨n, rest, htake, hrest, hwhole⟩ := LogRecord.exists_take h.fit cut
  have hwhole := hwhole 0
  rw [Nat.zero_add] at hwhole
  obtain ⟨m, hselects, -⟩ := h.selects.take n
  rw [LogRecord.layout_take] at hselects
  -- being behind the snapshot and ending before the cut do not depend on each other
  have hkept : (log.offsets.zip log.entries).take m
      = (log.offsets.zip log.entries).filter (LogRecord.stop · ≤ cut) := by
    rw [hselects.eq_filter, hwhole, h.selects.eq_filter, List.filter_filter, List.filter_filter]
    congr 1
    funext r
    exact Bool.and_comm _ _
  rw [hkept] at hselects
  exact ⟨n, rest, htake, hrest, hwhole, hselects⟩

theorem Regular.recovers (h : log.Regular records snapshot) (cut : Nat) (policy : SyncPolicy)
    : ∃ reopened, log.Recovers records cut policy reopened := by
  obtain ⟨flushed, hclose, hspools, hflushed, -⟩ := h.close
  obtain ⟨_, hcoherent⟩ := h.coherent
  obtain ⟨n, rest, htake, hrest, hwhole, hselects⟩ := hcoherent.before cut
  obtain ⟨id, hset⟩ := hflushed.sound.sets_store logName ((records.flatMap LogRecord.encode).take cut)
  have hread := readSnapshot_congr hflushed.reads (hset.other _ snapshotName_ne.1)
  have hcontent : ((flushed.disk.store logName ((records.flatMap LogRecord.encode).take cut)).content?
      logName).getD [] = (records.take n).flatMap LogRecord.encode ++ rest := by
    rw [content?_of_file hset.self, Option.getD_some, htake]
  have hfit : ∀ e ∈ records.take n, e.Fits := fun e he => hcoherent.fit e (List.mem_of_mem_take he)
  rw [h.snapshotIndex] at hselects
  obtain ⟨reopened, hopen, hopens, hentries⟩ :=
    open_of_selects hset.sound hread hcontent hfit hrest policy hselects
  have hregular := hopens.regular hread hset.sound.calm
  obtain ⟨_, hreopened, -⟩ := hopens.coherent
  obtain ⟨written, hfile, hbytes⟩ := hreopened.carries.file
  rw [hopens.unbuffered, List.append_nil] at hbytes
  refine ⟨reopened, ?_, ?_, hentries, ?_, ?_, ?_, ?_⟩
  . rw [hclose]
    exact hopen
  . refine ⟨snapshot, h.storedSnapshot, hregular.storedSnapshot, ?_, ?_⟩
    . rw [hopens.snapshotIndex, h.snapshotIndex]
    . rw [hopens.snapshotTerm, h.snapshotTerm]
  . rw [hreopened.fileLength, ← hwhole, LogRecord.lastStop_layout]
  . rw [content?_of_file hfile, hbytes, hreopened.fileLength, LogRecord.flatMap_split records n,
      List.take_left' rfl]
  . intro batches hadmits hrange
    obtain ⟨extended, happends, hextends, hextended⟩ := hregular.appends hadmits hrange
    refine ⟨extended, happends, fun policy => ?_⟩
    obtain ⟨again, hagain, -, hsame⟩ := hextended.reopened policy
    exact ⟨again, hagain, hsame.trans hextends.entries⟩
  . intro events hrange
    have hhost : (LogHost.opened reopened).Regular := ⟨_, _, hregular⟩
    exact (hhost.run events hrange).faithful

end LogStore

/-- Whatever was appended, discarded and installed before: when a log was closed and its file cut, at whatever
byte, it opens with the entries behind the snapshot whose records end before the cut, the file ends with the
last whole record, and what is appended then follows on those entries when it is opened again. -/
theorem torn_tail_recovered {v v' : Volume} {policy₀ : SyncPolicy} {log₀ log : LogStore} (hv : v.Sound)
    (hopen : LogStore.open policy₀ v = .ok log₀ v') {events : List LogEvent}
    (hrange : ∀ event ∈ events, event.InRange)
    (hrun : events.foldl LogHost.perform (.opened log₀) = .opened log)
    : ∃ records : List LogEntry,
        log.close.content? LogStore.logName = some (records.flatMap LogRecord.encode) ∧
        log.offsets.zip log.entries = (LogRecord.layout 0 records).filter (log.snapshotIndex < ·.2.index) ∧
        (log.offsets.zip log.entries).map (·.2) = log.entries ∧
        ∀ cut policy, ∃ reopened, log.Recovers records cut policy reopened := by
  have hregular : (LogHost.opened log₀).Regular := LogStore.regular_of_open hv hopen
  have hregular := hregular.run events hrange
  rw [hrun] at hregular
  obtain ⟨records, snapshot, hregular⟩ := hregular
  obtain ⟨_, hcoherent⟩ := hregular.coherent
  exact ⟨records, hregular.content?_close, hcoherent.selects.eq_filter, hcoherent.map_snd, hregular.recovers⟩

namespace Torn

def events : List LogEvent :=
  [.call (.append [⟨1, 1, [1]⟩, ⟨1, 2, [2, 2]⟩, ⟨2, 3, []⟩, ⟨2, 4, [4]⟩]), .call (.putSnapshot 1 1 [7]),
    .call (.discardFrom 4), .call (.append [⟨3, 4, [5]⟩])]

def log : LogStore :=
  (events.foldl LogHost.perform (.opened (.fresh .never []))).log?.getD (.fresh .never [])

def file : Bytes :=
  (log.close.content? LogStore.logName).getD []

end Torn

theorem torn_tail_recovered_third
    : ∃ reopened extended again,
        LogStore.open .always (Torn.log.close.store LogStore.logName (Torn.file.take 70))
          = .ok reopened reopened.disk ∧
        reopened.entries = [⟨1, 2, [2, 2]⟩, ⟨2, 3, []⟩] ∧
        [[⟨4, 4, [6]⟩]].forM LogStore.append reopened = .ok () extended ∧
        LogStore.open .interval extended.close = .ok again again.disk ∧
        again.entries = [⟨1, 2, [2, 2]⟩, ⟨2, 3, []⟩, ⟨4, 4, [6]⟩] := by
  have hrange : ∀ event ∈ Torn.events, event.InRange := by
    decide
  have hrun : Torn.events.foldl LogHost.perform (.opened (.fresh .never [])) = .opened Torn.log := by
    decide +kernel
  obtain ⟨records, hfile, -, -, hrecovers⟩ :=
    torn_tail_recovered Volume.sound_empty (LogStore.open_empty .never) hrange hrun
  obtain ⟨reopened, h⟩ := hrecovers 70 .always
  have hcut : Torn.file = records.flatMap LogRecord.encode := by
    unfold Torn.file
    rw [hfile, Option.getD_some]
  have hentries : reopened.entries = [⟨1, 2, [2, 2]⟩, ⟨2, 3, []⟩] := by
    rw [h.entries]
    decide +kernel
  have hadmits : reopened.Admits [[⟨4, 4, [6]⟩]].flatten := by
    refine ⟨?_, by decide⟩
    unfold LogStore.lastIndex
    rw [hentries]
    exact ⟨rfl, trivial⟩
  obtain ⟨extended, happend, hagain⟩ := h.continues _ hadmits (by decide)
  obtain ⟨again, hopen, hsame⟩ := hagain .interval
  rw [hentries] at hsame
  exact ⟨reopened, extended, again, by rw [hcut]; exact h.opened, hentries, happend, hopen, hsame⟩

end ReplicatedStore
