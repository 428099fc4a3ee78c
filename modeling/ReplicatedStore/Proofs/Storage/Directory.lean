import ReplicatedStore.Proofs.Storage.Record
import ReplicatedStore.Proofs.Storage.Volume

/-!
The directory of a node between two steps: what its three files hold, and what a log knows of them.
-/

namespace ReplicatedStore

def Follows : Nat → List LogEntry → Prop
  | _, [] => True
  | base, e :: rest => e.index = base + 1 ∧ Follows (base + 1) rest

instance decidableFollows : (base : Nat) → (entries : List LogEntry) → Decidable (Follows base entries)
  | _, [] => isTrue trivial
  | base, e :: rest =>
    have := decidableFollows (base + 1) rest
    inferInstanceAs (Decidable (e.index = base + 1 ∧ Follows (base + 1) rest))

namespace Follows

variable {base : Nat} {as bs : List LogEntry}

theorem append (ha : Follows base as) (hb : Follows (base + as.length) bs)
    : Follows base (as ++ bs) := by
  induction as generalizing base with
  | nil => exact hb
  | cons e rest ih =>
    refine ⟨ha.1, ih ha.2 ?_⟩
    rw [List.length_cons] at hb
    rwa [show base + 1 + rest.length = base + (rest.length + 1) by omega]

theorem left (h : Follows base (as ++ bs)) : Follows base as := by
  induction as generalizing base with
  | nil => trivial
  | cons e rest ih => exact ⟨h.1, ih h.2⟩

theorem right (h : Follows base (as ++ bs)) : Follows (base + as.length) bs := by
  induction as generalizing base with
  | nil => exact h
  | cons e rest ih =>
    rw [List.length_cons, show base + (rest.length + 1) = base + 1 + rest.length by omega]
    exact ih h.2

theorem take (h : Follows base as) (n : Nat) : Follows base (as.take n) := by
  apply left
  rwa [List.take_append_drop]

theorem drop (h : Follows base as) {n : Nat} (hn : n ≤ as.length)
    : Follows (base + n) (as.drop n) := by
  have hright : Follows (base + (as.take n).length) (as.drop n) := by
    apply right
    rwa [List.take_append_drop]
  rwa [List.length_take, Nat.min_eq_left hn] at hright

theorem index_eq (h : Follows base as) {k : Nat} (hk : k < as.length)
    : as[k].index = base + k + 1 := by
  have := h.drop (Nat.le_of_lt hk)
  rw [List.drop_eq_getElem_cons hk] at this
  exact this.1

theorem lt_of_mem (h : Follows base as) {e : LogEntry} (he : e ∈ as) : base < e.index := by
  obtain ⟨k, hk, rfl⟩ := List.mem_iff_getElem.1 he
  have := h.index_eq hk
  omega

theorem of_forall (h : ∀ (k : Nat) (hk : k < as.length), as[k].index = base + k + 1)
    : Follows base as := by
  induction as generalizing base with
  | nil => trivial
  | cons e rest ih =>
    refine ⟨h 0 (Nat.zero_lt_succ _), ih ?_⟩
    intro k hk
    have := h (k + 1) (Nat.succ_lt_succ hk)
    rw [List.getElem_cons_succ] at this
    omega

end Follows

structure Volume.Stores (v : Volume) (entries : List LogEntry) (snapshot : Option Snapshot)
    (hard : HardState) : Prop where
  sound : v.Sound
  logFile : v.Holds LogStore.logName (some (entries.flatMap LogRecord.encode)) ∨
    entries = [] ∧ v.Holds LogStore.logName none
  snapshotFile : v.Holds LogStore.snapshotName (snapshot.map (·.encode))
  hardFile : v.Holds HardState.fileName (some hard.encode) ∨
    hard = {} ∧ v.Holds HardState.fileName none
  follows : Follows ((snapshot.map (·.index)).getD 0) entries
  entriesFit : ∀ e ∈ entries, e.Fits
  snapshotFits : ∀ s ∈ snapshot, s.Fits
  hardFits : hard.Fits

theorem Volume.stores_empty : ({} : Volume).Stores [] none {} where
  sound := Volume.sound_empty
  logFile := .inr ⟨rfl, Volume.holds_empty _⟩
  snapshotFile := Volume.holds_empty _
  hardFile := .inr ⟨rfl, Volume.holds_empty _⟩
  follows := trivial
  entriesFit e he := by
    cases he
  snapshotFits s hs := by
    cases hs
  hardFits := {
    term := by decide
    voter := by
      intro name hname
      cases hname }

theorem Volume.Stores.crash {v : Volume} {entries : List LogEntry} {snapshot : Option Snapshot}
    {hard : HardState} (h : v.Stores entries snapshot hard)
    : v.crash.Stores entries snapshot hard :=
  { h with
    sound := h.sound.crash
    logFile := h.logFile.imp (·.crash) (And.imp_right (·.crash))
    snapshotFile := h.snapshotFile.crash
    hardFile := h.hardFile.imp (·.crash) (And.imp_right (·.crash)) }

namespace LogStore

structure Intact (log : LogStore) (snapshot : Option Snapshot) (hard : HardState) : Prop where
  stores : log.disk.Stores log.entries snapshot hard
  policy : log.policy = .always
  unbuffered : log.writer.buffer = []
  file : log.disk.find? logName = some (.file
    ⟨log.writer.file, log.entries.flatMap LogRecord.encode, log.entries.flatMap LogRecord.encode⟩)
  offsets : log.offsets = offsetsOf 0 log.entries
  fileLength : log.fileLength = (log.entries.flatMap LogRecord.encode).length
  snapshotIndex : log.snapshotIndex = (snapshot.map (·.index)).getD 0
  snapshotTerm : log.snapshotTerm = (snapshot.map (·.term)).getD 0

variable {log : LogStore} {snapshot : Option Snapshot} {hard : HardState}

theorem Intact.follows (h : log.Intact snapshot hard) : Follows log.snapshotIndex log.entries := by
  rw [h.snapshotIndex]
  exact h.stores.follows

theorem lastIndex_eq (h : Follows log.snapshotIndex log.entries)
    : log.lastIndex = log.snapshotIndex + log.entries.length := by
  unfold lastIndex
  rw [List.getLast?_eq_getElem?]
  by_cases hne : log.entries.length = 0
  . simp [List.eq_nil_of_length_eq_zero hne]
  . rw [List.getElem?_eq_getElem (by omega)]
    rw [Option.map_some, Option.getD_some, h.index_eq]
    omega

theorem snapshotName_ne : snapshotName ≠ logName ∧ snapshotName ≠ Disk.temporary logName := by
  decide

theorem hardName_ne
    : HardState.fileName ≠ logName ∧ HardState.fileName ≠ Disk.temporary logName ∧
      HardState.fileName ≠ snapshotName ∧ HardState.fileName ≠ Disk.temporary snapshotName := by
  decide

theorem logName_ne
    : logName ≠ snapshotName ∧ logName ≠ Disk.temporary snapshotName ∧
      logName ≠ HardState.fileName ∧ logName ≠ Disk.temporary HardState.fileName ∧
      snapshotName ≠ HardState.fileName ∧ snapshotName ≠ Disk.temporary HardState.fileName := by
  decide

theorem offsetsOf_append (start : Nat) (as bs : List LogEntry)
    : offsetsOf start (as ++ bs)
        =
      offsetsOf start as ++ offsetsOf (start + (as.flatMap LogRecord.encode).length) bs := by
  induction as generalizing start with
  | nil => rfl
  | cons e rest ih =>
    rw [List.cons_append, offsetsOf, offsetsOf, ih]
    rw [List.flatMap_cons, List.length_append, LogRecord.size_eq, Nat.add_assoc]
    rfl

theorem length_offsetsOf (start : Nat) (entries : List LogEntry)
    : (offsetsOf start entries).length = entries.length := by
  induction entries generalizing start with
  | nil => rfl
  | cons e rest ih => rw [offsetsOf, List.length_cons, List.length_cons, ih]

theorem offset_eq (entries : List LogEntry) {k : Nat} (hk : k < entries.length)
    : (offsetsOf 0 entries).getD k 0 = ((entries.take k).flatMap LogRecord.encode).length := by
  have hsplit := offsetsOf_append 0 (entries.take k) (entries.drop k)
  rw [List.take_append_drop, List.drop_eq_getElem_cons hk] at hsplit
  have hlength : (offsetsOf 0 (entries.take k)).length = k := by
    rw [length_offsetsOf, List.length_take, Nat.min_eq_left (Nat.le_of_lt hk)]
  rw [hsplit, List.getD_eq_getElem?_getD, List.getElem?_append_right (by omega)]
  simp [hlength, offsetsOf]

theorem take_offsetsOf (start : Nat) (entries : List LogEntry) (k : Nat)
    : (offsetsOf start entries).take k = offsetsOf start (entries.take k) := by
  induction entries generalizing start k with
  | nil => cases k <;> rfl
  | cons e rest ih =>
    cases k with
    | zero => rfl
    | succ k => rw [offsetsOf, List.take_succ_cons, List.take_succ_cons, offsetsOf, ih]

end LogStore

theorem Volume.Stores.setLog {v v' : Volume} {file : Nat} {entries entries' : List LogEntry}
    {snapshot : Option Snapshot} {hard : HardState} (h : v.Stores entries snapshot hard)
    (hset : v.Sets v' LogStore.logName
      ⟨file, entries'.flatMap LogRecord.encode, entries'.flatMap LogRecord.encode⟩)
    (hfollows : Follows ((snapshot.map (·.index)).getD 0) entries') (hfit : ∀ e ∈ entries', e.Fits)
    : v'.Stores entries' snapshot hard :=
  { h with
    sound := hset.sound
    logFile := .inl ⟨file, hset.self⟩
    snapshotFile := h.snapshotFile.of_eq (hset.other _ LogStore.snapshotName_ne.1)
    hardFile := h.hardFile.imp (·.of_eq (hset.other _ LogStore.hardName_ne.1))
      (And.imp_right (·.of_eq (hset.other _ LogStore.hardName_ne.1)))
    follows := hfollows
    entriesFit := hfit }

end ReplicatedStore
