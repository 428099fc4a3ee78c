import ReplicatedStore.Proofs.Checksum
import ReplicatedStore.Proofs.Storage.Replacing
import ReplicatedStore.Proofs.Storage.Sessions

/-!
Files of which one byte was changed. The hard state and the snapshot are refused, wherever that byte is, and of
the log the records before the damaged one are read, unless it is the length of the command that was changed.
-/

namespace ReplicatedStore

namespace Checksum

def Seals (n : Nat) (input : Bytes) : Prop :=
  (crc32 (input.take n)).toNat = Bytes.ofLittleEndian ((input.drop n).take 4)

variable {x y : Bytes} {i n : Nat}

theorem seals_append (covered rest : Bytes)
    : Seals covered.length (covered ++ (Bytes.littleEndian 4 (crc32 covered).toNat ++ rest)) := by
  unfold Seals
  rw [List.take_left' rfl, List.drop_left' rfl, List.take_left' (Bytes.littleEndian_length _ _)]
  rw [Bytes.ofLittleEndian_of_lt (crc32_lt covered)]

theorem Seals.broken (hx : Seals n x) (h : Bytes.DiffersAt i x y) (hi : i < n + 4) : ¬ Seals n y := by
  intro hy
  unfold Seals at hx hy
  by_cases hcovered : i < n
  . rw [h.drop_eq hcovered] at hy
    exact crc32_ne (h.take hcovered) (UInt32.toNat_inj.1 (hx.trans hy.symm))
  . have hn : n ≤ i := Nat.not_lt.1 hcovered
    have hstored := (h.drop hn).take (show i - n < 4 by omega)
    rw [h.take_eq hn] at hy
    have hsame := congrArg (Bytes.littleEndian ((x.drop n).take 4).length) (hx.symm.trans hy)
    rw [Bytes.littleEndian_ofLittleEndian, ← hstored.length_eq, Bytes.littleEndian_ofLittleEndian] at hsame
    exact hstored.ne hsame

theorem seals_iff (h : x.length = n + 4)
    : Seals n x ↔ (crc32 (x.take n)).toNat = Bytes.ofLittleEndian (x.drop n) := by
  have hend : (x.drop n).take 4 = x.drop n := by
    apply List.take_of_length_le
    rw [List.length_drop]
    omega
  unfold Seals
  rw [hend]

end Checksum

variable {i : Nat} {damaged : Bytes}

namespace HardState

theorem decode_damaged (state : HardState) (h : Bytes.DiffersAt i state.encode damaged)
    : decode damaged = .error (.corrupted "hard state checksum mismatch") := by
  have hsize : state.encode.length = state.body.length + 4 := by
    unfold encode
    simp
  have hseals : Checksum.Seals state.body.length state.encode := by
    have := Checksum.seals_append state.body []
    rwa [List.append_nil] at this
  have hlength : damaged.length = state.body.length + 4 := h.length_eq.trans hsize
  have hbroken := hseals.broken h (by rw [← hsize]; exact h.lt_length)
  rw [Checksum.seals_iff hlength] at hbroken
  unfold decode
  dsimp only
  rw [if_neg (by omega), hlength, Nat.add_sub_cancel, if_pos hbroken]

end HardState

namespace Snapshot

theorem decode_damaged (snapshot : Snapshot) (h : Bytes.DiffersAt i snapshot.encode damaged)
    : ∃ what, decode damaged = .error what := by
  have hbody : snapshot.body.length = 24 + snapshot.data.length := by
    unfold body
    simp
    omega
  have hsize : snapshot.encode.length = 4 + snapshot.body.length + 4 := by
    unfold encode mark
    simp
    omega
  have hlength : damaged.length = 4 + snapshot.body.length + 4 := h.length_eq.trans hsize
  by_cases hmark : damaged.take 4 = mark
  . -- the mark is whole, so that the byte is under the checksum or in it
    have hi : 4 ≤ i := by
      apply Nat.not_lt.1
      intro hlt
      apply (h.take hlt).ne
      rw [hmark]
      unfold encode
      rw [List.append_assoc]
      exact List.take_left' rfl
    have hseals : Checksum.Seals snapshot.body.length (snapshot.encode.drop 4) := by
      have htail : snapshot.encode.drop 4
          = snapshot.body ++ (Bytes.littleEndian 4 (Checksum.crc32 snapshot.body).toNat ++ []) := by
        unfold encode
        rw [List.append_assoc, List.append_nil]
        exact List.drop_left' rfl
      rw [htail]
      exact Checksum.seals_append _ _
    have hlt := h.lt_length
    have hbroken := hseals.broken (h.drop hi) (by omega)
    rw [Checksum.seals_iff (by rw [List.length_drop]; omega), List.drop_drop] at hbroken
    refine ⟨"snapshot checksum mismatch", ?_⟩
    unfold decode
    dsimp only
    rw [if_neg, hlength, show 4 + snapshot.body.length + 4 - 8 = snapshot.body.length by omega,
      Nat.add_sub_cancel, if_pos hbroken]
    simp [hmark]
    omega
  . refine ⟨"snapshot header", ?_⟩
    unfold decode
    dsimp only
    rw [if_pos]
    simp [hmark]

end Snapshot

instance (entry : LogEntry) : Decidable entry.Fits :=
  decidable_of_iff
    (entry.term < 2 ^ 64 ∧ entry.index < 2 ^ 64 ∧ entry.command.length ≤ LogStore.greatestCommand)
    ⟨fun h => ⟨h.1, h.2.1, h.2.2⟩, fun h => ⟨h.term, h.index, h.command⟩⟩

namespace LogRecord

def InLength (i : Nat) : Prop :=
  20 ≤ i ∧ i < 24

instance (i : Nat) : Decidable (InLength i) :=
  inferInstanceAs (Decidable (20 ≤ i ∧ i < 24))

theorem sealed_of_read? {input : Bytes} {entry : LogEntry} (h : read? input = some entry)
    : input.take 4 = mark ∧ Bytes.ofLittleEndian ((input.drop 20).take 4) = entry.command.length ∧
        Checksum.Seals (20 + entry.command.length) (input.drop 4) := by
  unfold read? at h
  dsimp only at h
  generalize Bytes.ofLittleEndian ((input.drop 20).take 4) = length at h ⊢
  split at h
  . cases h
  . next hhead =>
    simp only [Bool.or_eq_true, decide_eq_true_eq, not_or, Nat.not_lt, ne_eq, Decidable.not_not] at hhead
    obtain ⟨⟨-, hmark⟩, hwhole⟩ := hhead
    unfold overhead at hwhole
    split at h
    . cases h
    . next hchecksum =>
      cases h
      have hlength : (((input.drop 4).take (20 + length)).drop 20).length = length := by
        simp
        omega
      refine ⟨hmark, hlength.symm, ?_⟩
      dsimp only
      unfold Checksum.Seals
      rw [hlength, Decidable.not_not.1 hchecksum, List.drop_drop, ← Nat.add_assoc]

theorem read?_damaged {entry : LogEntry} (hfit : entry.Fits) (h : Bytes.DiffersAt i (encode entry) damaged)
    (hi : ¬ InLength i) (rest : Bytes)
    : read? (damaged ++ rest) = none := by
  have hlt := h.lt_length
  have h := h.append rest
  rw [size_eq] at hlt
  unfold size overhead at hlt
  unfold InLength at hi
  cases hread : read? (damaged ++ rest) with
  | none => rfl
  | some found =>
    exfalso
    obtain ⟨hmark, hlength, hseals⟩ := sealed_of_read? (read?_encode hfit rest)
    obtain ⟨hmark', hlength', hseals'⟩ := sealed_of_read? hread
    have hbehind : 4 ≤ i := by
      apply Nat.not_lt.1
      intro hlt
      exact (h.take hlt).ne (hmark.trans hmark'.symm)
    have hfield : ((damaged ++ rest).drop 20).take 4 = ((encode entry ++ rest).drop 20).take 4 := by
      by_cases hbefore : i < 20
      . rw [h.drop_eq hbefore]
      . exact (h.drop (Nat.not_lt.1 hbefore)).take_eq (by omega)
    rw [hfield, hlength] at hlength'
    rw [← hlength'] at hseals'
    exact hseals.broken (h.drop hbehind) (by omega) hseals'

theorem scan_damaged {entries : List LogEntry} (hfit : ∀ e ∈ entries, e.Fits) {k : Nat} (hk : k < entries.length)
    (hi : i < size entries[k]) (hlength : ¬ InLength i)
    (h : Bytes.DiffersAt (((entries.take k).flatMap encode).length + i) (entries.flatMap encode) damaged)
    : scan 0 damaged = (layout 0 (entries.take k), ((entries.take k).flatMap encode).length) := by
  rw [flatMap_split entries k, List.drop_eq_getElem_cons hk, List.flatMap_cons] at h
  obtain ⟨_, rfl, hbehind⟩ := h.behind
  obtain ⟨front, rfl, hrecord⟩ := hbehind.before (by rwa [size_eq])
  have hnone := read?_damaged (hfit _ (List.getElem_mem hk)) hrecord hlength
    ((entries.drop (k + 1)).flatMap encode)
  rw [scan_records 0 (fun e he => hfit e (List.mem_of_mem_take he)) hnone, Nat.zero_add]

end LogRecord

variable {w : Volume} {content : Bytes}

theorem Disk.read?_of_content? {name : String} (h : w.content? name = some content)
    : Disk.read? name w = .ok (some content) w := by
  unfold Volume.content? at h
  split at h
  . next file hfile =>
    cases h
    exact Disk.read?_file hfile
  . cases h

def Disk.Detects {α : Type} (read : Disk α) (name : String) (content : Bytes) : Prop :=
  ∀ i damaged, Bytes.DiffersAt i content damaged → ∀ w : Volume, w.content? name = some damaged →
    ∃ what, read w = .error (.corrupted what) w

theorem HardState.detects_load (state : HardState) : Disk.Detects load fileName state.encode := by
  intro i damaged h w hw
  refine ⟨"hard state checksum mismatch", ?_⟩
  unfold load
  rw [EStateM.bind_of_ok (Disk.read?_of_content? hw)]
  dsimp only
  rw [decode_damaged state h]
  rfl

namespace LogStore

theorem detects_readSnapshot (snapshot : Snapshot)
    : Disk.Detects readSnapshot snapshotName snapshot.encode := by
  intro i damaged h w hw
  obtain ⟨what, hdecode⟩ := snapshot.decode_damaged h
  refine ⟨what, ?_⟩
  unfold readSnapshot
  rw [EStateM.bind_of_ok (Disk.read?_of_content? hw)]
  dsimp only
  rw [hdecode]
  rfl

theorem detects_open (snapshot : Snapshot) (policy : SyncPolicy)
    : Disk.Detects (LogStore.open policy) snapshotName snapshot.encode := by
  intro i damaged h w hw
  obtain ⟨what, hread⟩ := detects_readSnapshot snapshot i damaged h w hw
  refine ⟨what, ?_⟩
  unfold LogStore.open
  exact EStateM.bind_of_error hread

theorem storedSnapshot_of_detects {content : Bytes} {log : LogStore}
    (hdetects : Disk.Detects readSnapshot snapshotName content) (h : Bytes.DiffersAt i content damaged)
    (hlog : log.disk.content? snapshotName = some damaged)
    : ∃ what, storedSnapshot log = .error (.corrupted what) log := by
  obtain ⟨what, hread⟩ := hdetects i damaged h log.disk hlog
  exact ⟨what, onDisk_of_error hread⟩

theorem content?_of_holds {v : Volume} {name : String} (h : v.Holds name (some content))
    : v.content? name = some content := by
  obtain ⟨id, hfile⟩ := h
  exact content?_of_file hfile

end LogStore

/-- One changed byte is never passed over: a saved hard state does not load, an installed snapshot is refused by
opening and by reading it, and a scan of the log ends before the record, unless the byte is of its length. -/
theorem single_byte_detected
    : (∀ {v v' : Volume} {state : HardState}, v.Separate → HardState.save state v = .ok () v' →
        ∃ content, v'.content? HardState.fileName = some content ∧
          Disk.Detects HardState.load HardState.fileName content) ∧
      (∀ {v v' : Volume} {policy : SyncPolicy} {log₀ log log' : LogStore} {events : List LogEvent}
          {index term : Nat} {data : Bytes}, v.Sound → LogStore.open policy v = .ok log₀ v' →
        (∀ event ∈ events, event.InRange) → events.foldl LogHost.perform (.opened log₀) = .opened log →
        LogStore.putSnapshot index term data log = .ok () log' →
        ∃ content, log'.disk.content? LogStore.snapshotName = some content ∧
          (∀ policy, Disk.Detects (LogStore.open policy) LogStore.snapshotName content) ∧
          ∀ i damaged, Bytes.DiffersAt i content damaged → ∀ reader : LogStore,
            reader.disk.content? LogStore.snapshotName = some damaged →
            ∃ what, LogStore.storedSnapshot reader = .error (.corrupted what) reader) ∧
      ∀ entries : List LogEntry, (∀ e ∈ entries, e.Fits) → ∀ k (hk : k < entries.length) i,
        i < LogRecord.size entries[k] → ¬ LogRecord.InLength i → ∀ damaged,
        Bytes.DiffersAt (((entries.take k).flatMap LogRecord.encode).length + i)
          (entries.flatMap LogRecord.encode) damaged →
        ∀ w : Volume, w.content? LogStore.logName = some damaged →
          LogStore.readRecords w = .ok (LogRecord.layout 0 (entries.take k),
            ((entries.take k).flatMap LogRecord.encode).length) w := by
  refine ⟨?_, ?_, ?_⟩
  . intro v v' state hv hsave
    have hreplaced := Disk.leaves_replace hv HardState.fileName state.encode
    rw [show Disk.replace HardState.fileName state.encode v = .ok () v' from hsave] at hreplaced
    exact ⟨state.encode, LogStore.content?_of_holds hreplaced.2, state.detects_load⟩
  . intro v v' policy log₀ log log' events index term data hv hopen hrange hrun hput
    have hregular : (LogHost.opened log₀).Regular := LogStore.regular_of_open hv hopen
    have hregular := hregular.run events hrange
    rw [hrun] at hregular
    obtain ⟨records, snapshot, hregular⟩ := hregular
    obtain ⟨durable, hcoherent⟩ := hregular.coherent
    have hinstalled := LogStore.yields_putSnapshot_installed hcoherent.carries index term data
    rw [hput] at hinstalled
    refine ⟨_, LogStore.content?_of_holds hinstalled.snapshot, LogStore.detects_open _, ?_⟩
    intro i damaged h reader
    exact LogStore.storedSnapshot_of_detects (LogStore.detects_readSnapshot _) h
  . intro entries hfit k hk i hi hlength damaged h w hw
    rw [LogStore.readRecords_eq, hw, Option.getD_some, LogRecord.scan_damaged hfit hk hi hlength h]

namespace Damaged

def state : HardState := { term := 3, votedFor := some "b" }

def hardFile : Bytes :=
  [3, 0, 0, 0, 0, 0, 0, 0, 1, 1, 0, 0, 0, 0, 0, 0, 0, 98, 38, 109, 152, 214]

def events : List LogEvent :=
  [.call (.append [⟨1, 1, [1]⟩, ⟨1, 2, [2]⟩]), .close, .open .interval]

def log : LogStore :=
  (events.foldl LogHost.perform (.opened (.fresh .always []))).log?.getD (.fresh .always [])

def snapshotFile : Bytes :=
  Snapshot.encode ⟨1, 1, [7, 8]⟩

def entries : List LogEntry :=
  [⟨1, 1, [1]⟩, ⟨1, 2, [2, 3]⟩, ⟨2, 3, []⟩]

def logFile : Bytes :=
  entries.flatMap LogRecord.encode

def directory (name : String) (content : Bytes) : Volume :=
  ({} : Volume).store name content

end Damaged

theorem single_byte_detected_marked
    : (∃ what, HardState.load (Damaged.directory HardState.fileName (Damaged.hardFile.set 8 0))
          = .error (.corrupted what) (Damaged.directory HardState.fileName (Damaged.hardFile.set 8 0))) ∧
      (∃ what, LogStore.open .never (Damaged.directory LogStore.snapshotName (Damaged.snapshotFile.set 33 0))
          = .error (.corrupted what)
              (Damaged.directory LogStore.snapshotName (Damaged.snapshotFile.set 33 0))) ∧
      LogStore.readRecords (Damaged.directory LogStore.logName (Damaged.logFile.set 53 9))
        = .ok ([(0, ⟨1, 1, [1]⟩)], 29) (Damaged.directory LogStore.logName (Damaged.logFile.set 53 9)) := by
  refine ⟨?_, ?_, ?_⟩
  . have hsaved : (EStateM.state? (HardState.save Damaged.state {})).bind (·.content? HardState.fileName)
        = some Damaged.hardFile := by
      decide +kernel
    obtain ⟨v, hstate, hfile⟩ := Option.bind_eq_some_iff.1 hsaved
    obtain ⟨_, hsave⟩ := EStateM.eq_ok_of_state? hstate
    obtain ⟨content, hcontent, hdetects⟩ := single_byte_detected.1 Volume.separate_empty hsave
    rw [hfile] at hcontent
    cases hcontent
    have hdamaged : Bytes.DiffersAt 8 Damaged.hardFile (Damaged.hardFile.set 8 0) :=
      Bytes.differsAt_set (by decide) (by decide)
    exact hdetects 8 _ hdamaged _ (by decide +kernel)
  . have hinstalled : (EStateM.state? (LogStore.putSnapshot 1 1 [7, 8] Damaged.log)).bind
        (·.disk.content? LogStore.snapshotName) = some Damaged.snapshotFile := by
      decide +kernel
    have hrange : ∀ event ∈ Damaged.events, event.InRange := by
      decide
    have hrun : Damaged.events.foldl LogHost.perform (.opened (.fresh .always [])) = .opened Damaged.log := by
      decide +kernel
    obtain ⟨log, hstate, hfile⟩ := Option.bind_eq_some_iff.1 hinstalled
    obtain ⟨_, hput⟩ := EStateM.eq_ok_of_state? hstate
    obtain ⟨content, hcontent, hdetects, -⟩ := single_byte_detected.2.1 Volume.sound_empty
      (LogStore.open_empty .always) hrange hrun hput
    rw [hfile] at hcontent
    cases hcontent
    have hdamaged : Bytes.DiffersAt 33 Damaged.snapshotFile (Damaged.snapshotFile.set 33 0) :=
      Bytes.differsAt_set (by decide +kernel) (by decide +kernel)
    exact hdetects .never 33 _ hdamaged _ (by decide +kernel)
  . have hdamaged : Bytes.DiffersAt 53 Damaged.logFile (Damaged.logFile.set 53 9) :=
      Bytes.differsAt_set (by decide +kernel) (by decide +kernel)
    exact single_byte_detected.2.2 Damaged.entries (by decide) 1 (by decide) 24 (by decide) (by decide) _
      hdamaged _ (by decide +kernel)

end ReplicatedStore
