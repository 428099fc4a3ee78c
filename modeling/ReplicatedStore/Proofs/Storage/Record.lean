import ReplicatedStore.Proofs.Encoding.Binary
import ReplicatedStore.Storage.HardState
import ReplicatedStore.Storage.LogStore

/-!
The files of a node read back: the hard state, the snapshot, and the records of the log one after the
other.
-/

namespace ReplicatedStore

namespace Checksum

theorem crc32_lt (bytes : Bytes) : (crc32 bytes).toNat < 256 ^ 4 :=
  (crc32 bytes).toNat_lt

end Checksum

namespace HardState

structure Fits (state : HardState) : Prop where
  term : state.term < 2 ^ 64
  voter : ∀ name ∈ state.votedFor, (Bytes.ofText name).length < 2 ^ 64

theorem read_inverts : EStateM.Inverts read body Fits := by
  intro input state rest
  unfold read body
  simp only [EStateM.bind_eq_ok_iff, EStateM.pure_eq_ok_iff, Binary.readWord_inverts _ _ _,
    Binary.readOption_inverts Binary.readText_inverts _ _ _, List.append_assoc]
  constructor
  . rintro ⟨term, _, ⟨rfl, hterm⟩, voter, _, ⟨rfl, hvoter⟩, rfl, rfl⟩
    exact ⟨rfl, hterm, hvoter⟩
  . rintro ⟨rfl, h⟩
    exact ⟨state.term, _, ⟨rfl, h.term⟩, state.votedFor, rest, ⟨rfl, h.voter⟩, rfl, rfl⟩

theorem decode_encode {state : HardState} (h : state.Fits) : decode state.encode = .ok state := by
  have hlength : state.encode.length - 4 = state.body.length := by
    unfold encode
    simp
  have htake : state.encode.take (state.encode.length - 4) = state.body := by
    rw [hlength]
    exact List.take_left' rfl
  have hdrop : state.encode.drop (state.encode.length - 4)
      = Bytes.littleEndian 4 (Checksum.crc32 state.body).toNat := by
    rw [hlength]
    exact List.drop_left' rfl
  unfold decode
  rw [htake, hdrop]
  dsimp only
  rw [if_neg]
  . rw [Bytes.ofLittleEndian_of_lt (Checksum.crc32_lt _)]
    rw [if_neg (fun hne => hne rfl)]
    rw [(Binary.decode_eq_ok_iff read_inverts).2 ⟨h, [], (List.append_nil _).symm⟩]
  . unfold encode
    simp

end HardState

structure LogEntry.Fits (entry : LogEntry) : Prop where
  term : entry.term < 2 ^ 64
  index : entry.index < 2 ^ 64
  command : entry.command.length ≤ LogStore.greatestCommand

namespace LogRecord

theorem size_eq (entry : LogEntry) : (encode entry).length = size entry := by
  unfold encode body size overhead mark
  simp
  omega

theorem read?_encode {entry : LogEntry} (h : entry.Fits) (rest : Bytes)
    : read? (encode entry ++ rest) = some entry := by
  have hcommand : entry.command.length < 256 ^ 4 := Nat.lt_succ_of_le h.command
  have hbody : (body entry).length = 20 + entry.command.length := by
    unfold body
    simp
    omega
  -- the record, cut where the reader cuts it
  have hlength : ((encode entry ++ rest).drop 20).take 4 = Bytes.littleEndian 4 entry.command.length := by
    have hcut : encode entry ++ rest
        = (mark ++ Bytes.littleEndian 8 entry.term ++ Bytes.littleEndian 8 entry.index) ++
          (Bytes.littleEndian 4 entry.command.length ++
            (entry.command ++ Bytes.littleEndian 4 (Checksum.crc32 (body entry)).toNat ++ rest)) := by
      unfold encode body
      simp only [List.append_assoc]
    rw [hcut]
    rw [List.drop_left' (by simp [mark])]
    exact List.take_left' (by simp)
  have hmark : (encode entry ++ rest).take 4 = mark := by
    unfold encode
    rw [List.append_assoc, List.append_assoc]
    exact List.take_left' rfl
  have htail : (encode entry ++ rest).drop 4
      = body entry ++ (Bytes.littleEndian 4 (Checksum.crc32 (body entry)).toNat ++ rest) := by
    unfold encode
    rw [List.append_assoc, List.append_assoc]
    exact List.drop_left' rfl
  have hchecksum : ((encode entry ++ rest).drop (24 + entry.command.length)).take 4
      = Bytes.littleEndian 4 (Checksum.crc32 (body entry)).toNat := by
    rw [show 24 + entry.command.length = 4 + (body entry).length by omega]
    rw [← List.drop_drop, htail]
    rw [List.drop_left' rfl]
    exact List.take_left' (by simp)
  have hsize : (encode entry ++ rest).length = overhead + entry.command.length + rest.length := by
    rw [List.length_append, size_eq]
    rfl
  unfold read?
  dsimp only
  rw [hlength, hmark, htail, hsize]
  rw [Bytes.ofLittleEndian_of_lt hcommand]
  rw [if_neg]
  . rw [List.take_left' hbody, hchecksum]
    rw [Bytes.ofLittleEndian_of_lt (Checksum.crc32_lt _)]
    rw [if_neg (fun hne => hne rfl)]
    have hterm : (body entry).take 8 = Bytes.littleEndian 8 entry.term := by
      unfold body
      simp only [List.append_assoc]
      exact List.take_left' (by simp)
    have hindex : ((body entry).drop 8).take 8 = Bytes.littleEndian 8 entry.index := by
      unfold body
      simp only [List.append_assoc]
      rw [List.drop_left' (by simp)]
      exact List.take_left' (by simp)
    have hrest : (body entry).drop 20 = entry.command := by
      unfold body
      exact List.drop_left' (by simp)
    rw [hterm, hindex, hrest]
    rw [Bytes.ofLittleEndian_of_lt h.term, Bytes.ofLittleEndian_of_lt h.index]
  . have : 24 ≤ overhead + entry.command.length + rest.length := by
      unfold overhead
      omega
    simp [this]

def layout (start : Nat) (entries : List LogEntry) : List (Nat × LogEntry) :=
  (LogStore.offsetsOf start entries).zip entries

theorem scan_encode {entries : List LogEntry} (h : ∀ e ∈ entries, e.Fits) (start : Nat)
    : scan start (entries.flatMap encode)
        =
      (layout start entries, start + (entries.flatMap encode).length) := by
  induction entries generalizing start with
  | nil =>
    unfold scan
    rfl
  | cons e rest ih =>
    have he : e.Fits := h e List.mem_cons_self
    have hread := read?_encode he (rest.flatMap encode)
    have hsize := size_eq e
    rw [List.flatMap_cons]
    cases hbytes : encode e ++ rest.flatMap encode with
    | nil =>
      rw [hbytes] at hread
      cases hread
    | cons b bytes =>
      rw [hbytes] at hread
      have hdrop : bytes.drop (size e - 1) = rest.flatMap encode := by
        have : (encode e ++ rest.flatMap encode).drop (size e) = rest.flatMap encode :=
          List.drop_left' hsize
        rw [hbytes] at this
        rw [show size e = size e - 1 + 1 by unfold size overhead; omega] at this
        exact this
      unfold scan
      rw [hread]
      dsimp only
      rw [hdrop, ih (fun e' he' => h e' (List.mem_cons_of_mem _ he')), ← hbytes]
      rw [List.length_append, hsize]
      refine Prod.ext ?_ ?_
      . rfl
      . dsimp only
        omega

end LogRecord

namespace Snapshot

structure Fits (snapshot : Snapshot) : Prop where
  index : snapshot.index < 2 ^ 64
  term : snapshot.term < 2 ^ 64

theorem decode_encode {snapshot : Snapshot} (h : snapshot.Fits)
    : decode snapshot.encode
        =
      if snapshot.data.length < 2 ^ 64 then .ok snapshot else .error "snapshot length mismatch" := by
  have hbody : snapshot.body.length = 24 + snapshot.data.length := by
    unfold body
    simp
    omega
  have hsize : snapshot.encode.length = 32 + snapshot.data.length := by
    unfold encode mark
    simp [hbody]
    omega
  have hmark : snapshot.encode.take 4 = mark := by
    unfold encode
    rw [List.append_assoc]
    exact List.take_left' rfl
  have htail : snapshot.encode.drop 4
      = snapshot.body ++ Bytes.littleEndian 4 (Checksum.crc32 snapshot.body).toNat := by
    unfold encode
    rw [List.append_assoc]
    exact List.drop_left' rfl
  have htake : (snapshot.encode.drop 4).take (snapshot.encode.length - 8) = snapshot.body := by
    rw [htail]
    exact List.take_left' (by omega)
  have hchecksum : snapshot.encode.drop (snapshot.encode.length - 4)
      = Bytes.littleEndian 4 (Checksum.crc32 snapshot.body).toNat := by
    rw [show snapshot.encode.length - 4 = 4 + snapshot.body.length by omega]
    rw [← List.drop_drop, htail]
    exact List.drop_left' rfl
  have hlength : Bytes.ofLittleEndian ((snapshot.body.drop 16).take 8)
      = snapshot.data.length % 2 ^ 64 := by
    have hcut : (snapshot.body.drop 16).take 8 = Bytes.littleEndian 8 snapshot.data.length := by
      unfold body
      rw [List.append_assoc]
      rw [List.drop_left' (by simp)]
      exact List.take_left' (by simp)
    rw [hcut]
    exact Bytes.ofLittleEndian_littleEndian 8 snapshot.data.length
  have hindex : snapshot.body.take 8 = Bytes.littleEndian 8 snapshot.index := by
    unfold body
    simp only [List.append_assoc]
    exact List.take_left' (by simp)
  have hterm : (snapshot.body.drop 8).take 8 = Bytes.littleEndian 8 snapshot.term := by
    unfold body
    simp only [List.append_assoc]
    rw [List.drop_left' (by simp)]
    exact List.take_left' (by simp)
  have hdata : snapshot.body.drop 24 = snapshot.data := by
    unfold body
    exact List.drop_left' (by simp)
  unfold decode
  dsimp only
  rw [htake, hmark, hchecksum, hlength, hindex, hterm, hdata, hbody]
  rw [Bytes.ofLittleEndian_of_lt (Checksum.crc32_lt _)]
  rw [Bytes.ofLittleEndian_of_lt h.index, Bytes.ofLittleEndian_of_lt h.term]
  rw [if_neg]
  . rw [if_neg (fun hne => hne rfl)]
    by_cases hlt : snapshot.data.length < 2 ^ 64
    . rw [Nat.mod_eq_of_lt hlt, if_pos hlt]
      rw [if_neg (fun hne => hne rfl)]
    . rw [if_neg hlt, if_pos]
      have := Nat.mod_lt snapshot.data.length (show 0 < 2 ^ 64 by decide)
      omega
  . simp
    omega

theorem length_data_le (snapshot : Snapshot) : snapshot.data.length ≤ snapshot.encode.length := by
  unfold encode body
  simp only [List.length_append]
  omega

end Snapshot

end ReplicatedStore
