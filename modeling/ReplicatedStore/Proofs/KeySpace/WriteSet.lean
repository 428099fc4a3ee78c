import ReplicatedStore.KeySpace.WriteSet
import ReplicatedStore.Proofs.KeySpace.KeyMap
import ReplicatedStore.Proofs.KeySpace.KeyRanges

/-!
The stored form of a write set: it reads back as the write set, as long as what it removes is in order and every
length in it is a 64-bit number. Bytes in which the ranges or the pairs come in another order are read as well.
-/

namespace ReplicatedStore

namespace WriteSet

variable {writes : WriteSet} {range : KeyRange}

theorem eq_of_isEmpty (h : writes.isEmpty = true) : writes = {} := by
  unfold isEmpty KeyRanges.isEmpty KeyMap.isEmpty at h
  rw [Bool.and_eq_true, List.isEmpty_iff, List.isEmpty_iff] at h
  obtain ⟨⟨ranges⟩, ⟨pairs, sorted⟩⟩ := writes
  obtain ⟨rfl, rfl⟩ := h
  rfl

theorem removes_ordered_removeRange (h : writes.removes.Ordered) (range : KeyRange)
    : (writes.removeRange range).removes.Ordered := by
  unfold removeRange
  split
  . exact h
  . exact h.add range

def RangeFits (range : KeyRange) : Prop :=
  range.min.length < 2 ^ 64 ∧ ∀ max, range.max = some max → max.length < 2 ^ 64

theorem rangeFits_of_length (h : (writeRange range).length < 2 ^ 64) : RangeFits range := by
  have hmin := VarInt.length_le_writeChunk range.min
  unfold writeRange at h
  rw [List.length_append] at h
  refine ⟨by omega, ?_⟩
  intro max hmax
  have := VarInt.length_le_writeChunk max
  rw [hmax] at h
  dsimp only at h
  rw [List.length_cons] at h
  omega

theorem writeRange_ne_nil (range : KeyRange) : writeRange range ≠ [] := by
  unfold writeRange VarInt.writeChunk
  simp [VarInt.writeUnsigned_ne_nil]

theorem readRange_write (h : RangeFits range) (rest : Bytes)
    : readRange (writeRange range ++ rest) = .ok range rest := by
  obtain ⟨min, max⟩ := range
  obtain ⟨hmin, hmax⟩ := h
  unfold readRange writeRange
  rw [List.append_assoc]
  rw [EStateM.bind_of_ok ((VarInt.readChunk_inverts _ _ _).2 ⟨rfl, hmin⟩)]
  cases max with
  | none => rfl
  | some max =>
    dsimp only
    rw [List.cons_append, EStateM.bind_of_ok (Reader.byte_cons _ _)]
    rw [if_neg (by decide), if_pos rfl]
    rw [EStateM.bind_of_ok ((VarInt.readChunk_inverts _ _ _).2 ⟨rfl, hmax max rfl⟩)]
    rfl

theorem eq_writeRange_of_read {input rest : Bytes} (h : readRange input = .ok range rest)
    : input = writeRange range ++ rest ∧ RangeFits range := by
  unfold readRange at h
  obtain ⟨min, _, hread, hmin⟩ := EStateM.of_bind h
  obtain ⟨rfl, hshort⟩ := (VarInt.readChunk_inverts _ _ _).1 hread
  obtain ⟨flag, _, hbyte, hflag⟩ := EStateM.of_bind hmin
  rw [Reader.byte_eq_ok hbyte]
  unfold writeRange
  split at hflag
  . next hnone =>
    cases hflag
    rw [hnone, List.append_assoc]
    exact ⟨rfl, hshort, fun _ hmax => nomatch hmax⟩
  . split at hflag
    . next hsome =>
      obtain ⟨max, _, hread', hpure⟩ := EStateM.of_bind hflag
      obtain ⟨rfl, hshort'⟩ := (VarInt.readChunk_inverts _ _ _).1 hread'
      cases hpure
      rw [hsome, List.append_assoc]
      refine ⟨rfl, hshort, ?_⟩
      intro max' hmax
      cases hmax
      exact hshort'
    . cases hflag

theorem readRange_inverts : EStateM.Inverts readRange writeRange RangeFits := by
  intro input range rest
  constructor
  . exact eq_writeRange_of_read
  . rintro ⟨rfl, hfits⟩
    exact readRange_write hfits rest

structure Fits (writes : WriteSet) : Prop where
  removes : VarInt.Counted RangeFits writes.removes.ranges
  puts : writes.puts.Fits

def store (removes : List KeyRange) (puts : List Pair) : Bytes :=
  VarInt.writeCounted writeRange removes ++ VarInt.writeCounted KeyMap.writePair puts

theorem encode_eq (writes : WriteSet) : writes.encode = store writes.removes.ranges writes.puts.pairs := by
  rfl

theorem encode_ne_nil (writes : WriteSet) : writes.encode ≠ [] := by
  rw [encode_eq]
  unfold store
  simp [VarInt.writeCounted_ne_nil]

theorem fits_of_length (h : writes.encode.length < 2 ^ 64) : writes.Fits := by
  rw [encode_eq, store, List.length_append] at h
  constructor
  . exact VarInt.counted_of_length writeRange_ne_nil (fun _ => rangeFits_of_length) (by omega)
  . apply KeyMap.fits_of_length
    rw [KeyMap.encode_eq]
    omega

theorem read_eq
    : read = (do
        let removes ← VarInt.readCounted readRange
        let puts ← VarInt.readCounted KeyMap.readPair
        return { removes := .ofList removes, puts := .ofList puts }) := by
  unfold read VarInt.readCounted
  simp only [bind_assoc]

theorem decode_iff {input : Bytes}
    : decode input = .ok writes
        ↔
      ∃ removes puts, input = store removes puts ∧ VarInt.Counted RangeFits removes ∧
        VarInt.Counted KeyMap.PairFits puts ∧ writes = { removes := .ofList removes, puts := .ofList puts } := by
  unfold decode
  rw [Reader.decode_eq_ok_iff, read_eq]
  simp only [EStateM.bind_eq_ok_iff, EStateM.pure_eq_ok_iff, VarInt.readCounted_inverts readRange_inverts _ _ _,
    VarInt.readCounted_inverts KeyMap.readPair_inverts _ _ _]
  unfold store
  constructor
  . rintro ⟨removes, _, ⟨rfl, hremoves⟩, puts, _, ⟨rfl, hputs⟩, rfl, rfl⟩
    rw [List.append_nil]
    exact ⟨removes, puts, rfl, hremoves, hputs, rfl⟩
  . rintro ⟨removes, puts, rfl, hremoves, hputs, rfl⟩
    exact ⟨removes, _, ⟨rfl, hremoves⟩, puts, [], ⟨(List.append_nil _).symm, hputs⟩, rfl, rfl⟩

theorem decode_encode (hordered : writes.removes.Ordered) (h : writes.Fits)
    : decode writes.encode = .ok writes := by
  rw [decode_iff]
  refine ⟨writes.removes.ranges, writes.puts.pairs, encode_eq writes, h.removes, h.puts, ?_⟩
  rw [hordered.ofList_ranges, KeyMap.ofList_pairs]

end WriteSet

end ReplicatedStore
