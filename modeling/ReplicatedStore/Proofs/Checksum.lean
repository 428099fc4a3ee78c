import Mathlib.Logic.Function.Basic
import ReplicatedStore.Checksum

/-!
What the checksum tells apart: byte strings that differ in one byte, wherever that is and however long they are.
-/

namespace ReplicatedStore

namespace Bytes

variable {x y : Bytes} {i n : Nat}

def DiffersAt (i : Nat) (x y : Bytes) : Prop :=
  ∃ before a b after, before.length = i ∧ a ≠ b ∧ x = before ++ a :: after ∧ y = before ++ b :: after

theorem differsAt_set {b : UInt8} (hi : i < x.length) (hne : x[i] ≠ b) : DiffersAt i x (x.set i b) := by
  refine ⟨x.take i, x[i], b, x.drop (i + 1), List.length_take_of_le (Nat.le_of_lt hi), hne, ?_, ?_⟩
  . rw [← List.drop_eq_getElem_cons hi, List.take_append_drop]
  . exact List.set_eq_take_append_cons_drop.trans (if_pos hi)

theorem DiffersAt.length_eq (h : DiffersAt i x y) : y.length = x.length := by
  obtain ⟨before, a, b, after, -, -, rfl, rfl⟩ := h
  simp

theorem DiffersAt.lt_length (h : DiffersAt i x y) : i < x.length := by
  obtain ⟨before, a, b, after, rfl, -, rfl, -⟩ := h
  simp

theorem DiffersAt.ne (h : DiffersAt i x y) : x ≠ y := by
  obtain ⟨before, a, b, after, -, hne, rfl, rfl⟩ := h
  simpa using hne

theorem DiffersAt.append (h : DiffersAt i x y) (rest : Bytes) : DiffersAt i (x ++ rest) (y ++ rest) := by
  obtain ⟨before, a, b, after, hi, hne, rfl, rfl⟩ := h
  exact ⟨before, a, b, after ++ rest, hi, hne, by simp, by simp⟩

theorem DiffersAt.take (h : DiffersAt i x y) (hi : i < n) : DiffersAt i (x.take n) (y.take n) := by
  obtain ⟨before, a, b, after, rfl, hne, rfl, rfl⟩ := h
  obtain ⟨m, rfl⟩ := Nat.exists_eq_add_of_lt hi
  refine ⟨before, a, b, after.take m, rfl, hne, ?_, ?_⟩
  . rw [Nat.add_assoc, List.take_length_add_append, List.take_succ_cons]
  . rw [Nat.add_assoc, List.take_length_add_append, List.take_succ_cons]

theorem DiffersAt.drop (h : DiffersAt i x y) (hi : n ≤ i) : DiffersAt (i - n) (x.drop n) (y.drop n) := by
  obtain ⟨before, a, b, after, rfl, hne, rfl, rfl⟩ := h
  refine ⟨before.drop n, a, b, after, List.length_drop, hne, ?_, ?_⟩
  . rw [List.drop_append_of_le_length hi]
  . rw [List.drop_append_of_le_length hi]

theorem DiffersAt.take_eq (h : DiffersAt i x y) (hi : n ≤ i) : y.take n = x.take n := by
  obtain ⟨before, a, b, after, rfl, hne, rfl, rfl⟩ := h
  rw [List.take_append_of_le_length hi, List.take_append_of_le_length hi]

theorem DiffersAt.drop_eq (h : DiffersAt i x y) (hi : i < n) : y.drop n = x.drop n := by
  obtain ⟨before, a, b, after, rfl, hne, rfl, rfl⟩ := h
  obtain ⟨m, rfl⟩ := Nat.exists_eq_add_of_lt hi
  rw [Nat.add_assoc, List.drop_length_add_append, List.drop_length_add_append]
  rfl

theorem DiffersAt.behind {front : Bytes} (h : DiffersAt (front.length + i) (front ++ x) y)
    : ∃ rest, y = front ++ rest ∧ DiffersAt i x rest := by
  have hrest := h.drop (Nat.le_add_right front.length i)
  have hfront := h.take_eq (Nat.le_add_right front.length i)
  rw [List.drop_left, Nat.add_sub_cancel_left] at hrest
  rw [List.take_left] at hfront
  refine ⟨y.drop front.length, ?_, hrest⟩
  calc y
    _ = y.take front.length ++ y.drop front.length := (List.take_append_drop _ y).symm
    _ = front ++ y.drop front.length := by rw [hfront]

theorem DiffersAt.before {rest : Bytes} (h : DiffersAt i (x ++ rest) y) (hi : i < x.length)
    : ∃ front, y = front ++ rest ∧ DiffersAt i x front := by
  have hfront := h.take hi
  have hrest := h.drop_eq hi
  rw [List.take_left] at hfront
  rw [List.drop_left] at hrest
  refine ⟨y.take x.length, ?_, hfront⟩
  calc y
    _ = y.take x.length ++ y.drop x.length := (List.take_append_drop _ y).symm
    _ = y.take x.length ++ rest := by rw [hrest]

end Bytes

namespace Checksum

theorem and_one_eq_one_iff (crc : UInt32) : crc &&& 1 = 1 ↔ crc.toNat.testBit 0 = true := by
  rw [Nat.testBit_zero, decide_eq_true_iff, ← UInt32.toNat_inj, UInt32.toNat_and]
  exact (Nat.and_one_is_mod crc.toNat).symm ▸ Iff.rfl

theorem testBit_shiftRight_one (crc : UInt32) (i : Nat)
    : (crc >>> 1).toNat.testBit i = crc.toNat.testBit (i + 1) := by
  rw [UInt32.toNat_shiftRight, Nat.testBit_shiftRight, Nat.add_comm]
  rfl

theorem testBit_step (crc : UInt32) : (step crc).toNat.testBit 31 = crc.toNat.testBit 0 := by
  have hhigh : (crc >>> 1).toNat.testBit 31 = false := by
    rw [testBit_shiftRight_one]
    exact Nat.testBit_lt_two_pow crc.toNat_lt
  unfold step
  split
  . next hbit =>
    rw [UInt32.toNat_xor, Nat.testBit_xor, hhigh, (and_one_eq_one_iff crc).1 hbit]
    rfl
  . next hbit =>
    rw [hhigh]
    simpa [and_one_eq_one_iff] using hbit

theorem step_injective : Function.Injective step := by
  intro a b h
  have hbit : a.toNat.testBit 0 = b.toNat.testBit 0 := by
    rw [← testBit_step, ← testBit_step, h]
  have hshift : a >>> 1 = b >>> 1 := by
    unfold step at h
    simp only [and_one_eq_one_iff, hbit] at h
    split at h
    . exact (UInt32.xor_left_inj _).1 h
    . exact h
  apply UInt32.toNat_inj.1
  apply Nat.eq_of_testBit_eq
  intro i
  cases i with
  | zero => exact hbit
  | succ i => rw [← testBit_shiftRight_one, ← testBit_shiftRight_one, hshift]

theorem repeat_step_injective (n : Nat) : Function.Injective (Nat.repeat step n) := by
  induction n with
  | zero => exact fun _ _ h => h
  | succ n ih => exact step_injective.comp ih

theorem update_left_injective (b : UInt8) : Function.Injective (update · b) := by
  intro crc crc' h
  exact (UInt32.xor_left_inj _).1 (repeat_step_injective 8 h)

theorem update_right_injective (crc : UInt32) : Function.Injective (update crc) := by
  intro a b h
  have hword : a.toUInt32 = b.toUInt32 := (UInt32.xor_right_inj _).1 (repeat_step_injective 8 h)
  apply UInt8.toNat_inj.1
  rw [← UInt8.toNat_toUInt32, ← UInt8.toNat_toUInt32, hword]

theorem foldl_update_injective (bytes : Bytes) : Function.Injective (bytes.foldl update ·) := by
  induction bytes with
  | nil => exact fun _ _ h => h
  | cons b bytes ih =>
    intro crc crc' h
    exact update_left_injective b (ih h)

theorem crc32_ne {x y : Bytes} {i : Nat} (h : Bytes.DiffersAt i x y) : crc32 x ≠ crc32 y := by
  obtain ⟨before, a, b, after, -, hne, rfl, rfl⟩ := h
  intro heq
  have hfold := (UInt32.not_inj).1 heq
  rw [List.foldl_append, List.foldl_append] at hfold
  exact hne (update_right_injective _ (foldl_update_injective after hfold))

end Checksum

end ReplicatedStore
