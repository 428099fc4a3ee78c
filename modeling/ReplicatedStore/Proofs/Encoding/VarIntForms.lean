import ReplicatedStore.Proofs.Encoding.CheckedVarInt

/-!
The two forms of variable-length integers as wholes: they read back, nothing else reads, the first byte tells
the length, their order is that of the numbers, and working them out never leaves the range of the words.
-/

namespace ReplicatedStore

namespace VarInt

theorem ranks_writeUnsigned_of_lt {a b : UInt64} (h : a.toNat < b.toNat)
    : Bytes.Ranks (writeUnsigned a) (writeUnsigned b) .lt := by
  have hpos := byteLength_pos b
  unfold writeUnsigned
  simp only [UInt64.le_iff_toNat_le]
  split
  . next ha =>
    have ha : a.toNat ≤ 247 := ha
    split
    . next hb =>
      have hb : b.toNat ≤ 247 := hb
      apply Bytes.ranks_of_lt
      rw [UInt64.toNat_toUInt8, UInt64.toNat_toUInt8]
      omega
    . apply Bytes.ranks_of_lt
      rw [toNat_head (by decide), UInt64.toNat_toUInt8]
      omega
  . next ha =>
    rw [if_neg fun hb => ha (Nat.le_trans (Nat.le_of_lt h) hb)]
    exact ranks_lengthened (by decide) h

theorem ranks_writeUnsigned (a b : UInt64)
    : Bytes.Ranks (writeUnsigned a) (writeUnsigned b) (Ord.compare (a.toNat : Int) b.toNat) := by
  rcases Nat.lt_trichotomy a.toNat b.toNat with hlt | heq | hgt
  . rw [compare_lt_iff_lt.2 (Int.ofNat_lt.2 hlt)]
    exact ranks_writeUnsigned_of_lt hlt
  . rw [compare_eq_iff_eq.2 (congrArg Nat.cast heq), UInt64.toNat_inj.1 heq]
    apply Bytes.ranks_self
  . rw [compare_gt_iff_gt.2 (Int.ofNat_lt.2 hgt)]
    exact (ranks_writeUnsigned_of_lt hgt).swap

structure Form (α : Type) where
  write : α → Bytes
  size : UInt8 → Except EncodingError Nat
  read : Reader α

structure CheckedForm (α : Type) where
  write : α → Option Bytes
  size : UInt8 → Option (Except EncodingError Nat)
  read : OptionT Reader α

def signed : Form Int64 where
  write := writeSigned
  size := signedSize
  read := readSigned

def unsigned : Form UInt64 where
  write := writeUnsigned
  size first := .ok (unsignedSize first)
  read := readUnsigned

def checkedSigned : CheckedForm Int64 where
  write := Checked.writeSigned
  size := Checked.signedSize
  read := Checked.readSigned

def checkedUnsigned : CheckedForm UInt64 where
  write := Checked.writeUnsigned
  size first := .ok <$> Checked.unsignedSize first
  read := Checked.readUnsigned

section Forms

variable {α : Type}

structure Form.Canonical (form : Form α) (number : α → Int) : Prop where
  reads : ∀ a rest, form.read (form.write a ++ rest) = .ok a rest
  begins : ∀ input a rest, form.read input = .ok a rest → input = form.write a ++ rest
  measures : ∀ a, ∃ first payload, form.write a = first :: payload ∧
    form.size first = .ok (form.write a).length
  ranks : ∀ a b s t, Bytes.compare (form.write a ++ s) (form.write b ++ t)
    = (Ord.compare (number a) (number b)).then (Bytes.compare s t)

/-- Every step fits, on every number, every first byte and every input, with the results of the form. -/
structure CheckedForm.Fits (checked : CheckedForm α) (form : Form α) : Prop where
  write : ∀ a, checked.write a = some (form.write a)
  size : ∀ first, checked.size first = some (form.size first)
  read : ∀ input, checked.read.run input = (some <$> form.read) input

end Forms

theorem exists_writeUnsigned (v : UInt64)
    : ∃ first payload, writeUnsigned v = first :: payload ∧ unsignedSize first = 1 + payload.length := by
  have hpos := byteLength_pos v
  have hle := byteLength_le v
  unfold writeUnsigned
  split
  . next hsingle =>
    have hsingle : v.toNat ≤ 247 := UInt64.le_iff_toNat_le.1 hsingle
    refine ⟨_, [], rfl, if_pos ?_⟩
    rw [UInt8.le_iff_toNat_le, UInt64.toNat_toUInt8]
    exact Nat.le_trans (Nat.mod_le _ _) hsingle
  . refine ⟨_, _, rfl, ?_⟩
    unfold unsignedSize
    rw [if_neg, toNat_head (by decide), Bytes.bigEndian_length, Nat.add_sub_cancel_left]
    rw [UInt8.le_iff_toNat_le, toNat_head (by decide)]
    exact Nat.not_le.2 (Nat.lt_add_of_pos_right hpos)

/-- The variable-length forms of integers: they read back whatever follows them, nothing else reads, their first
byte tells their length, their order is that of the numbers, and no arithmetic on the way goes out of range. -/
theorem forms_canonical_exact
    : (signed.Canonical Int64.toInt ∧ checkedSigned.Fits signed) ∧
      (unsigned.Canonical (fun v => v.toNat) ∧ checkedUnsigned.Fits unsigned) := by
  refine ⟨⟨?_, ?_⟩, ⟨?_, ?_⟩⟩
  . constructor
    . exact readSigned_write
    . intro input v rest h
      exact eq_writeSigned_of_read h
    . intro v
      obtain ⟨first, payload, hwrite, hsize, -⟩ := exists_writeSigned v
      refine ⟨first, payload, hwrite, hsize.trans (congrArg Except.ok ?_)⟩
      rw [show signed.write v = first :: payload from hwrite, List.length_cons, Nat.add_comm]
    . exact fun a b => ranks_writeSigned a b
  . constructor
    . exact Checked.writeSigned_eq
    . exact Checked.signedSize_eq
    . exact congrFun Checked.follows_readSigned
  . constructor
    . exact readUnsigned_write
    . intro input v rest h
      exact eq_writeUnsigned_of_read h
    . intro v
      obtain ⟨first, payload, hwrite, hsize⟩ := exists_writeUnsigned v
      refine ⟨first, payload, hwrite, congrArg Except.ok (hsize.trans ?_)⟩
      rw [show unsigned.write v = first :: payload from hwrite, List.length_cons, Nat.add_comm]
    . exact fun a b => ranks_writeUnsigned a b
  . constructor
    . exact Checked.writeUnsigned_eq
    . intro first
      exact congrArg (Except.ok <$> ·) (Checked.unsignedSize_eq first)
    . exact congrFun Checked.follows_readUnsigned

end VarInt

end ReplicatedStore
