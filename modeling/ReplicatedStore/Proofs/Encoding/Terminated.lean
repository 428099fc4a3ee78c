import ReplicatedStore.Encoding.Terminated
import ReplicatedStore.Encoding.Utf8
import ReplicatedStore.Proofs.Encoding.Binary
import ReplicatedStore.Proofs.Encoding.Order

/-!
Text that ends at a zero byte: it reads back, nothing else reads, and its order is that of the text inside.
-/

namespace ReplicatedStore

namespace Terminated

theorem escape_cons (b : UInt8) (text : Bytes) : escape (b :: text) = escape [b] ++ escape text := by
  simp only [escape]
  split
  . rfl
  . split <;> rfl

theorem ranks_escape_of_lt {a b : UInt8} (h : a.toNat < b.toNat)
    : Bytes.Ranks (escape [a]) (escape [b]) .lt := by
  have hb : b ≠ 0x00 := by
    intro heq
    simp [heq] at h
  simp only [escape, if_neg hb]
  by_cases hone : b = 0x01
  . have ha : a = 0x00 := by
      apply UInt8.toNat_inj.1
      simp [hone] at h
      simpa using h
    rw [if_pos ha, if_pos hone]
    apply Bytes.Ranks.cons
    apply Bytes.ranks_of_lt
    decide
  . have htwo : 1 < b.toNat := by
      have h0 : b.toNat ≠ 0 := fun heq => hb (UInt8.toNat_inj.1 heq)
      have h1 : b.toNat ≠ 1 := fun heq => hone (UInt8.toNat_inj.1 heq)
      omega
    rw [if_neg hone]
    split
    . apply Bytes.ranks_of_lt
      exact htwo
    . split
      . apply Bytes.ranks_of_lt
        exact htwo
      . apply Bytes.ranks_of_lt
        exact h

theorem ranks_escape_byte (a b : UInt8)
    : Bytes.Ranks (escape [a]) (escape [b]) (Ord.compare a.toNat b.toNat) := by
  rcases Nat.lt_trichotomy a.toNat b.toNat with hlt | heq | hgt
  . rw [Nat.compare_eq_lt.2 hlt]
    exact ranks_escape_of_lt hlt
  . rw [Nat.compare_eq_eq.2 heq, UInt8.toNat_inj.1 heq]
    apply Bytes.ranks_self
  . rw [Nat.compare_eq_gt.2 hgt]
    exact (ranks_escape_of_lt hgt).swap

theorem exists_escape (b : UInt8) : ∃ first rest, escape [b] = first :: rest ∧ 0 < first.toNat := by
  simp only [escape]
  split
  . exact ⟨_, _, rfl, by decide⟩
  . next hzero =>
    split
    . exact ⟨_, _, rfl, by decide⟩
    . refine ⟨_, _, rfl, ?_⟩
      apply Nat.pos_of_ne_zero
      intro h
      exact hzero (UInt8.toNat_inj.1 h)

theorem ranks_terminator (b : UInt8) (text : Bytes)
    : Bytes.Ranks (write []) (write (b :: text)) .lt := by
  obtain ⟨first, rest, hescape, hpos⟩ := exists_escape b
  unfold write
  rw [escape_cons, hescape]
  apply Bytes.ranks_of_lt
  exact hpos

theorem ranks_write (a b : Bytes) : Bytes.Ranks (write a) (write b) (Bytes.compare a b) := by
  induction a generalizing b with
  | nil =>
    cases b with
    | nil => exact Bytes.ranks_byte 0 0
    | cons b rest => exact ranks_terminator b rest
  | cons a text ih =>
    cases b with
    | nil => exact (ranks_terminator a text).swap
    | cons b rest =>
      unfold write at *
      rw [escape_cons, escape_cons b, List.append_assoc, List.append_assoc, Bytes.compare_cons]
      exact (ranks_escape_byte a b).append (ih rest)

theorem leadsBelow_write {bound : UInt8} {text : Bytes} (hbound : 0x01 < bound.toNat)
    (h : ∀ b ∈ text, b.toNat < bound.toNat)
    : Bytes.LeadsBelow bound (write text) := by
  unfold write
  cases text with
  | nil => exact ⟨0x00, [], rfl, Nat.lt_trans Nat.one_pos hbound⟩
  | cons b text =>
    simp only [escape]
    split
    . exact ⟨_, _, rfl, hbound⟩
    . split
      . exact ⟨_, _, rfl, hbound⟩
      . exact ⟨_, _, rfl, h b List.mem_cons_self⟩

theorem read_escape (b : UInt8) {input text rest : Bytes} (h : read input = .ok text rest)
    : read (escape [b] ++ input) = .ok (b :: text) rest := by
  have hne : input ≠ [] := by
    rintro rfl
    simp [read, read.go] at h
  obtain ⟨next, input, rfl⟩ := List.exists_cons_of_ne_nil hne
  unfold read at *
  simp only [escape]
  split
  . next hzero => simp [read.go, read.push, h, hzero]
  . split
    . next hone => simp [read.go, read.push, h, hone]
    . next hzero hone => simp [read.go, read.push, h, hzero, hone]

theorem read_write (text rest : Bytes) : read (write text ++ rest) = .ok text rest := by
  induction text with
  | nil =>
    cases rest with
    | nil => rfl
    | cons next rest => rfl
  | cons b text ih =>
    unfold write at *
    rw [escape_cons, List.append_assoc, List.append_assoc, ← List.append_assoc (escape text)]
    exact read_escape b ih

theorem eq_of_write {a b : Bytes} (h : write a = write b) : a = b := by
  have hread := read_write a []
  rw [h, read_write] at hread
  cases hread
  rfl

theorem push_eq_ok {b : UInt8} {result : EStateM.Result EncodingError Bytes Bytes} {text rest : Bytes}
    (h : read.push b result = .ok text rest)
    : ∃ inner, result = .ok inner rest ∧ text = b :: inner := by
  cases result with
  | ok inner left =>
    simp only [read.push, EStateM.Result.ok.injEq] at h
    obtain ⟨rfl, rfl⟩ := h
    exact ⟨inner, rfl, rfl⟩
  | error e left => simp [read.push] at h

theorem eq_write_of_read {input text rest : Bytes} (h : read input = .ok text rest)
    : input = write text ++ rest := by
  unfold read at h
  unfold write
  fun_induction read.go input generalizing text with
  | case1 => simp at h
  | case2 =>
    simp only [EStateM.Result.ok.injEq] at h
    rw [← h.1, ← h.2]
    rfl
  | case3 b hzero => simp at h
  | case4 next input =>
    simp only [EStateM.Result.ok.injEq] at h
    rw [← h.1, ← h.2]
    rfl
  | case5 input hne ih =>
    obtain ⟨inner, hinner, rfl⟩ := push_eq_ok h
    rw [ih hinner]
    rfl
  | case6 input hne hne' ih =>
    obtain ⟨inner, hinner, rfl⟩ := push_eq_ok h
    rw [ih hinner]
    rfl
  | case7 next input hone htwo hne => simp at h
  | case8 b next input hzero hone ih =>
    obtain ⟨inner, hinner, rfl⟩ := push_eq_ok h
    rw [ih hinner]
    simp [escape, hzero, hone]

end Terminated

namespace Utf8

theorem toNat_lt_of_mem_utf8EncodeChar {c : Char} {b : UInt8} (h : b ∈ String.utf8EncodeChar c)
    : b.toNat < 0xff := by
  unfold String.utf8EncodeChar at h
  generalize c.val.toNat = v at h
  dsimp only at h
  split at h
  . simp only [List.mem_singleton] at h
    rw [h, UInt8.toNat_ofNat']
    omega
  . split at h
    . simp only [List.mem_cons, List.not_mem_nil, or_false] at h
      rcases h with rfl | rfl <;> rw [UInt8.toNat_ofNat'] <;> omega
    . split at h
      . simp only [List.mem_cons, List.not_mem_nil, or_false] at h
        rcases h with rfl | rfl | rfl <;> rw [UInt8.toNat_ofNat'] <;> omega
      . simp only [List.mem_cons, List.not_mem_nil, or_false] at h
        rcases h with rfl | rfl | rfl | rfl <;> rw [UInt8.toNat_ofNat'] <;> omega

theorem toNat_lt_of_mem_ofText {text : String} {b : UInt8} (h : b ∈ Bytes.ofText text)
    : b.toNat < 0xff := by
  obtain ⟨characters, hcharacters⟩ := text.isValidUTF8
  rw [Bytes.ofText_eq, hcharacters] at h
  simp only [List.utf8Encode, List.data_toByteArray, List.mem_flatMap] at h
  obtain ⟨c, _, hc⟩ := h
  exact toNat_lt_of_mem_utf8EncodeChar hc

end Utf8

end ReplicatedStore
