import Mathlib.Data.Nat.Log
import Mathlib.Tactic.Ring
import ReplicatedStore.Encoding.VarInt
import ReplicatedStore.Proofs.Encoding.Reader

/-!
Unsigned variable-length integers, chunks and counted items: what was written reads back, whatever follows it,
and nothing else reads.
-/

namespace ReplicatedStore

namespace Bytes

theorem ofBigEndian_go (rest : Bytes) (acc : Nat)
    : rest.foldl (fun acc b => acc * 256 + b.toNat) acc
        =
      acc * 256 ^ rest.length + ofBigEndian rest := by
  induction rest generalizing acc with
  | nil => simp [ofBigEndian]
  | cons b rest ih =>
    unfold ofBigEndian
    simp only [List.foldl_cons, List.length_cons]
    rw [ih (acc * 256 + b.toNat), ih (0 * 256 + b.toNat)]
    ring

theorem ofBigEndian_cons (b : UInt8) (rest : Bytes)
    : ofBigEndian (b :: rest) = b.toNat * 256 ^ rest.length + ofBigEndian rest := by
  rw [show ofBigEndian (b :: rest) = rest.foldl (fun acc b => acc * 256 + b.toNat) (0 * 256 + b.toNat)
    from rfl]
  rw [ofBigEndian_go, Nat.zero_mul, Nat.zero_add]

theorem ofBigEndian_bigEndian (k n : Nat) : ofBigEndian (bigEndian k n) = n % 256 ^ k := by
  induction k with
  | zero => simp [bigEndian, ofBigEndian, Nat.mod_one]
  | succ k ih =>
    unfold bigEndian
    rw [ofBigEndian_cons, ih, bigEndian_length]
    have hbyte : (UInt8.ofNat (n >>> (8 * k))).toNat = n / 256 ^ k % 256 := by
      rw [UInt8.toNat_ofNat', Nat.shiftRight_eq_div_pow, Nat.pow_mul]
    rw [hbyte, Nat.pow_succ, Nat.mod_mul, Nat.mul_comm, Nat.add_comm]

theorem bigEndian_mod {k m n : Nat} (h : m % 256 ^ k = n % 256 ^ k) : bigEndian k m = bigEndian k n := by
  induction k with
  | zero => rfl
  | succ k ih =>
    rw [Nat.pow_succ] at h
    have hhigh : m / 256 ^ k % 256 = n / 256 ^ k % 256 := by
      rw [← Nat.mod_mul_right_div_self, ← Nat.mod_mul_right_div_self, h]
    have hlow : m % 256 ^ k = n % 256 ^ k := by
      rw [← Nat.mod_mul_right_mod m _ 256, ← Nat.mod_mul_right_mod n _ 256, h]
    unfold bigEndian
    rw [ih hlow]
    congr 1
    apply UInt8.toNat_inj.1
    rw [UInt8.toNat_ofNat', UInt8.toNat_ofNat', Nat.shiftRight_eq_div_pow, Nat.shiftRight_eq_div_pow,
      Nat.pow_mul]
    exact hhigh

theorem ofBigEndian_lt (bytes : Bytes) : ofBigEndian bytes < 256 ^ bytes.length := by
  induction bytes with
  | nil => exact Nat.one_pos
  | cons b rest ih =>
    have hb : b.toNat + 1 ≤ 256 := b.toNat_lt
    rw [ofBigEndian_cons, List.length_cons, Nat.pow_succ, Nat.mul_comm (256 ^ rest.length)]
    calc b.toNat * 256 ^ rest.length + ofBigEndian rest
      _ < b.toNat * 256 ^ rest.length + 256 ^ rest.length := Nat.add_lt_add_left ih _
      _ = (b.toNat + 1) * 256 ^ rest.length := (Nat.succ_mul _ _).symm
      _ ≤ 256 * 256 ^ rest.length := Nat.mul_le_mul_right _ hb

theorem bigEndian_ofBigEndian (bytes : Bytes) : bigEndian bytes.length (ofBigEndian bytes) = bytes := by
  induction bytes with
  | nil => rfl
  | cons b rest ih =>
    have hlt := ofBigEndian_lt rest
    rw [List.length_cons, bigEndian, ofBigEndian_cons, Nat.shiftRight_eq_div_pow, Nat.pow_mul]
    rw [show (2 ^ 8 : Nat) = 256 from rfl, Nat.add_comm, Nat.add_mul_div_right _ _ (Nat.pow_pos (by decide))]
    rw [Nat.div_eq_of_lt hlt, Nat.zero_add, UInt8.ofNat_toNat]
    congr 1
    rw [← ih, bigEndian_length]
    apply bigEndian_mod
    rw [ih, Nat.add_mul_mod_self_right]

end Bytes

namespace VarInt

theorem byteLength_pos (u : UInt64) : 1 ≤ byteLength u := by
  unfold byteLength
  split <;> omega

theorem byteLength_le (u : UInt64) : byteLength u ≤ 8 := by
  unfold byteLength
  split
  . omega
  . next hne =>
    have hpos : u.toNat ≠ 0 := by
      intro h
      exact hne (UInt64.toNat_inj.1 h)
    have : u.toNat.log2 < 64 := (Nat.log2_lt hpos).2 u.toNat_lt
    omega

theorem lt_pow_byteLength (u : UInt64) : u.toNat < 256 ^ byteLength u := by
  unfold byteLength
  split
  . next h =>
    rw [h]
    simp
  . have hlt : u.toNat < 2 ^ (u.toNat.log2 + 1) := Nat.lt_log2_self
    apply Nat.lt_of_lt_of_le hlt
    rw [show 256 = 2 ^ 8 from rfl, ← Nat.pow_mul]
    apply Nat.pow_le_pow_right
    . omega
    . omega

theorem peek_cons (first : UInt8) (rest : Bytes)
    : Reader.peek (first :: rest) = .ok first (first :: rest) := by
  rfl

theorem enter_cons (first : UInt8) (rest : Bytes) {length : Nat} (hle : length ≤ rest.length + 1)
    : enter length (first :: rest) = .ok () rest := by
  unfold enter
  rw [if_neg]
  . rfl
  . simpa using hle

theorem enter_eq_ok {length : Nat} {first : UInt8} {tail rest : Bytes} {a : Unit}
    (h : enter length (first :: tail) = .ok a rest)
    : rest = tail := by
  unfold enter at h
  split at h
  . cases h
  . cases h
    rfl

theorem ensureShortest_ok {u : UInt64} {n : Nat} (h : byteLength u = n) (rest : Bytes)
    : ensureShortest u n rest = .ok () rest := by
  unfold ensureShortest
  rw [if_pos h]
  rfl

theorem ensureShortest_eq_ok {u : UInt64} {n : Nat} {a : Unit} {input rest : Bytes}
    (h : ensureShortest u n input = .ok a rest)
    : byteLength u = n ∧ rest = input := by
  unfold ensureShortest at h
  split at h
  . next heq =>
    cases h
    exact ⟨heq, rfl⟩
  . cases h

theorem toNat_ofBigEndian {payload : Bytes} (hle : payload.length ≤ 8)
    : (UInt64.ofNat (Bytes.ofBigEndian payload)).toNat = Bytes.ofBigEndian payload := by
  have hlt : Bytes.ofBigEndian payload < 256 ^ 8 :=
    Nat.lt_of_lt_of_le (Bytes.ofBigEndian_lt payload) (Nat.pow_le_pow_right (by decide) hle)
  rw [UInt64.toNat_ofNat']
  exact Nat.mod_eq_of_lt hlt

theorem head_eq {first : UInt8} {n : Nat} (h : first.toNat = n) : UInt8.ofNat n = first := by
  rw [← h, UInt8.ofNat_toNat]

theorem bytes_append (chunk rest : Bytes)
    : Reader.bytes chunk.length (chunk ++ rest) = .ok chunk rest := by
  simp [Reader.bytes]

theorem readUnsigned_single {v : UInt64} (hle : v ≤ 0xf7) (rest : Bytes)
    : readUnsigned (v.toUInt8 :: rest) = .ok v rest := by
  have hv : v.toNat ≤ 247 := UInt64.le_iff_toNat_le.1 hle
  have hbyte : v.toUInt8.toNat = v.toNat := by
    rw [UInt64.toNat_toUInt8]
    omega
  have hsize : unsignedSize v.toUInt8 = 1 := by
    unfold unsignedSize
    rw [if_pos]
    rw [UInt8.le_iff_toNat_le, hbyte]
    exact hv
  have hback : v.toUInt8.toUInt64 = v := by
    apply UInt64.toNat_inj.1
    rw [UInt8.toNat_toUInt64, hbyte]
  unfold readUnsigned
  rw [EStateM.bind_of_ok (peek_cons _ _)]
  simp only [hsize]
  rw [EStateM.bind_of_ok (enter_cons _ _ (by omega))]
  rw [if_pos trivial, hback]
  rfl

theorem readUnsigned_long {v : UInt64} (hgt : ¬ v ≤ 0xf7) (rest : Bytes)
    : readUnsigned (UInt8.ofNat (0xf7 + byteLength v) ::
          (Bytes.bigEndian (byteLength v) v.toNat ++ rest))
        =
      .ok v rest := by
  have hpos := byteLength_pos v
  have hle := byteLength_le v
  have hfirst : (UInt8.ofNat (0xf7 + byteLength v)).toNat = 247 + byteLength v := by
    rw [UInt8.toNat_ofNat']
    omega
  have hsize : unsignedSize (UInt8.ofNat (0xf7 + byteLength v)) = 1 + byteLength v := by
    unfold unsignedSize
    rw [if_neg]
    . rw [hfirst]
      omega
    . rw [UInt8.le_iff_toNat_le, hfirst]
      simp
      omega
  have hback : UInt64.ofNat (Bytes.ofBigEndian (Bytes.bigEndian (byteLength v) v.toNat)) = v := by
    rw [Bytes.ofBigEndian_bigEndian, Nat.mod_eq_of_lt (lt_pow_byteLength v)]
    simp
  have hbytes := bytes_append (Bytes.bigEndian (byteLength v) v.toNat) rest
  rw [Bytes.bigEndian_length] at hbytes
  unfold readUnsigned
  rw [EStateM.bind_of_ok (peek_cons _ _)]
  simp only [hsize]
  rw [EStateM.bind_of_ok (enter_cons _ _ (by simp; omega))]
  rw [if_neg (show ¬ 1 + byteLength v = 1 by omega)]
  rw [show 1 + byteLength v - 1 = byteLength v by omega]
  rw [EStateM.bind_of_ok hbytes, hback]
  rw [EStateM.bind_of_ok (ensureShortest_ok rfl rest), if_neg hgt]
  rfl

theorem readUnsigned_write (v : UInt64) (rest : Bytes)
    : readUnsigned (writeUnsigned v ++ rest) = .ok v rest := by
  unfold writeUnsigned
  split
  . next hle => exact readUnsigned_single hle rest
  . next hgt => exact readUnsigned_long hgt rest

theorem unsignedSize_eq (first : UInt8)
    : ∃ n, unsignedSize first = 1 + n ∧
        ((n = 0 ∧ first.toNat ≤ 0xf7) ∨ (1 ≤ n ∧ n ≤ 8 ∧ first.toNat = 0xf7 + n)) := by
  have hmax := first.toNat_lt
  unfold unsignedSize
  split
  . next hle => exact ⟨0, rfl, .inl ⟨rfl, UInt8.le_iff_toNat_le.1 hle⟩⟩
  . next hgt =>
    have hgt : ¬ first.toNat ≤ 0xf7 := fun hle => hgt (UInt8.le_iff_toNat_le.2 hle)
    exact ⟨first.toNat - 0xf7, rfl, .inr (by omega)⟩

theorem writeUnsigned_of_single {first : UInt8} (hle : first.toNat ≤ 0xf7)
    : writeUnsigned first.toUInt64 = [first] := by
  unfold writeUnsigned
  rw [if_pos]
  . rw [UInt8.toUInt8_toUInt64]
  . rw [UInt64.le_iff_toNat_le, UInt8.toNat_toUInt64]
    exact hle

theorem writeUnsigned_of_payload {first : UInt8} {payload : Bytes} {u : UInt64} (hle : payload.length ≤ 8)
    (hfirst : first.toNat = 0xf7 + payload.length) (hu : u = UInt64.ofNat (Bytes.ofBigEndian payload))
    (hlength : byteLength u = payload.length) (hgt : ¬ u ≤ 0xf7)
    : writeUnsigned u = first :: payload := by
  unfold writeUnsigned
  rw [if_neg hgt]
  dsimp only
  rw [hlength, head_eq hfirst, hu, toNat_ofBigEndian hle, Bytes.bigEndian_ofBigEndian]

theorem eq_writeUnsigned_of_read {input rest : Bytes} {v : UInt64} (hread : readUnsigned input = .ok v rest)
    : input = writeUnsigned v ++ rest := by
  unfold readUnsigned at hread
  obtain ⟨first, _, hpeek, hfirst⟩ := EStateM.of_bind hread
  obtain ⟨rfl, tail, rfl⟩ := Reader.peek_eq_ok hpeek
  obtain ⟨_, _, henter, h⟩ := EStateM.of_bind hfirst
  rw [enter_eq_ok henter] at h
  obtain ⟨n, hsize, hcases⟩ := unsignedSize_eq first
  dsimp only at h
  rw [hsize, Nat.add_sub_cancel_left] at h
  rcases hcases with ⟨rfl, hle⟩ | ⟨hpos, hle, hhead⟩
  . rw [if_pos rfl] at h
    cases h
    rw [writeUnsigned_of_single hle]
    rfl
  . rw [if_neg (by omega)] at h
    obtain ⟨payload, _, hbytes, hpayload⟩ := EStateM.of_bind h
    obtain ⟨rfl, rfl⟩ := Reader.bytes_eq_ok hbytes
    obtain ⟨_, _, hshortest, hchecked⟩ := EStateM.of_bind hpayload
    obtain ⟨hlength, rfl⟩ := ensureShortest_eq_ok hshortest
    split at hchecked
    . cases hchecked
    . next hgt =>
      cases hchecked
      rw [writeUnsigned_of_payload hle hhead rfl hlength hgt]
      rfl

theorem readUnsigned_inverts : EStateM.Inverts readUnsigned writeUnsigned fun _ => True := by
  intro input v rest
  constructor
  . intro h
    exact ⟨eq_writeUnsigned_of_read h, trivial⟩
  . rintro ⟨rfl, -⟩
    exact readUnsigned_write v rest

theorem readLength_inverts
    : EStateM.Inverts readLength (fun n => writeUnsigned (UInt64.ofNat n)) (· < 2 ^ 64) := by
  intro input n rest
  unfold readLength
  rw [← bind_pure_comp]
  simp only [EStateM.bind_eq_ok_iff, EStateM.pure_eq_ok_iff, readUnsigned_inverts _ _ _]
  constructor
  . rintro ⟨v, _, ⟨rfl, -⟩, rfl, rfl⟩
    rw [UInt64.ofNat_toNat]
    exact ⟨rfl, v.toNat_lt⟩
  . rintro ⟨rfl, hn⟩
    refine ⟨_, rest, ⟨rfl, trivial⟩, ?_, rfl⟩
    rw [UInt64.toNat_ofNat', Nat.mod_eq_of_lt hn]

theorem readChunk_inverts : EStateM.Inverts readChunk writeChunk (·.length < 2 ^ 64) := by
  intro input chunk rest
  unfold readChunk writeChunk
  simp only [EStateM.bind_eq_ok_iff, readLength_inverts _ _ _, List.append_assoc]
  constructor
  . rintro ⟨_, _, ⟨rfl, hn⟩, hbytes⟩
    obtain ⟨rfl, rfl⟩ := Reader.bytes_eq_ok hbytes
    exact ⟨rfl, hn⟩
  . rintro ⟨rfl, hn⟩
    exact ⟨chunk.length, _, ⟨rfl, hn⟩, bytes_append chunk rest⟩

theorem writeUnsigned_ne_nil (v : UInt64) : writeUnsigned v ≠ [] := by
  unfold writeUnsigned
  split <;> simp

theorem length_le_writeChunk (chunk : Bytes) : chunk.length ≤ (writeChunk chunk).length := by
  unfold writeChunk
  simp

section Counted

variable {α : Type} {write : α → Bytes} {read : Reader α} {fits : α → Prop} {items : List α}

def writeCounted (write : α → Bytes) (items : List α) : Bytes :=
  writeUnsigned (UInt64.ofNat items.length) ++ items.flatMap write

def readCounted (read : Reader α) : Reader (List α) := do
  read.many (← readLength)

structure Counted (fits : α → Prop) (items : List α) : Prop where
  count : items.length < 2 ^ 64
  each : ∀ a ∈ items, fits a

theorem writeCounted_ne_nil (write : α → Bytes) (items : List α) : writeCounted write items ≠ [] := by
  unfold writeCounted
  simp [writeUnsigned_ne_nil]

theorem readCounted_inverts (h : EStateM.Inverts read write fits)
    : EStateM.Inverts (readCounted read) (writeCounted write) (Counted fits) := by
  intro input items rest
  unfold readCounted writeCounted
  simp only [EStateM.bind_eq_ok_iff, readLength_inverts _ _ _, Reader.many_eq_ok_iff h, List.append_assoc]
  constructor
  . rintro ⟨_, _, ⟨rfl, hcount⟩, rfl, rfl, heach⟩
    exact ⟨rfl, hcount, heach⟩
  . rintro ⟨rfl, hcount, heach⟩
    exact ⟨items.length, _, ⟨rfl, hcount⟩, rfl, rfl, heach⟩

theorem counted_of_length (hne : ∀ a, write a ≠ []) (hfits : ∀ a, (write a).length < 2 ^ 64 → fits a)
    (h : (writeCounted write items).length < 2 ^ 64)
    : Counted fits items := by
  unfold writeCounted at h
  rw [List.length_append] at h
  constructor
  . have := Reader.length_le_flatMap items hne
    omega
  . intro a ha
    have := Reader.length_write_le_flatMap write ha
    exact hfits a (by omega)

end Counted

end VarInt

end ReplicatedStore
