import Mathlib.Tactic.IntervalCases
import ReplicatedStore.Proofs.Encoding.Order
import ReplicatedStore.Proofs.Encoding.VarInt

/-!
Signed variable-length integers: they read back, nothing else reads, and their order is that of the numbers.
-/

namespace ReplicatedStore

namespace VarInt

theorem byteLength_le_iff {u : UInt64} {n : Nat} (hn : 1 ≤ n) : byteLength u ≤ n ↔ u.toNat < 256 ^ n := by
  constructor
  . intro h
    exact Nat.lt_of_lt_of_le (lt_pow_byteLength u) (Nat.pow_le_pow_right (by decide) h)
  . intro h
    unfold byteLength
    split
    . exact hn
    . next hne =>
      have hpos : u.toNat ≠ 0 := fun heq => hne (UInt64.toNat_inj.1 heq)
      rw [show 256 = 2 ^ 8 from rfl, ← Nat.pow_mul] at h
      have := (Nat.log2_lt hpos).2 h
      omega

theorem byteLength_mono {u v : UInt64} (h : u.toNat ≤ v.toNat) : byteLength u ≤ byteLength v := by
  rw [byteLength_le_iff (byteLength_pos v)]
  exact Nat.lt_of_le_of_lt h (lt_pow_byteLength v)

theorem toNat_payloadMask {n : Nat} (hpos : 1 ≤ n) (hle : n ≤ 8) : (payloadMask n).toNat = 256 ^ n - 1 := by
  interval_cases n <;> rfl

theorem toNat_not_mod {u : UInt64} {n : Nat} (hle : n ≤ 8) (hlt : u.toNat < 256 ^ n)
    : (~~~u).toNat % 256 ^ n = 256 ^ n - 1 - u.toNat := by
  have hsize : UInt64.size = 256 ^ n * 256 ^ (8 - n) := by
    rw [← Nat.pow_add, show n + (8 - n) = 8 by omega]
  obtain ⟨k, hk⟩ : ∃ k, 256 ^ (8 - n) = k + 1 :=
    Nat.exists_eq_succ_of_ne_zero (Nat.pos_iff_ne_zero.1 (Nat.pow_pos (by decide)))
  rw [UInt64.toNat_not, hsize, hk, Nat.mul_succ]
  rw [show 256 ^ n * k + 256 ^ n - 1 - u.toNat = 256 ^ n - 1 - u.toNat + 256 ^ n * k by omega]
  rw [Nat.add_mul_mod_self_left, Nat.mod_eq_of_lt (by omega)]

theorem toNat_not_and_mask {u : UInt64} {n : Nat} (hpos : 1 ≤ n) (hle : n ≤ 8) (hlt : u.toNat < 256 ^ n)
    : (~~~u &&& payloadMask n).toNat = 256 ^ n - 1 - u.toNat := by
  rw [UInt64.toNat_and, toNat_payloadMask hpos hle, ← toNat_not_mod hle hlt]
  rw [show 256 = 2 ^ 8 from rfl, ← Nat.pow_mul, Nat.and_two_pow_sub_one_eq_mod]

theorem toInt_add_of_bounds {a b : Int64} (hmin : -2 ^ 63 ≤ a.toInt + b.toInt)
    (hmax : a.toInt + b.toInt < 2 ^ 63)
    : (a + b).toInt = a.toInt + b.toInt := by
  rw [Int64.toInt_add, Int.bmod_eq_of_le]
  . simpa using hmin
  . simpa using hmax

theorem toInt_sub_of_bounds {a b : Int64} (hmin : -2 ^ 63 ≤ a.toInt - b.toInt)
    (hmax : a.toInt - b.toInt < 2 ^ 63)
    : (a - b).toInt = a.toInt - b.toInt := by
  rw [Int64.toInt_sub, Int.bmod_eq_of_le]
  . simpa using hmin
  . simpa using hmax

theorem toNat_toUInt64 {v : Int64} (h : 0 ≤ v.toInt) : (v.toUInt64.toNat : Int) = v.toInt := by
  rw [Int64.toNat_toUInt64_of_le]
  . exact Int.toNat_of_nonneg h
  . rw [Int64.le_iff_toInt_le]
    exact h

theorem toInt_sub_120 {v : Int64} (h : 119 < v.toInt) : (v - 120).toInt = v.toInt - 120 := by
  have hmax := v.toInt_lt
  apply toInt_sub_of_bounds
  . simp
    omega
  . simp
    omega

theorem toInt_add_119 {v : Int64} (h : v.toInt < -118) : (v + 119).toInt = v.toInt + 119 := by
  have hmin := v.le_toInt
  apply toInt_add_of_bounds
  . simp
    omega
  . simp
    omega

theorem toInt_neg_add_119 {v : Int64} (h : v.toInt < -118) : (-(v + 119)).toInt = -119 - v.toInt := by
  have hmin := v.le_toInt
  rw [Int64.toInt_neg, toInt_add_119 h, Int.bmod_eq_of_le]
  . omega
  . omega
  . omega

theorem toInt_add_127 {v : Int64} (hmin : -118 ≤ v.toInt) (hmax : v.toInt ≤ 119)
    : (v + 127).toInt = v.toInt + 127 := by
  apply toInt_add_of_bounds
  . simp
    omega
  . simp
    omega

theorem toNat_excessAbove {v : Int64} (h : 119 < v.toInt)
    : ((excessAbove v).toNat : Int) = v.toInt - 120 := by
  have hsub := toInt_sub_120 h
  unfold excessAbove
  rw [toNat_toUInt64]
  . exact hsub
  . omega

theorem toNat_excessBelow {v : Int64} (h : v.toInt < -118)
    : ((excessBelow v).toNat : Int) = -119 - v.toInt := by
  have hneg := toInt_neg_add_119 h
  unfold excessBelow
  rw [toNat_toUInt64]
  . exact hneg
  . omega

theorem writeSigned_single {v : Int64} (hmin : -118 ≤ v.toInt) (hmax : v.toInt ≤ 119)
    : ∃ b : UInt8, (b.toNat : Int) = v.toInt + 127 ∧ writeSigned v = [b] := by
  refine ⟨(v + 127).toUInt64.toUInt8, ?_, ?_⟩
  . have hadd := toInt_add_127 hmin hmax
    have := toNat_toUInt64 (v := v + 127) (by omega)
    rw [UInt64.toNat_toUInt8]
    omega
  . unfold writeSigned
    rw [if_pos]
    simp only [Int64.le_iff_toInt_le]
    exact ⟨hmin, hmax⟩

theorem writeSigned_above {v : Int64} (h : 119 < v.toInt)
    : writeSigned v = UInt8.ofNat (0xf6 + byteLength (excessAbove v)) ::
        Bytes.bigEndian (byteLength (excessAbove v)) (excessAbove v).toNat := by
  unfold writeSigned
  rw [if_neg, if_pos]
  . simp only [Int64.lt_iff_toInt_lt]
    exact h
  . simp only [Int64.le_iff_toInt_le]
    rintro ⟨-, hle⟩
    exact Int.not_le.2 h hle

theorem writeSigned_below {v : Int64} (h : v.toInt < -118)
    : writeSigned v = UInt8.ofNat (0x09 - byteLength (excessBelow v)) ::
        Bytes.bigEndian (byteLength (excessBelow v))
          (256 ^ byteLength (excessBelow v) - 1 - (excessBelow v).toNat) := by
  unfold writeSigned
  rw [if_neg, if_neg]
  . dsimp only
    congr 1
    apply Bytes.bigEndian_mod
    rw [toNat_not_mod (byteLength_le _) (lt_pow_byteLength _), Nat.mod_eq_of_lt]
    have := lt_pow_byteLength (excessBelow v)
    omega
  . simp only [Int64.lt_iff_toInt_lt]
    have : Int64.toInt 119 = 119 := by decide
    omega
  . simp only [Int64.le_iff_toInt_le]
    rintro ⟨hle, -⟩
    exact Int.not_le.2 h hle

theorem toNat_head {base : Nat} (hbase : base ≤ 0xf7) (u : UInt64)
    : (UInt8.ofNat (base + byteLength u)).toNat = base + byteLength u := by
  have := byteLength_le u
  rw [UInt8.toNat_ofNat']
  omega

theorem toNat_head_above (u : UInt64) : (UInt8.ofNat (0xf6 + byteLength u)).toNat = 0xf6 + byteLength u :=
  toNat_head (by decide) u

theorem toNat_head_below (u : UInt64) : (UInt8.ofNat (0x09 - byteLength u)).toNat = 0x09 - byteLength u := by
  rw [UInt8.toNat_ofNat']
  omega

theorem ranks_lengthened {base : Nat} (hbase : base ≤ 0xf7) {u v : UInt64} (h : u.toNat < v.toNat)
    : Bytes.Ranks
        (UInt8.ofNat (base + byteLength u) :: Bytes.bigEndian (byteLength u) u.toNat)
        (UInt8.ofNat (base + byteLength v) :: Bytes.bigEndian (byteLength v) v.toNat) .lt := by
  rcases Nat.lt_or_eq_of_le (byteLength_mono (Nat.le_of_lt h)) with hlt | heq
  . apply Bytes.ranks_of_lt
    rw [toNat_head hbase, toNat_head hbase]
    omega
  . rw [heq, ← Nat.compare_eq_lt.2 h]
    apply Bytes.Ranks.cons
    apply Bytes.ranks_bigEndian
    . exact heq ▸ lt_pow_byteLength u
    . exact lt_pow_byteLength v

theorem ranks_below {u v : UInt64} (h : v.toNat < u.toNat)
    : Bytes.Ranks
        (UInt8.ofNat (0x09 - byteLength u) ::
          Bytes.bigEndian (byteLength u) (256 ^ byteLength u - 1 - u.toNat))
        (UInt8.ofNat (0x09 - byteLength v) ::
          Bytes.bigEndian (byteLength v) (256 ^ byteLength v - 1 - v.toNat)) .lt := by
  have hu := lt_pow_byteLength u
  rcases Nat.lt_or_eq_of_le (byteLength_mono (Nat.le_of_lt h)) with hlt | heq
  . have := byteLength_le u
    apply Bytes.ranks_of_lt
    rw [toNat_head_below, toNat_head_below]
    omega
  . rw [heq, ← Nat.compare_eq_lt.2
      (show 256 ^ byteLength u - 1 - u.toNat < 256 ^ byteLength u - 1 - v.toNat by omega)]
    apply Bytes.Ranks.cons
    apply Bytes.ranks_bigEndian
    . omega
    . omega

theorem ranks_writeSigned_of_lt {a b : Int64} (h : a.toInt < b.toInt)
    : Bytes.Ranks (writeSigned a) (writeSigned b) .lt := by
  -- three forms: lengthened below -118, a single byte, lengthened above 119
  rcases Int.lt_or_le a.toInt (-118) with ha | ha
  . rw [writeSigned_below ha]
    have hpos := byteLength_pos (excessBelow a)
    rcases Int.lt_or_le b.toInt (-118) with hb | hb
    . rw [writeSigned_below hb]
      apply ranks_below
      have := toNat_excessBelow ha
      have := toNat_excessBelow hb
      omega
    . rcases Int.lt_or_le 119 b.toInt with hb' | hb'
      . rw [writeSigned_above hb']
        apply Bytes.ranks_of_lt
        rw [toNat_head_above, toNat_head_below]
        omega
      . obtain ⟨y, hy, hwrite⟩ := writeSigned_single hb hb'
        rw [hwrite]
        apply Bytes.ranks_of_lt
        rw [toNat_head_below]
        omega
  . rcases Int.lt_or_le 119 a.toInt with ha' | ha'
    . have hb : 119 < b.toInt := by omega
      rw [writeSigned_above ha', writeSigned_above hb]
      apply ranks_lengthened (by decide)
      have := toNat_excessAbove ha'
      have := toNat_excessAbove hb
      omega
    . obtain ⟨x, hx, hwrite⟩ := writeSigned_single ha ha'
      rw [hwrite]
      rcases Int.lt_or_le 119 b.toInt with hb | hb
      . rw [writeSigned_above hb]
        have hpos := byteLength_pos (excessAbove b)
        apply Bytes.ranks_of_lt
        rw [toNat_head_above]
        omega
      . obtain ⟨y, hy, hwrite'⟩ := writeSigned_single (by omega) hb
        rw [hwrite']
        apply Bytes.ranks_of_lt
        omega

theorem ranks_writeSigned (a b : Int64)
    : Bytes.Ranks (writeSigned a) (writeSigned b) (Ord.compare a.toInt b.toInt) := by
  rcases Int.lt_trichotomy a.toInt b.toInt with hlt | heq | hgt
  . rw [compare_lt_iff_lt.2 hlt]
    exact ranks_writeSigned_of_lt hlt
  . rw [compare_eq_iff_eq.2 heq, Int64.toInt_inj.1 heq]
    apply Bytes.ranks_self
  . rw [compare_gt_iff_gt.2 hgt]
    exact (ranks_writeSigned_of_lt hgt).swap

theorem signedSize_low {first : UInt8} (hpos : 0 < first.toNat) (hlt : first.toNat < 0x09)
    : signedSize first = .ok (1 + (0x09 - first.toNat)) := by
  unfold signedSize
  rw [if_neg, if_pos]
  . exact UInt8.lt_iff_toNat_lt.2 hlt
  . rintro (rfl | rfl)
    . exact absurd hpos (by decide)
    . exact absurd hlt (by decide)

theorem signedSize_middle {first : UInt8} (hge : 0x09 ≤ first.toNat) (hle : first.toNat ≤ 0xf6)
    : signedSize first = .ok 1 := by
  unfold signedSize
  rw [if_neg, if_neg, if_pos]
  . exact UInt8.le_iff_toNat_le.2 hle
  . rw [UInt8.lt_iff_toNat_lt]
    exact Nat.not_lt.2 hge
  . rintro (rfl | rfl)
    . exact absurd hge (by decide)
    . exact absurd hle (by decide)

theorem signedSize_high {first : UInt8} (hlt : 0xf6 < first.toNat) (hne : first.toNat < 0xff)
    : signedSize first = .ok (1 + (first.toNat - 0xf6)) := by
  unfold signedSize
  rw [if_neg, if_neg, if_neg]
  . rw [UInt8.le_iff_toNat_le]
    exact Nat.not_le.2 hlt
  . rw [UInt8.lt_iff_toNat_lt]
    have : (0x09 : UInt8).toNat = 9 := rfl
    omega
  . rintro (rfl | rfl)
    . exact absurd hlt (by decide)
    . exact absurd hne (by decide)

theorem exists_writeSigned (v : Int64)
    : ∃ first payload, writeSigned v = first :: payload ∧ signedSize first = .ok (1 + payload.length) ∧
        0 < first.toNat ∧ first.toNat < 0xff := by
  rcases Int.lt_or_le v.toInt (-118) with hlow | hlow
  . have hpos := byteLength_pos (excessBelow v)
    have hle := byteLength_le (excessBelow v)
    have hhead := toNat_head_below (excessBelow v)
    refine ⟨_, _, writeSigned_below hlow, ?_, by omega, by omega⟩
    rw [signedSize_low (by omega) (by omega), Bytes.bigEndian_length, hhead, Nat.sub_sub_self (by omega)]
  . rcases Int.lt_or_le 119 v.toInt with hhigh | hhigh
    . have hpos := byteLength_pos (excessAbove v)
      have hle := byteLength_le (excessAbove v)
      have hhead := toNat_head_above (excessAbove v)
      refine ⟨_, _, writeSigned_above hhigh, ?_, by omega, by omega⟩
      rw [signedSize_high (by omega) (by omega), Bytes.bigEndian_length, hhead, Nat.add_sub_cancel_left]
    . obtain ⟨b, hb, hwrite⟩ := writeSigned_single hlow hhigh
      refine ⟨b, [], hwrite, ?_, by omega, by omega⟩
      exact signedSize_middle (by omega) (by omega)

theorem excessAbove_eq {v : Int64} {u : UInt64} (h : v.toInt = u.toNat + 120) : excessAbove v = u := by
  apply UInt64.toNat_inj.1
  have := toNat_excessAbove (v := v) (by omega)
  omega

theorem excessBelow_eq {v : Int64} {u : UInt64} (h : v.toInt = -119 - u.toNat) : excessBelow v = u := by
  apply UInt64.toNat_inj.1
  have := toNat_excessBelow (v := v) (by omega)
  omega

theorem toInt_toInt64 {u : UInt64} (h : u.toNat < 2 ^ 63) : u.toInt64.toInt = u.toNat := by
  have hbits : u.toInt64.toInt = u.toBitVec.toInt := rfl
  rw [hbits, BitVec.toInt_eq_toNat_of_lt]
  . rfl
  . rw [UInt64.toNat_toBitVec]
    omega

theorem toInt_above {u : UInt64} (h : ¬ 0x7fffffffffffffff - 120 < u)
    : (u.toInt64 + 120).toInt = u.toNat + 120 := by
  rw [UInt64.lt_iff_toNat_lt] at h
  have hmax : u.toNat ≤ 2 ^ 63 - 1 - 120 := Nat.not_lt.1 h
  have hu := toInt_toInt64 (u := u) (by omega)
  have hconst : (120 : Int64).toInt = 120 := by decide
  rw [toInt_add_of_bounds, hu, hconst]
  . omega
  . omega

theorem toInt_below {u : UInt64} (h : ¬ 0x7fffffffffffffff - 119 + 1 < u)
    : (-119 - u.toInt64).toInt = -119 - u.toNat := by
  rw [UInt64.lt_iff_toNat_lt] at h
  have hmax : u.toNat ≤ 2 ^ 63 - 119 := Nat.not_lt.1 h
  have hu := toInt_toInt64 (u := u) (by omega)
  have hconst : (-119 : Int64).toInt = -119 := by decide
  rw [toInt_sub_of_bounds, hu, hconst]
  . omega
  . omega

theorem write_of_payload_above {first : UInt8} {payload : Bytes} {v : Int64} {u : UInt64}
    (hle : payload.length ≤ 8) (hfirst : first.toNat = 0xf6 + payload.length)
    (hu : u = UInt64.ofNat (Bytes.ofBigEndian payload)) (hlength : byteLength u = payload.length)
    (hv : v.toInt = u.toNat + 120)
    : writeSigned v = first :: payload := by
  rw [writeSigned_above (by omega), excessAbove_eq hv, hlength, head_eq hfirst]
  rw [hu, toNat_ofBigEndian hle, Bytes.bigEndian_ofBigEndian]

theorem write_of_payload_below {first : UInt8} {payload : Bytes} {v : Int64} {u : UInt64}
    (hpos : 1 ≤ payload.length) (hle : payload.length ≤ 8) (hfirst : first.toNat = 0x09 - payload.length)
    (hu : u = ~~~UInt64.ofNat (Bytes.ofBigEndian payload) &&& payloadMask payload.length)
    (hlength : byteLength u = payload.length) (hv : v.toInt = -119 - u.toNat)
    : writeSigned v = first :: payload := by
  have hlt := Bytes.ofBigEndian_lt payload
  have hraw := toNat_ofBigEndian hle
  have hback : 256 ^ payload.length - 1 - u.toNat = Bytes.ofBigEndian payload := by
    rw [hu, toNat_not_and_mask hpos hle (by omega), hraw]
    omega
  rw [writeSigned_below (by omega), excessBelow_eq hv, hlength, head_eq hfirst.symm.symm, hback]
  rw [Bytes.bigEndian_ofBigEndian]

theorem ofNat_payload {n k : Nat} (hn : n ≤ 8) (hk : k < 256 ^ n)
    : (UInt64.ofNat (Bytes.ofBigEndian (Bytes.bigEndian n k))).toNat = k := by
  rw [toNat_ofBigEndian (by rw [Bytes.bigEndian_length]; exact hn)]
  rw [Bytes.ofBigEndian_bigEndian, Nat.mod_eq_of_lt hk]

theorem readSigned_cons {first : UInt8} {payload : Bytes} (hpos : 1 ≤ payload.length)
    (hsize : signedSize first = .ok (1 + payload.length)) (rest : Bytes)
    : readSigned (first :: (payload ++ rest))
        =
      (if 0xf6 < first then do
        let raw := UInt64.ofNat (Bytes.ofBigEndian payload)
        ensureShortest raw payload.length
        if 0x7fffffffffffffff - 120 < raw then
          throw (.malformed "signed varint overflows i64")
        return raw.toInt64 + 120
      else do
        let u := ~~~UInt64.ofNat (Bytes.ofBigEndian payload) &&& payloadMask payload.length
        ensureShortest u payload.length
        if 0x7fffffffffffffff - 119 + 1 < u then
          throw (.malformed "signed varint underflows i64")
        return -119 - u.toInt64 : Reader Int64) rest := by
  have hlift : readSigned.liftExcept (signedSize first) (first :: (payload ++ rest))
      = .ok (1 + payload.length) (first :: (payload ++ rest)) := by
    rw [hsize]
    rfl
  unfold readSigned
  rw [EStateM.bind_of_ok (peek_cons _ _), EStateM.bind_of_ok hlift]
  rw [EStateM.bind_of_ok (enter_cons _ _ (by rw [List.length_append]; omega))]
  dsimp only
  rw [if_neg (by omega), Nat.add_sub_cancel_left, EStateM.bind_of_ok (bytes_append payload rest)]

theorem readSigned_above {v : Int64} (h : 119 < v.toInt) (rest : Bytes)
    : readSigned (writeSigned v ++ rest) = .ok v rest := by
  have hexcess := toNat_excessAbove h
  have hmax := v.toInt_lt
  rw [writeSigned_above h, List.cons_append]
  generalize excessAbove v = u at hexcess
  have hpos := byteLength_pos u
  have hle := byteLength_le u
  have hhead := toNat_head_above u
  have hsize : signedSize (UInt8.ofNat (0xf6 + byteLength u))
      = .ok (1 + (Bytes.bigEndian (byteLength u) u.toNat).length) := by
    rw [signedSize_high (by omega) (by omega), Bytes.bigEndian_length, hhead, Nat.add_sub_cancel_left]
  have hraw : UInt64.ofNat (Bytes.ofBigEndian (Bytes.bigEndian (byteLength u) u.toNat)) = u :=
    UInt64.toNat_inj.1 (ofNat_payload hle (lt_pow_byteLength u))
  have hbound : ¬ 0x7fffffffffffffff - 120 < u := by
    rw [UInt64.lt_iff_toNat_lt, show (0x7fffffffffffffff - 120 : UInt64).toNat = 2 ^ 63 - 121 from rfl]
    omega
  have hvalue : u.toInt64 + 120 = v := by
    rw [← Int64.toInt_inj, toInt_above hbound]
    omega
  rw [readSigned_cons (by rw [Bytes.bigEndian_length]; exact hpos) hsize]
  rw [if_pos (by rw [UInt8.lt_iff_toNat_lt, hhead]; simp; omega), hraw, Bytes.bigEndian_length]
  dsimp only
  rw [EStateM.bind_of_ok (ensureShortest_ok rfl rest), if_neg hbound, hvalue]
  rfl

theorem readSigned_below {v : Int64} (h : v.toInt < -118) (rest : Bytes)
    : readSigned (writeSigned v ++ rest) = .ok v rest := by
  have hexcess := toNat_excessBelow h
  have hmin := v.le_toInt
  rw [writeSigned_below h, List.cons_append]
  generalize excessBelow v = u at hexcess
  have hpos := byteLength_pos u
  have hle := byteLength_le u
  have hlt := lt_pow_byteLength u
  have hhead := toNat_head_below u
  have hsize : signedSize (UInt8.ofNat (0x09 - byteLength u))
      = .ok (1 + (Bytes.bigEndian (byteLength u) (256 ^ byteLength u - 1 - u.toNat)).length) := by
    rw [signedSize_low (by omega) (by omega), Bytes.bigEndian_length, hhead, Nat.sub_sub_self (by omega)]
  have hraw := ofNat_payload hle (show 256 ^ byteLength u - 1 - u.toNat < 256 ^ byteLength u by omega)
  have hinverted : ~~~UInt64.ofNat
      (Bytes.ofBigEndian (Bytes.bigEndian (byteLength u) (256 ^ byteLength u - 1 - u.toNat))) &&&
        payloadMask (byteLength u) = u := by
    rw [← UInt64.toNat_inj, toNat_not_and_mask hpos hle (by omega), hraw]
    omega
  have hbound : ¬ 0x7fffffffffffffff - 119 + 1 < u := by
    rw [UInt64.lt_iff_toNat_lt, show (0x7fffffffffffffff - 119 + 1 : UInt64).toNat = 2 ^ 63 - 119 from rfl]
    omega
  have hvalue : -119 - u.toInt64 = v := by
    rw [← Int64.toInt_inj, toInt_below hbound]
    omega
  rw [readSigned_cons (by rw [Bytes.bigEndian_length]; exact hpos) hsize]
  rw [if_neg (by rw [UInt8.lt_iff_toNat_lt, hhead]; simp; omega), Bytes.bigEndian_length, hinverted]
  dsimp only
  rw [EStateM.bind_of_ok (ensureShortest_ok rfl rest), if_neg hbound, hvalue]
  rfl

theorem readSigned_single {v : Int64} (hmin : -118 ≤ v.toInt) (hmax : v.toInt ≤ 119) (rest : Bytes)
    : readSigned (writeSigned v ++ rest) = .ok v rest := by
  obtain ⟨b, hb, hwrite⟩ := writeSigned_single hmin hmax
  have hlift : readSigned.liftExcept (signedSize b) (b :: rest) = .ok 1 (b :: rest) := by
    rw [signedSize_middle (by omega) (by omega)]
    rfl
  have hvalue : Int64.ofInt (b.toNat - 127 : Int) = v := by
    rw [← Int64.ofInt_toInt (x := v)]
    congr
    omega
  unfold readSigned
  rw [hwrite, List.singleton_append, EStateM.bind_of_ok (peek_cons _ _), EStateM.bind_of_ok hlift]
  rw [EStateM.bind_of_ok (enter_cons _ _ (by omega))]
  dsimp only
  rw [if_pos rfl, hvalue]
  rfl

theorem readSigned_write (v : Int64) (rest : Bytes) : readSigned (writeSigned v ++ rest) = .ok v rest := by
  rcases Int.lt_or_le v.toInt (-118) with hlow | hlow
  . exact readSigned_below hlow rest
  . rcases Int.lt_or_le 119 v.toInt with hhigh | hhigh
    . exact readSigned_above hhigh rest
    . exact readSigned_single hlow hhigh rest

theorem signedSize_eq_ok {first : UInt8} {length : Nat} (h : signedSize first = .ok length)
    : ∃ n, length = 1 + n ∧
        ((1 ≤ n ∧ n ≤ 8 ∧ first.toNat = 0x09 - n) ∨
          (n = 0 ∧ 0x09 ≤ first.toNat ∧ first.toNat ≤ 0xf6) ∨
          (1 ≤ n ∧ n ≤ 8 ∧ first.toNat = 0xf6 + n)) := by
  unfold signedSize at h
  simp only [UInt8.lt_iff_toNat_lt, UInt8.le_iff_toNat_le] at h
  split at h
  . cases h
  . next hedge =>
    have hzero : first.toNat ≠ 0x00 := fun heq => hedge (.inl (UInt8.toNat_inj.1 heq))
    have hlast : first.toNat ≠ 0xff := fun heq => hedge (.inr (UInt8.toNat_inj.1 heq))
    have hmax := first.toNat_lt
    split at h
    . next hlow =>
      replace hlow : first.toNat < 0x09 := hlow
      exact ⟨0x09 - first.toNat, (Except.ok.inj h).symm, .inl (by omega)⟩
    . next hlow =>
      replace hlow : ¬ first.toNat < 0x09 := hlow
      split at h
      . next hhigh => exact ⟨0, (Except.ok.inj h).symm, .inr (.inl ⟨rfl, Nat.not_lt.1 hlow, hhigh⟩)⟩
      . next hhigh =>
        replace hhigh : ¬ first.toNat ≤ 0xf6 := hhigh
        exact ⟨first.toNat - 0xf6, (Except.ok.inj h).symm, .inr (.inr (by omega))⟩

theorem liftExcept_eq_ok {r : Except EncodingError Nat} {n : Nat} {input rest : Bytes}
    (h : readSigned.liftExcept r input = .ok n rest)
    : r = .ok n ∧ rest = input := by
  cases r with
  | ok m =>
    cases h
    exact ⟨rfl, rfl⟩
  | error e => cases h

theorem checked_eq_ok {u limit : UInt64} {n : Nat} {message : String} {value v : Int64} {input rest : Bytes}
    (h : (do
      ensureShortest u n
      if limit < u then
        throw (.malformed message)
      return value : Reader Int64) input = .ok v rest)
    : byteLength u = n ∧ ¬ limit < u ∧ value = v ∧ input = rest := by
  obtain ⟨_, _, hshortest, hchecked⟩ := EStateM.of_bind h
  obtain ⟨hlength, rfl⟩ := ensureShortest_eq_ok hshortest
  split at hchecked
  . cases hchecked
  . next hmax =>
    obtain ⟨hv, hrest⟩ := EStateM.Result.ok.inj hchecked
    exact ⟨hlength, hmax, hv, hrest⟩

theorem eq_writeSigned_of_read {input rest : Bytes} {v : Int64} (hread : readSigned input = .ok v rest)
    : input = writeSigned v ++ rest := by
  unfold readSigned at hread
  obtain ⟨first, _, hpeek, hfirst⟩ := EStateM.of_bind hread
  obtain ⟨rfl, tail, rfl⟩ := Reader.peek_eq_ok hpeek
  obtain ⟨length, _, hlift, hlength⟩ := EStateM.of_bind hfirst
  obtain ⟨hsize, rfl⟩ := liftExcept_eq_ok hlift
  obtain ⟨_, _, henter, h⟩ := EStateM.of_bind hlength
  rw [enter_eq_ok henter] at h
  clear hread hfirst hlength hpeek hlift henter
  dsimp only at h
  obtain ⟨n, rfl, hcases⟩ := signedSize_eq_ok hsize
  rw [Nat.add_sub_cancel_left] at h
  -- the first byte tells which of the three forms it is
  rcases hcases with ⟨hpos, hle, hfirst⟩ | ⟨rfl, hmin, hmax⟩ | ⟨hpos, hle, hfirst⟩
  . rw [if_neg (by omega)] at h
    obtain ⟨payload, _, hbytes, hpayload⟩ := EStateM.of_bind h
    obtain ⟨rfl, rfl⟩ := Reader.bytes_eq_ok hbytes
    rw [if_neg (by rw [UInt8.lt_iff_toNat_lt, hfirst]; simp; omega)] at hpayload
    obtain ⟨hlength, hmax, hv, hrest⟩ := checked_eq_ok hpayload
    rw [← hrest, ← List.cons_append, ← hv]
    rw [write_of_payload_below hpos hle hfirst rfl hlength (toInt_below hmax)]
  . rw [if_pos rfl] at h
    cases h
    have hv : (Int64.ofInt (first.toNat - 127)).toInt = first.toNat - 127 := by
      rw [Int64.toInt_ofInt, Int.bmod_eq_of_le]
      . simp
        omega
      . simp
        omega
    obtain ⟨b, hb, hwrite⟩ := writeSigned_single (v := Int64.ofInt (first.toNat - 127)) (by omega) (by omega)
    rw [hwrite, show b = first from UInt8.toNat_inj.1 (by omega)]
    rfl
  . rw [if_neg (by omega)] at h
    obtain ⟨payload, _, hbytes, hpayload⟩ := EStateM.of_bind h
    obtain ⟨rfl, rfl⟩ := Reader.bytes_eq_ok hbytes
    rw [if_pos (by rw [UInt8.lt_iff_toNat_lt, hfirst]; simp; omega)] at hpayload
    obtain ⟨hlength, hmax, hv, hrest⟩ := checked_eq_ok hpayload
    rw [← hrest, ← List.cons_append, ← hv]
    rw [write_of_payload_above hle hfirst rfl hlength (toInt_above hmax)]

end VarInt

end ReplicatedStore
