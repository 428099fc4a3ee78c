import ReplicatedStore.Proofs.Encoding.Exact
import ReplicatedStore.Proofs.Encoding.SignedVarInt

/-!
Variable-length integers, worked out step by step in words of fixed width: every sum, difference, negation,
shift and conversion on the way yields a number that its word holds, whatever is written or read.
-/

namespace ReplicatedStore

namespace VarInt

namespace Checked

open Exact

variable {α : Type}

def byteLength (u : UInt64) : Option Nat := do
  let bits ← count? (64 - u.toBitVec.clz.toNat)
  return max 1 ((bits + 7) / 8)

def payload (n : Nat) (u : UInt64) : Option Bytes := do
  let skipped ← count? (8 - n)
  return (Bytes.bigEndian 8 u.toNat).drop skipped

def sizeFrom (distance : Int) : Option Nat := do
  let n ← byte? distance
  count? (1 + n.toNat)

def signedSize (first : UInt8) : Option (Except EncodingError Nat) :=
  if first = 0x00 ∨ first = 0xff then
    some (.error (.malformed s!"0x{Bytes.hexByte first} never starts a signed varint"))
  else if 0x09 ≤ first ∧ first ≤ 0xf6 then some (.ok 1)
  else if 0xf6 < first then .ok <$> sizeFrom (first.toNat - 0xf6)
  else .ok <$> sizeFrom (0x09 - first.toNat)

def writeSigned (v : Int64) : Option Bytes := do
  if -118 ≤ v ∧ v ≤ 119 then
    let shifted ← integer? (v.toInt + 127)
    return [← byte? shifted.toInt]
  else if 119 < v then
    let least ← integer? (119 + 1)
    let excess ← integer? (v.toInt - least.toInt)
    let u ← word? excess.toInt
    let n ← byteLength u
    let first ← byte? (0xf6 + (← byte? n).toNat)
    return first :: (← payload n u)
  else
    let greatest ← integer? (-118 - 1)
    let below ← integer? (v.toInt - greatest.toInt)
    let excess ← integer? (-below.toInt)
    let u ← word? excess.toInt
    let n ← byteLength u
    let first ← byte? (0x09 - (← byte? n).toNat)
    return first :: (← payload n (~~~u))

def extend (acc : UInt64) (b : UInt8) : Option UInt64 := do
  return (← shift? acc 8) ||| b.toUInt64

def readPayload (n : Nat) : OptionT Reader UInt64 := do
  let payload ← Reader.bytes n
  exactly (payload.foldlM extend 0)

def ensureShortest (u : UInt64) (n : Nat) : OptionT Reader Unit := do
  let length ← exactly (byteLength u)
  if length = n then pure ()
  else liftM (throw (.malformed s!"non-canonical {n}-byte integer encoding") : Reader Unit)

def payloadMask (n : Nat) : Option UInt64 := do
  if n = 8 then
    return 0xffffffffffffffff
  else
    let bits ← count? (8 * n)
    let power ← shift? 1 bits
    word? (power.toNat - 1)

def readSigned : OptionT Reader Int64 := do
  let first ← Reader.peek
  let length ← readSigned.liftExcept (← exactly (signedSize first))
  enter length
  let n ← exactly (count? (length - 1))
  if n = 0 then
    return ← exactly (integer? (first.toNat - 127))
  let raw ← readPayload n
  if 0xf6 < first then
    ensureShortest raw n
    let least ← exactly (integer? (119 + 1))
    let room ← exactly (integer? (0x7fffffffffffffff - least.toInt))
    let limit ← exactly (word? room.toInt)
    if limit < raw then
      liftM (throw (.malformed "signed varint overflows i64") : Reader Unit)
    let excess ← exactly (integer? raw.toNat)
    let sum ← exactly (integer? (excess.toInt + 119))
    exactly (integer? (sum.toInt + 1))
  else
    let mask ← exactly (payloadMask n)
    let u := ~~~raw &&& mask
    ensureShortest u n
    let greatest ← exactly (integer? (-118 - 1))
    let magnitude ← exactly (integer? (-greatest.toInt))
    let most ← exactly (word? 0x7fffffffffffffff)
    let room ← exactly (word? (most.toNat - (← exactly (word? magnitude.toInt)).toNat))
    let limit ← exactly (word? (room.toNat + 1))
    if limit < u then
      liftM (throw (.malformed "signed varint underflows i64") : Reader Unit)
    let excess ← exactly (integer? u.toNat)
    exactly (integer? (greatest.toInt - excess.toInt))

def unsignedSize (first : UInt8) : Option Nat :=
  if first ≤ 0xf7 then some 1
  else sizeFrom (first.toNat - 0xf7)

def writeUnsigned (v : UInt64) : Option Bytes := do
  if v ≤ 0xf7 then
    return [← byte? v.toNat]
  else
    let n ← byteLength v
    let first ← byte? (0xf7 + (← byte? n).toNat)
    return first :: (← payload n v)

def readUnsigned : OptionT Reader UInt64 := do
  let first ← Reader.peek
  let length ← exactly (unsignedSize first)
  enter length
  if length = 1 then
    return first.toUInt64
  let n ← exactly (count? (length - 1))
  let u ← readPayload n
  ensureShortest u n
  if u ≤ 0xf7 then
    liftM (throw (.malformed "non-canonical unsigned varint encoding") : Reader Unit)
  return u

theorem log2_add_clz {u : UInt64} (hne : u.toNat ≠ 0) : u.toNat.log2 + u.toBitVec.clz.toNat = 63 := by
  have hword : u.toBitVec ≠ 0#64 := by
    intro h
    exact hne (congrArg BitVec.toNat h)
  have hclz : u.toBitVec.clz.toNat < 64 := BitVec.lt_def.1 (BitVec.clz_lt_iff_ne_zero.2 hword)
  have hmin : 2 ^ (63 - u.toBitVec.clz.toNat) ≤ u.toNat :=
    BitVec.two_pow_sub_clz_le_toNat_of_ne_zero (by decide) hword
  have hmax : u.toNat < 2 ^ (63 - u.toBitVec.clz.toNat + 1) := by
    rw [show 63 - u.toBitVec.clz.toNat + 1 = 64 - u.toBitVec.clz.toNat by omega]
    exact BitVec.toNat_lt_two_pow_sub_clz
  rw [(Nat.log2_eq_iff hne).2 ⟨hmin, hmax⟩]
  omega

theorem byteLength_eq (u : UInt64) : byteLength u = some (VarInt.byteLength u) := by
  have hclz : u.toBitVec.clz.toNat ≤ 64 := BitVec.le_def.1 BitVec.clz_le
  unfold byteLength
  rw [count?_eq (k := 64 - u.toBitVec.clz.toNat) (by omega) (by omega)]
  unfold VarInt.byteLength
  split
  . next h =>
    rw [h]
    rfl
  . next h =>
    have hlog := log2_add_clz fun hzero => h (UInt64.toNat_inj.1 hzero)
    apply congrArg some
    omega

theorem drop_bigEndian (k n m : Nat) : (Bytes.bigEndian (k + n) m).drop k = Bytes.bigEndian n m := by
  induction k with
  | zero => rw [Nat.zero_add, List.drop_zero]
  | succ k ih => rw [Nat.succ_add, Bytes.bigEndian, List.drop_succ_cons, ih]

theorem payload_eq {n : Nat} (hle : n ≤ 8) (u : UInt64)
    : payload n u = some (Bytes.bigEndian n u.toNat) := by
  unfold payload
  rw [count?_eq (k := 8 - n) (by omega) (by omega)]
  have := drop_bigEndian (8 - n) n u.toNat
  rw [Nat.sub_add_cancel hle] at this
  exact congrArg some this

theorem extend_eq {acc : UInt64} {b : UInt8} (h : acc.toNat * 256 + b.toNat < 2 ^ 64)
    : extend acc b = some (UInt64.ofNat (acc.toNat * 256 + b.toNat)) := by
  have hacc : acc.toNat * 256 < 2 ^ 64 := Nat.lt_of_le_of_lt (Nat.le_add_right _ _) h
  have hback : (UInt64.ofNat (acc.toNat * 256)).toNat = acc.toNat * 256 := by
    rw [UInt64.toNat_ofNat', Nat.mod_eq_of_lt hacc]
  unfold extend
  rw [shift?_eq (v := UInt64.ofNat (acc.toNat * 256)) (by decide) hback.symm]
  apply congrArg some
  apply UInt64.toNat_inj.1
  rw [UInt64.toNat_or, UInt8.toNat_toUInt64, hback, UInt64.toNat_ofNat', Nat.mod_eq_of_lt h, Nat.mul_comm]
  exact (Nat.two_pow_add_eq_or_of_lt (i := 8) b.toNat_lt acc.toNat).symm

theorem foldlM_extend {bytes : Bytes} {acc : UInt64}
    (h : acc.toNat * 256 ^ bytes.length + Bytes.ofBigEndian bytes < 2 ^ 64)
    : bytes.foldlM extend acc
        =
      some (UInt64.ofNat (acc.toNat * 256 ^ bytes.length + Bytes.ofBigEndian bytes)) := by
  induction bytes generalizing acc with
  | nil => simp [Bytes.ofBigEndian]
  | cons b bytes ih =>
    have hpow : 1 ≤ 256 ^ bytes.length := Nat.pow_pos (by decide)
    have hsplit : acc.toNat * 256 ^ (bytes.length + 1) + Bytes.ofBigEndian (b :: bytes)
        = (acc.toNat * 256 + b.toNat) * 256 ^ bytes.length + Bytes.ofBigEndian bytes := by
      rw [Bytes.ofBigEndian_cons]
      ring
    rw [List.length_cons, hsplit] at h ⊢
    have hacc : acc.toNat * 256 + b.toNat < 2 ^ 64 :=
      calc acc.toNat * 256 + b.toNat
        _ ≤ (acc.toNat * 256 + b.toNat) * 256 ^ bytes.length := Nat.le_mul_of_pos_right _ hpow
        _ ≤ (acc.toNat * 256 + b.toNat) * 256 ^ bytes.length + Bytes.ofBigEndian bytes := Nat.le_add_right _ _
        _ < 2 ^ 64 := h
    have hback : (UInt64.ofNat (acc.toNat * 256 + b.toNat)).toNat = acc.toNat * 256 + b.toNat := by
      rw [UInt64.toNat_ofNat', Nat.mod_eq_of_lt hacc]
    rw [List.foldlM_cons, extend_eq hacc, Option.bind_eq_bind, Option.bind_some, ih]
    . rw [hback]
    . rw [hback]
      exact h

theorem payloadMask_eq {n : Nat} (hpos : 1 ≤ n) (hle : n ≤ 8)
    : payloadMask n = some (VarInt.payloadMask n) := by
  interval_cases n <;> decide +kernel

theorem sizeFrom_eq {distance : Int} {n : Nat} (h : distance = n) (hlt : n < 2 ^ 8)
    : sizeFrom distance = some (1 + n) := by
  have hbyte : (UInt8.ofNat n).toNat = n := by
    rw [UInt8.toNat_ofNat', Nat.mod_eq_of_lt hlt]
  unfold sizeFrom
  rw [byte?_eq (b := UInt8.ofNat n) (by omega), Option.bind_eq_bind, Option.bind_some, hbyte]
  exact count?_eq (by omega) (by omega)

theorem signedSize_eq (first : UInt8) : signedSize first = some (VarInt.signedSize first) := by
  have hmax := first.toNat_lt
  unfold signedSize
  split
  . next hnone =>
    unfold VarInt.signedSize
    rw [if_pos hnone]
  . next hsome =>
    have hpos : first.toNat ≠ 0 := fun h => hsome (.inl (UInt8.toNat_inj.1 h))
    have hne : first.toNat ≠ 0xff := fun h => hsome (.inr (UInt8.toNat_inj.1 h))
    split
    . next hmiddle =>
      rw [signedSize_middle (UInt8.le_iff_toNat_le.1 hmiddle.1) (UInt8.le_iff_toNat_le.1 hmiddle.2)]
    . next hmiddle =>
      split
      . next hhigh =>
        have hhigh : 0xf6 < first.toNat := UInt8.lt_iff_toNat_lt.1 hhigh
        rw [signedSize_high hhigh (by omega), sizeFrom_eq (n := first.toNat - 0xf6) (by omega) (by omega)]
        rfl
      . next hhigh =>
        have hhigh : first.toNat ≤ 0xf6 := Nat.not_lt.1 fun h => hhigh (UInt8.lt_iff_toNat_lt.2 h)
        have hlow : first.toNat < 0x09 := Nat.not_le.1 fun h =>
          hmiddle ⟨UInt8.le_iff_toNat_le.2 h, UInt8.le_iff_toNat_le.2 hhigh⟩
        rw [signedSize_low (by omega) hlow, sizeFrom_eq (n := 0x09 - first.toNat) (by omega) (by omega)]
        rfl

theorem unsignedSize_eq (first : UInt8) : unsignedSize first = some (VarInt.unsignedSize first) := by
  have hmax := first.toNat_lt
  unfold unsignedSize VarInt.unsignedSize
  split
  . rfl
  . next hgt =>
    have hgt : ¬ first.toNat ≤ 0xf7 := fun hle => hgt (UInt8.le_iff_toNat_le.2 hle)
    exact sizeFrom_eq (by omega) (by omega)

theorem toNat_byteLength (u : UInt64)
    : (UInt8.ofNat (VarInt.byteLength u)).toNat = VarInt.byteLength u := by
  have := byteLength_le u
  rw [UInt8.toNat_ofNat']
  omega

theorem head_payload {u raw : UInt64} {b : UInt8} (head : UInt8 → Int)
    (h : head (UInt8.ofNat (VarInt.byteLength u)) = b.toNat)
    : (do
        let n ← byteLength u
        let first ← byte? (head (← byte? n))
        return first :: (← payload n raw))
        =
      some (b :: Bytes.bigEndian (VarInt.byteLength u) raw.toNat) := by
  have hcast : byte? (VarInt.byteLength u) = some (UInt8.ofNat (VarInt.byteLength u)) := by
    apply byte?_eq
    rw [toNat_byteLength]
  rw [bind_of_some (byteLength_eq u), bind_of_some hcast, bind_of_some (byte?_eq h)]
  rw [bind_of_some (payload_eq (byteLength_le u) raw)]
  rfl

theorem writeSigned_eq_single {v : Int64} (h : -118 ≤ v ∧ v ≤ 119)
    : writeSigned v = some (VarInt.writeSigned v) := by
  have hmin : -118 ≤ v.toInt := Int64.le_iff_toInt_le.1 h.1
  have hmax : v.toInt ≤ 119 := Int64.le_iff_toInt_le.1 h.2
  obtain ⟨b, hb, hwrite⟩ := writeSigned_single hmin hmax
  have hadd := toInt_add_127 hmin hmax
  unfold writeSigned
  rw [if_pos h, bind_of_some (integer?_eq hadd.symm), bind_of_some (byte?_eq (hadd.trans hb.symm)), hwrite]
  rfl

theorem writeSigned_eq_above {v : Int64} (hsingle : ¬ (-118 ≤ v ∧ v ≤ 119)) (h : 119 < v)
    : writeSigned v = some (VarInt.writeSigned v) := by
  have habove : 119 < v.toInt := Int64.lt_iff_toInt_lt.1 h
  have hsub := toInt_sub_120 habove
  have hexcess := toNat_excessAbove habove
  unfold writeSigned
  rw [if_neg hsingle, if_pos h, bind_of_some (integer?_eq (v := 120) (by decide))]
  rw [bind_of_some (integer?_eq (v := v - 120) (by rw [hsub]; rfl))]
  rw [bind_of_some (word?_eq (hsub.trans hexcess.symm))]
  rw [head_payload fun n => 0xf6 + n.toNat, writeSigned_above habove]
  rw [toNat_head_above, toNat_byteLength]
  rfl

theorem writeSigned_eq_below {v : Int64} (hsingle : ¬ (-118 ≤ v ∧ v ≤ 119)) (h : ¬ 119 < v)
    : writeSigned v = some (VarInt.writeSigned v) := by
  have hbelow : v.toInt < -118 := by
    apply Int.not_le.1
    intro hmin
    exact hsingle ⟨Int64.le_iff_toInt_le.2 hmin, Int64.le_iff_toInt_le.2
      (Int.not_lt.1 fun hmax => h (Int64.lt_iff_toInt_lt.2 hmax))⟩
  have hadd := toInt_add_119 hbelow
  have hneg := toInt_neg_add_119 hbelow
  have hexcess := toNat_excessBelow hbelow
  have hpos := byteLength_pos (excessBelow v)
  have hle := byteLength_le (excessBelow v)
  unfold writeSigned
  rw [if_neg hsingle, if_neg h, bind_of_some (integer?_eq (v := -119) (by decide))]
  rw [bind_of_some (integer?_eq (v := v + 119) (by rw [hadd]; rfl))]
  rw [bind_of_some (integer?_eq (v := -(v + 119)) (by omega)),
    bind_of_some (word?_eq (u := excessBelow v) (by omega))]
  rw [head_payload (b := UInt8.ofNat (0x09 - VarInt.byteLength (excessBelow v))) fun n => 0x09 - n.toNat]
  . unfold VarInt.writeSigned
    rw [if_neg hsingle, if_neg h]
  . rw [toNat_head_below, toNat_byteLength]
    omega

theorem writeSigned_eq (v : Int64) : writeSigned v = some (VarInt.writeSigned v) := by
  by_cases hsingle : -118 ≤ v ∧ v ≤ 119
  . exact writeSigned_eq_single hsingle
  . by_cases h : 119 < v
    . exact writeSigned_eq_above hsingle h
    . exact writeSigned_eq_below hsingle h

theorem writeUnsigned_eq (v : UInt64) : writeUnsigned v = some (VarInt.writeUnsigned v) := by
  have hle := byteLength_le v
  unfold writeUnsigned VarInt.writeUnsigned
  split
  . next hsingle =>
    have hsingle : v.toNat ≤ 247 := UInt64.le_iff_toNat_le.1 hsingle
    rw [bind_of_some (byte?_eq (b := v.toUInt8) (by rw [UInt64.toNat_toUInt8]; omega))]
    rfl
  . apply head_payload fun n => 0xf7 + n.toNat
    rw [toNat_byteLength, UInt8.toNat_ofNat']
    omega

theorem follows_readPayload_bind {n : Nat} {f : UInt64 → OptionT Reader α} {g : Bytes → Reader α} (hle : n ≤ 8)
    (hnext : ∀ payload, payload.length = n →
      Follows (f (UInt64.ofNat (Bytes.ofBigEndian payload))) (g payload))
    : Follows (readPayload n >>= f) (Reader.bytes n >>= g) := by
  unfold readPayload
  rw [bind_assoc]
  apply (follows_lift _).bind
  rintro payload ⟨input, rest, hbytes⟩
  obtain ⟨-, hlength⟩ := Reader.bytes_eq_ok hbytes
  apply Follows.exactly_bind
  . apply foldlM_extend
    rw [show UInt64.toNat 0 = 0 from rfl, Nat.zero_mul, Nat.zero_add]
    apply Nat.lt_of_lt_of_le (Bytes.ofBigEndian_lt payload)
    exact Nat.pow_le_pow_right (show 256 > 0 by decide) (hlength ▸ hle)
  . rw [show UInt64.toNat 0 = 0 from rfl, Nat.zero_mul, Nat.zero_add]
    exact hnext payload hlength

theorem follows_ensureShortest (u : UInt64) (n : Nat)
    : Follows (ensureShortest u n) (VarInt.ensureShortest u n) := by
  apply Follows.exactly_bind (byteLength_eq u)
  unfold VarInt.ensureShortest
  apply Follows.ite
  . intro h
    exact follows_lift (pure ())
  . intro h
    exact follows_lift (throw _)

theorem toInt_of_le {u limit : UInt64} (h : ¬ limit < u) (hlimit : limit.toNat < 2 ^ 63)
    : (u.toNat : Int) = u.toInt64.toInt := by
  have hle : u.toNat ≤ limit.toNat := Nat.not_lt.1 fun hlt => h (UInt64.lt_iff_toNat_lt.2 hlt)
  exact (toInt_toInt64 (by omega)).symm

theorem follows_above (raw : UInt64)
    : Follows
        (do
          let least ← exactly (integer? (119 + 1))
          let room ← exactly (integer? (0x7fffffffffffffff - least.toInt))
          let limit ← exactly (word? room.toInt)
          if limit < raw then
            liftM (throw (.malformed "signed varint overflows i64") : Reader Unit)
          let excess ← exactly (integer? raw.toNat)
          let sum ← exactly (integer? (excess.toInt + 119))
          exactly (integer? (sum.toInt + 1)))
        (do
          if 0x7fffffffffffffff - 120 < raw then
            throw (.malformed "signed varint overflows i64")
          return raw.toInt64 + 120) := by
  apply Follows.exactly_bind (integer?_eq (v := 120) (by decide))
  apply Follows.exactly_bind (integer?_eq (v := 0x7fffffffffffffff - 120) (by decide))
  apply Follows.exactly_bind (word?_eq (u := 0x7fffffffffffffff - 120) (by decide))
  apply Follows.unless
  intro hlimit
  have hvalue := toInt_above hlimit
  have hexcess := toInt_of_le hlimit (by decide)
  have hsum : (raw.toInt64 + 119).toInt = raw.toInt64.toInt + 119 := by
    have := (raw.toInt64 + 120).toInt_lt
    apply toInt_add_of_bounds
    . simp
      omega
    . simp
      omega
  apply Follows.exactly_bind (integer?_eq hexcess)
  apply Follows.exactly_bind (integer?_eq hsum.symm)
  exact follows_exactly (integer?_eq (by omega))

theorem follows_below (u : UInt64)
    : Follows
        (do
          let greatest ← exactly (integer? (-118 - 1))
          let magnitude ← exactly (integer? (-greatest.toInt))
          let most ← exactly (word? 0x7fffffffffffffff)
          let room ← exactly (word? (most.toNat - (← exactly (word? magnitude.toInt)).toNat))
          let limit ← exactly (word? (room.toNat + 1))
          if limit < u then
            liftM (throw (.malformed "signed varint underflows i64") : Reader Unit)
          let excess ← exactly (integer? u.toNat)
          exactly (integer? (greatest.toInt - excess.toInt)))
        (do
          if 0x7fffffffffffffff - 119 + 1 < u then
            throw (.malformed "signed varint underflows i64")
          return -119 - u.toInt64) := by
  apply Follows.exactly_bind (integer?_eq (v := -119) (by decide))
  apply Follows.exactly_bind (integer?_eq (v := 119) (by decide))
  apply Follows.exactly_bind (word?_eq (u := 0x7fffffffffffffff) (by decide))
  apply Follows.exactly_bind (word?_eq (u := 119) (by decide))
  apply Follows.exactly_bind (word?_eq (u := 0x7fffffffffffffff - 119) (by decide))
  apply Follows.exactly_bind (word?_eq (u := 0x7fffffffffffffff - 119 + 1) (by decide))
  apply Follows.unless
  intro hlimit
  have hvalue := toInt_below hlimit
  have hexcess := toInt_of_le hlimit (by decide)
  apply Follows.exactly_bind (integer?_eq hexcess)
  apply follows_exactly (integer?_eq _)
  rw [hvalue, hexcess]
  rfl

theorem follows_readSigned : Follows readSigned VarInt.readSigned := by
  unfold readSigned VarInt.readSigned
  apply (follows_lift Reader.peek).bind
  rintro first -
  apply Follows.exactly_bind (signedSize_eq first)
  apply (follows_lift _).bind
  rintro length ⟨input, rest, hlift⟩
  obtain ⟨n, rfl, hcases⟩ := signedSize_eq_ok (liftExcept_eq_ok hlift).1
  have hfirst := first.toNat_lt
  apply (follows_lift _).bind
  rintro _ -
  apply Follows.exactly_bind (count?_eq (k := 1 + n - 1) (by omega) (by omega))
  apply Follows.ite
  . intro hsingle
    apply follows_exactly (integer?_eq _)
    rw [Int64.toInt_ofInt_of_le]
    . omega
    . omega
  . intro hlong
    apply follows_readPayload_bind (by omega)
    intro payload hpayload
    apply Follows.ite
    . intro hhigh
      apply (follows_ensureShortest _ _).bind
      rintro _ -
      exact follows_above _
    . intro hhigh
      apply Follows.exactly_bind (payloadMask_eq (by omega) (by omega))
      apply (follows_ensureShortest _ _).bind
      rintro _ -
      exact follows_below _

theorem follows_readUnsigned : Follows readUnsigned VarInt.readUnsigned := by
  unfold readUnsigned VarInt.readUnsigned
  apply (follows_lift Reader.peek).bind
  rintro first -
  apply Follows.exactly_bind (unsignedSize_eq first)
  apply (follows_lift _).bind
  rintro _ -
  obtain ⟨n, hsize, hcases⟩ := VarInt.unsignedSize_eq first
  rw [hsize]
  apply Follows.ite
  . intro h
    exact follows_lift (pure _)
  . intro h
    apply Follows.exactly_bind (count?_eq (k := n) (by omega) (by omega))
    rw [Nat.add_sub_cancel_left]
    apply follows_readPayload_bind (by omega)
    intro payload hpayload
    apply (follows_ensureShortest _ _).bind
    rintro _ -
    apply Follows.unless
    intro hlong
    exact follows_lift (pure _)

end Checked

end VarInt

end ReplicatedStore
