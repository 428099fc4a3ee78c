import ReplicatedStore.Encoding.FieldType
import ReplicatedStore.Proofs.Encoding.SignedVarInt
import ReplicatedStore.Proofs.Encoding.Terminated

/-!
Encodings of field values: their order is that of the values, and nothing but an encoding is read. Moments
are encoded in milliseconds, and those of a leap second run on into the second after it.
-/

namespace ReplicatedStore

namespace Timestamp

def Whole (t : Timestamp) : Prop :=
  t.nanos % 1000000 = 0 ∧ t.nanos < 1000000000

instance (t : Timestamp) : Decidable t.Whole := by
  unfold Whole
  infer_instance

theorem toInt_millis (t : Timestamp) : (Int64.ofInt t.millis).toInt = t.millis := by
  obtain ⟨hleast, hgreatest, hnanos⟩ := t.valid
  unfold leastSeconds at hleast
  unfold greatestSeconds at hgreatest
  have hmin : -2 ^ 63 ≤ t.millis := by
    unfold millis
    omega
  have hmax : t.millis < 2 ^ 63 := by
    unfold millis
    omega
  exact Int64.toInt_ofInt_of_le hmin hmax

theorem compare_millis {a b : Timestamp} (ha : a.Whole) (hb : b.Whole)
    : Ord.compare a.millis b.millis = compare a b := by
  obtain ⟨ha, ha'⟩ := ha
  obtain ⟨hb, hb'⟩ := hb
  unfold compare millis
  rcases Int.lt_trichotomy a.secs b.secs with hlt | heq | hgt
  . rw [compare_lt_iff_lt.2 hlt, compare_lt_iff_lt.2 (by omega)]
    rfl
  . rw [compare_eq_iff_eq.2 heq, heq, Ordering.then]
    rcases Nat.lt_trichotomy a.nanos b.nanos with hlt | heq | hgt
    . rw [Nat.compare_eq_lt.2 hlt, compare_lt_iff_lt.2 (by omega)]
    . rw [Nat.compare_eq_eq.2 heq, heq, compare_eq_iff_eq.2 rfl]
    . rw [Nat.compare_eq_gt.2 hgt, compare_gt_iff_gt.2 (by omega)]
  . rw [compare_gt_iff_gt.2 hgt, compare_gt_iff_gt.2 (by omega)]
    rfl

theorem ranks_write_millis (a b : Timestamp)
    : Bytes.Ranks (VarInt.writeSigned (Int64.ofInt a.millis)) (VarInt.writeSigned (Int64.ofInt b.millis))
        (Ord.compare a.millis b.millis) := by
  have := VarInt.ranks_writeSigned (Int64.ofInt a.millis) (Int64.ofInt b.millis)
  rwa [toInt_millis, toInt_millis] at this

theorem ranks_millis {a b : Timestamp} (ha : a.Whole) (hb : b.Whole)
    : Bytes.Ranks (VarInt.writeSigned (Int64.ofInt a.millis)) (VarInt.writeSigned (Int64.ofInt b.millis))
        (compare a b) := by
  rw [← compare_millis ha hb]
  exact ranks_write_millis a b

theorem compare_eq_lt {a b : Timestamp} (h : compare a b = .lt)
    : a.secs < b.secs ∨ a.secs = b.secs ∧ a.nanos < b.nanos := by
  unfold compare at h
  rw [Ordering.then_eq_lt] at h
  rcases h with hsecs | ⟨hsecs, hnanos⟩
  . exact .inl (compare_lt_iff_lt.1 hsecs)
  . exact .inr ⟨compare_eq_iff_eq.1 hsecs, Nat.compare_eq_lt.1 hnanos⟩

/-- One moment lies further behind the start of its leap second than the other behind that of the second which
follows. -/
def Overruns (a b : Timestamp) : Prop :=
  b.secs = a.secs + 1 ∧ b.nanos / 1000000 + 1000 < a.nanos / 1000000

instance (a b : Timestamp) : Decidable (a.Overruns b) := by
  unfold Overruns
  infer_instance

theorem millis_lt_iff {a b : Timestamp} (h : compare a b = .lt) : b.millis < a.millis ↔ a.Overruns b := by
  have hnanos := a.valid.2.2
  unfold millis Overruns
  rcases compare_eq_lt h with hsecs | ⟨hsecs, hlt⟩
  . omega
  . omega

theorem millis_of_ofMillis? {millis : Int} {t : Timestamp} (h : ofMillis? millis = some t)
    : t.millis = millis ∧ t.Whole := by
  unfold ofMillis? ofParts? at h
  split at h
  . cases h
    unfold Timestamp.millis Whole
    dsimp only
    omega
  . cases h

end Timestamp

namespace FixedWidth

variable {w : Nat}

theorem flipSign_flipSign (bits : BitVec w) : flipSign (flipSign bits) = bits := by
  unfold flipSign
  rw [BitVec.xor_assoc, BitVec.xor_self, BitVec.xor_zero]

theorem orderFloat_unorderFloat (bits : BitVec w) : orderFloat (unorderFloat bits) = bits := by
  cases w with
  | zero => exact Subsingleton.elim _ _
  | succ w =>
    unfold orderFloat unorderFloat
    cases h : bits.msb with
    | true =>
      have hclear : (bits &&& ~~~BitVec.intMin (w + 1)).msb = false := by
        rw [BitVec.msb_and, BitVec.msb_not]
        simp [BitVec.msb_intMin]
      rw [if_pos rfl, if_neg (by simp [hclear])]
      apply BitVec.eq_of_toNat_eq
      rw [toNat_or_intMin (Nat.succ_pos w) hclear, toNat_clear_intMin (Nat.succ_pos w) h]
    | false =>
      have hinverted : (~~~bits).msb = true := by
        rw [BitVec.msb_not]
        simp [h]
      rw [if_neg Bool.false_ne_true, if_pos hinverted, BitVec.not_not]

theorem write_ofNat (w : Width) {chunk : Bytes} (h : chunk.length = w.bytes)
    : write w (BitVec.ofNat w.bits (Bytes.ofBigEndian chunk)) = chunk := by
  have hlt := Bytes.ofBigEndian_lt chunk
  unfold write
  rw [BitVec.toNat_ofNat, w.pow_bits, ← h, Nat.mod_eq_of_lt hlt, Bytes.bigEndian_ofBigEndian]

theorem eq_write_of_read {w : Width} {input rest : Bytes} {bits : BitVec w.bits}
    (h : read w input = .ok bits rest)
    : input = write w bits ++ rest := by
  obtain ⟨chunk, _, hbytes, hpure⟩ := EStateM.of_bind h
  obtain ⟨rfl, hlength⟩ := Reader.bytes_eq_ok hbytes
  cases hpure
  rw [write_ofNat w hlength]

theorem length_write (w : Width) (bits : BitVec w.bits) : (write w bits).length = w.bytes := by
  unfold write
  simp

end FixedWidth

namespace Bytes

def Orders (delimited : Bool) (x y : Bytes) (order : Ordering) : Prop :=
  ∀ s t, (delimited = false → s = [] ∧ t = []) → compare (x ++ s) (y ++ t) = order.then (compare s t)

variable {delimited : Bool} {x y : Bytes} {order : Ordering}

theorem Ranks.orders (h : Ranks x y order) : Orders delimited x y order := by
  intro s t _
  exact h s t

theorem orders_last (x y : Bytes) : Orders false x y (compare x y) := by
  intro s t hlast
  obtain ⟨rfl, rfl⟩ := hlast rfl
  simp [compare]

theorem Orders.cons (a : UInt8) (h : Orders delimited x y order)
    : Orders delimited (a :: x) (a :: y) order := by
  intro s t hlast
  rw [List.cons_append, List.cons_append, compare_cons, Nat.compare_eq_eq.2 rfl, Ordering.then]
  exact h s t hlast

end Bytes

namespace BasicType

/-- The values that an encoding keeps in full. -/
def Exact : (type : BasicType) → type.Value → Prop
  | .date, (t : Timestamp) => t.Whole
  | _, _ => True

theorem orders_write (type : BasicType) {a b : type.Value} (ha : type.Exact a) (hb : type.Exact b)
    : Bytes.Orders type.selfDelimiting (type.write a) (type.write b) (type.compare a b) := by
  cases type with
  | boolean =>
    apply Bytes.Ranks.orders
    cases a <;> cases b <;> apply Bytes.ranks_byte
  | int w => exact (FixedWidth.ranks_flipSign w a b).orders
  | uint w => exact (FixedWidth.ranks_write w a b).orders
  | f32 => exact (FixedWidth.ranks_orderFloat .w32 a b).orders
  | f64 => exact (FixedWidth.ranks_orderFloat .w64 a b).orders
  | varlong => exact (VarInt.ranks_writeSigned a b).orders
  | date => exact (Timestamp.ranks_millis ha hb).orders
  | string => exact (Terminated.ranks_write _ _).orders
  | bytes => exact Bytes.orders_last a b

theorem compare_write_date (a b : Timestamp)
    : Bytes.compare (write .date a) (write .date b) = Ord.compare a.millis b.millis := by
  have h := Timestamp.ranks_write_millis a b [] []
  rw [List.append_nil, List.append_nil] at h
  exact h.trans Ordering.then_eq

/-- Of two moments, the earlier one has no greater encoding than the later one, unless it overruns it. -/
theorem moments_ascend_iff {a b : Timestamp} (h : compare .date a b = .lt)
    : Bytes.compare (write .date a) (write .date b) ≠ .gt ↔ ¬ a.Overruns b := by
  rw [compare_write_date, ← Timestamp.millis_lt_iff h, not_iff_not]
  exact compare_gt_iff_gt

theorem moments_ascend_leap
    : let leap : Timestamp := ⟨59, 1000999999, by decide⟩
      let next : Timestamp := ⟨60, 0, by decide⟩
      compare .date leap next = .lt ∧ Bytes.compare (write .date leap) (write .date next) ≠ .gt := by
  intro leap next
  have hlt : compare .date leap next = .lt := rfl
  exact ⟨hlt, (moments_ascend_iff hlt).2 (by decide)⟩

theorem leap_second_overruns
    : let leap : Timestamp := ⟨59, 1999999999, by decide⟩
      let next : Timestamp := ⟨60, 0, by decide⟩
      compare .date leap next = .lt ∧ Bytes.compare (write .date leap) (write .date next) = .gt := by
  intro leap next
  refine ⟨rfl, ?_⟩
  rw [compare_write_date, compare_gt_iff_gt]
  decide

theorem leadsBelow_write {type : BasicType} (h : type.startsWithFF = false) (v : type.Value)
    : Bytes.LeadsBelow NullMarker.null (type.write v) := by
  have hsigned : ∀ v, Bytes.LeadsBelow NullMarker.null (VarInt.writeSigned v) := by
    intro v
    obtain ⟨first, payload, hwrite, -, -, hlt⟩ := VarInt.exists_writeSigned v
    exact ⟨first, payload, hwrite, hlt⟩
  cases type with
  | boolean => cases v <;> exact ⟨_, _, rfl, by decide⟩
  | varlong => exact hsigned v
  | date => exact hsigned _
  | string =>
    apply Terminated.leadsBelow_write
    . decide
    . exact fun b hb => Utf8.toNat_lt_of_mem_ofText hb
  | _ => cases h

theorem eq_write_of_read {type : BasicType} {input rest : Bytes} {v : type.Value}
    (h : type.read input = .ok v rest)
    : input = type.write v ++ rest ∧ type.Exact v := by
  cases type with
  | boolean =>
    obtain ⟨b, left, hbyte, hvalue⟩ := EStateM.of_bind h
    replace hvalue : (if b = 0x00 then (pure false : Reader Bool)
        else if b = 0x01 then pure true else throw _) left
        =
      .ok v rest := hvalue
    rw [Reader.byte_eq_ok hbyte]
    by_cases hzero : b = 0x00
    . rw [if_pos hzero] at hvalue
      cases hvalue
      rw [hzero]
      exact ⟨rfl, trivial⟩
    . rw [if_neg hzero] at hvalue
      by_cases hone : b = 0x01
      . rw [if_pos hone] at hvalue
        cases hvalue
        rw [hone]
        exact ⟨rfl, trivial⟩
      . rw [if_neg hone] at hvalue
        cases hvalue
  | int w =>
    obtain ⟨bits, _, hread, hvalue⟩ := EStateM.of_bind h
    cases hvalue
    rw [show write (.int w) (FixedWidth.flipSign bits) = FixedWidth.write w bits from
      congrArg (FixedWidth.write w) (FixedWidth.flipSign_flipSign bits)]
    exact ⟨FixedWidth.eq_write_of_read hread, trivial⟩
  | uint w => exact ⟨FixedWidth.eq_write_of_read h, trivial⟩
  | f32 =>
    obtain ⟨bits, _, hread, hvalue⟩ := EStateM.of_bind h
    cases hvalue
    rw [show write .f32 (FixedWidth.unorderFloat bits) = FixedWidth.write .w32 bits from
      congrArg (FixedWidth.write .w32) (FixedWidth.orderFloat_unorderFloat bits)]
    exact ⟨FixedWidth.eq_write_of_read hread, trivial⟩
  | f64 =>
    obtain ⟨bits, _, hread, hvalue⟩ := EStateM.of_bind h
    cases hvalue
    rw [show write .f64 (FixedWidth.unorderFloat bits) = FixedWidth.write .w64 bits from
      congrArg (FixedWidth.write .w64) (FixedWidth.orderFloat_unorderFloat bits)]
    exact ⟨FixedWidth.eq_write_of_read hread, trivial⟩
  | varlong => exact ⟨VarInt.eq_writeSigned_of_read h, trivial⟩
  | date =>
    obtain ⟨millis, _, hread, hvalue⟩ := EStateM.of_bind h
    generalize ht : Timestamp.ofMillis? millis.toInt = found at hvalue
    cases found with
    | none => cases hvalue
    | some t =>
      cases hvalue
      obtain ⟨hmillis, hwhole⟩ := Timestamp.millis_of_ofMillis? ht
      have hback : Int64.ofInt (Timestamp.millis v) = millis := by rw [hmillis, Int64.ofInt_toInt]
      rw [show write .date v = VarInt.writeSigned millis from congrArg VarInt.writeSigned hback]
      exact ⟨VarInt.eq_writeSigned_of_read hread, hwhole⟩
  | string =>
    obtain ⟨raw, _, hread, hvalue⟩ := EStateM.of_bind h
    generalize htext : Utf8.decode raw = found at hvalue
    cases found with
    | error fault => cases hvalue
    | ok text =>
      cases hvalue
      rw [show write .string v = Terminated.write raw from
        congrArg Terminated.write (Utf8.ofText_of_decode htext)]
      exact ⟨Terminated.eq_write_of_read hread, trivial⟩
  | bytes =>
    cases h
    exact ⟨(List.append_nil _).symm, trivial⟩

end BasicType

namespace NullMarker

def mark (escaped : Bool) (encoding : Bytes) : Bytes :=
  if escaped then present :: encoding else encoding

variable {escaped : Bool} {encoding input rest : Bytes}

theorem read_null (escaped : Bool) (rest : Bytes) : read escaped (null :: rest) = .ok true rest := by
  rfl

theorem leadsBelow_of_ne {first : UInt8} (h : first ≠ null) (tail : Bytes)
    : Bytes.LeadsBelow null (first :: tail) := by
  refine ⟨first, tail, rfl, ?_⟩
  have hmax := first.toNat_lt
  have hne : first.toNat ≠ 0xff := fun heq => h (UInt8.toNat_inj.1 heq)
  rw [show null.toNat = 0xff from rfl]
  omega

theorem eq_of_mark {x y : Bytes} (h : mark escaped x = mark escaped y) : x = y := by
  cases escaped with
  | true => exact (List.cons.inj h).2
  | false => exact h

theorem mark_append (escaped : Bool) (encoding rest : Bytes)
    : mark escaped encoding ++ rest = mark escaped (encoding ++ rest) := by
  cases escaped <;> rfl

theorem leadsBelow_mark (h : escaped = false → Bytes.LeadsBelow null encoding)
    : Bytes.LeadsBelow null (mark escaped encoding) := by
  cases escaped with
  | true => exact leadsBelow_of_ne (by decide) encoding
  | false => exact h rfl

theorem read_mark (h : escaped = false → Bytes.LeadsBelow null encoding)
    : read escaped (mark escaped encoding) = .ok false encoding := by
  cases escaped with
  | true => rfl
  | false =>
    obtain ⟨first, tail, rfl, hlt⟩ := h rfl
    have hne : first ≠ null := by
      rintro rfl
      exact Nat.lt_irrefl _ hlt
    show read false (first :: tail) = .ok false (first :: tail)
    unfold read
    rw [EStateM.bind_of_ok (VarInt.peek_cons first tail), if_neg hne]
    rfl

theorem read_eq_ok {isNull : Bool} (h : read escaped input = .ok isNull rest)
    : (isNull = true ∧ input = null :: rest) ∨
      (isNull = false ∧ Bytes.LeadsBelow null input ∧ input = mark escaped rest) := by
  unfold read at h
  obtain ⟨first, _, hpeek, hfirst⟩ := EStateM.of_bind h
  obtain ⟨rfl, tail, rfl⟩ := Reader.peek_eq_ok hpeek
  split at hfirst
  . next hnull =>
    cases hfirst
    exact .inl ⟨rfl, by rw [hnull]⟩
  . next hne =>
    refine .inr ?_
    cases escaped with
    | true =>
      obtain ⟨marker, _, hbyte, hmarker⟩ := EStateM.of_bind hfirst
      cases hbyte
      split at hmarker
      . cases hmarker
      . next hpresent =>
        cases hmarker
        rw [Decidable.not_not.1 hpresent]
        exact ⟨rfl, leadsBelow_of_ne (by decide) _, rfl⟩
    | false =>
      cases hfirst
      exact ⟨rfl, leadsBelow_of_ne hne tail, rfl⟩

end NullMarker

theorem Bytes.Orders.mark {delimited : Bool} {x y : Bytes} {order : Ordering} (escaped : Bool)
    (h : Orders delimited x y order)
    : Orders delimited (NullMarker.mark escaped x) (NullMarker.mark escaped y) order := by
  cases escaped with
  | true => exact h.cons NullMarker.present
  | false => exact h

namespace FieldType

/-- The values that an encoding keeps in full: any but moments within a millisecond or a leap second. -/
def Exact : (type : FieldType) → type.Value → Prop
  | .basic type, v => type.Exact v
  | .nullable _, none => True
  | .nullable inner, some v => inner.Exact v

theorem write_some (inner : FieldType) (v : inner.Value)
    : write (.nullable inner) (some v) = NullMarker.mark inner.startsWithFF (inner.write v) := by
  rfl

theorem leadsBelow_write {type : FieldType} (h : type.startsWithFF = false) (v : type.Value)
    : Bytes.LeadsBelow NullMarker.null (type.write v) := by
  cases type with
  | basic type => exact BasicType.leadsBelow_write h v
  | nullable inner => cases h

theorem leadsBelow_write_some (inner : FieldType) (v : inner.Value)
    : Bytes.LeadsBelow NullMarker.null (write (.nullable inner) (some v)) := by
  rw [write_some]
  exact NullMarker.leadsBelow_mark fun h => leadsBelow_write h v

theorem orders_write (type : FieldType) {a b : type.Value} (ha : type.Exact a) (hb : type.Exact b)
    : Bytes.Orders type.selfDelimiting (type.write a) (type.write b) (type.compare a b) := by
  induction type with
  | basic type => exact type.orders_write ha hb
  | nullable inner ih =>
    cases a with
    | none =>
      cases b with
      | none => exact (Bytes.ranks_self _).orders
      | some b => exact ((leadsBelow_write_some inner b).ranks []).swap.orders
    | some a =>
      cases b with
      | none => exact ((leadsBelow_write_some inner a).ranks []).orders
      | some b =>
        rw [write_some, write_some]
        exact (ih ha hb).mark _

theorem eq_write_of_read {type : FieldType} {input rest : Bytes} {v : type.Value}
    (h : type.read input = .ok v rest)
    : input = type.write v ++ rest ∧ type.Exact v := by
  induction type generalizing input with
  | basic type => exact BasicType.eq_write_of_read h
  | nullable inner ih =>
    obtain ⟨isNull, left, hmarker, hvalue⟩ := EStateM.of_bind h
    rcases NullMarker.read_eq_ok hmarker with ⟨rfl, hinput⟩ | ⟨rfl, -, hinput⟩
    . cases hvalue
      exact ⟨hinput, trivial⟩
    . obtain ⟨u, _, hread, hpure⟩ := EStateM.of_bind hvalue
      cases hpure
      obtain ⟨hleft, hexact⟩ := ih hread
      refine ⟨?_, hexact⟩
      rw [hinput, hleft, write_some, NullMarker.mark_append]

end FieldType

end ReplicatedStore
