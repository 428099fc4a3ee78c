import ReplicatedStore.Encoding.TypeRegistry
import ReplicatedStore.Proofs.Encoding.CompositeKeys

/-!
Encodings and values determine each other: what was written is read back, and each byte string that is read
is the encoding of what it is read as. The two flags of a type are the first bytes of its encodings.
-/

namespace ReplicatedStore

theorem Timestamp.ofMillis?_millis {t : Timestamp} (h : t.Whole) : ofMillis? t.millis = some t := by
  obtain ⟨secs, nanos, hvalid⟩ := t
  obtain ⟨hwhole, hlt⟩ := h
  dsimp only at hwhole hlt
  have hsecs : (secs * 1000 + (nanos / 1000000 : Nat)) / 1000 = secs := by omega
  have hnanos : ((secs * 1000 + (nanos / 1000000 : Nat)) % 1000 * 1000000).toNat = nanos := by omega
  unfold ofMillis? millis ofParts?
  dsimp only
  have hleap : LeapEndsMinute secs nanos := fun h => absurd hlt (Nat.not_lt.2 h)
  rw [hsecs, hnanos, dif_pos ⟨hvalid, hleap⟩]

namespace FixedWidth

theorem unorderFloat_orderFloat {w : Nat} (bits : BitVec w) : unorderFloat (orderFloat bits) = bits := by
  cases w with
  | zero => exact Subsingleton.elim _ _
  | succ w =>
    have hw := Nat.succ_pos w
    unfold orderFloat unorderFloat
    cases h : bits.msb with
    | true =>
      have hinverted : (~~~bits).msb = false := by
        rw [BitVec.msb_not]
        simp [h]
      rw [if_pos rfl, if_neg (by simp [hinverted]), BitVec.not_not]
    | false =>
      have hset : (bits ||| BitVec.intMin (w + 1)).msb = true := by
        rw [BitVec.msb_or]
        simp [BitVec.msb_intMin]
      have hclear := toNat_clear_intMin hw hset
      rw [toNat_or_intMin hw h] at hclear
      rw [if_neg Bool.false_ne_true, if_pos hset]
      exact BitVec.eq_of_toNat_eq (Nat.add_right_cancel hclear)

theorem read_write (w : Width) (bits : BitVec w.bits) (rest : Bytes)
    : read w (write w bits ++ rest) = .ok bits rest := by
  have hbytes : Reader.bytes w.bytes (write w bits ++ rest) = .ok (write w bits) rest := by
    have := VarInt.bytes_append (write w bits) rest
    rwa [length_write] at this
  have hback : BitVec.ofNat w.bits (Bytes.ofBigEndian (write w bits)) = bits := by
    unfold write
    rw [Bytes.ofBigEndian_bigEndian, ← w.pow_bits, Nat.mod_eq_of_lt bits.isLt, BitVec.ofNat_toNat,
      BitVec.setWidth_eq]
  unfold read
  rw [EStateM.bind_of_ok hbytes, hback]
  rfl

theorem head?_write (w : Width)
    : (write w 0#_).head? = some 0x00 ∧ (write w (BitVec.allOnes _)).head? = some 0xff := by
  cases w <;> exact ⟨rfl, rfl⟩

end FixedWidth

namespace BasicType

theorem read_write (type : BasicType) {v : type.Value} (h : type.Exact v) {rest : Bytes}
    (hlast : type.selfDelimiting = false → rest = [])
    : type.read (type.write v ++ rest) = .ok v rest := by
  cases type with
  | boolean => cases v <;> rfl
  | int w =>
    refine (EStateM.bind_of_ok (FixedWidth.read_write w (FixedWidth.flipSign v) rest)).trans ?_
    exact congrArg (EStateM.Result.ok · rest) (FixedWidth.flipSign_flipSign v)
  | uint w => exact FixedWidth.read_write w v rest
  | f32 =>
    refine (EStateM.bind_of_ok (FixedWidth.read_write .w32 (FixedWidth.orderFloat v) rest)).trans ?_
    exact congrArg (EStateM.Result.ok · rest) (FixedWidth.unorderFloat_orderFloat v)
  | f64 =>
    refine (EStateM.bind_of_ok (FixedWidth.read_write .w64 (FixedWidth.orderFloat v) rest)).trans ?_
    exact congrArg (EStateM.Result.ok · rest) (FixedWidth.unorderFloat_orderFloat v)
  | varlong => exact VarInt.readSigned_write v rest
  | date =>
    refine (EStateM.bind_of_ok (VarInt.readSigned_write _ rest)).trans ?_
    rw [Timestamp.toInt_millis v, Timestamp.ofMillis?_millis h]
    rfl
  | string =>
    refine (EStateM.bind_of_ok (Terminated.read_write _ rest)).trans ?_
    rw [Utf8.decode_ofText v]
    rfl
  | bytes =>
    rw [hlast rfl, List.append_nil]
    rfl

theorem startsWith00_of_head? {type : BasicType} {v : type.Value} (h : (type.write v).head? = some 0x00)
    : type.startsWith00 = true := by
  have hsigned : ∀ v, (VarInt.writeSigned v).head? ≠ some 0x00 := by
    intro v hhead
    obtain ⟨first, payload, hwrite, -, hpos, -⟩ := VarInt.exists_writeSigned v
    rw [hwrite, List.head?_cons, Option.some.injEq] at hhead
    rw [hhead] at hpos
    exact Nat.lt_irrefl _ hpos
  cases type with
  | varlong => exact absurd h (hsigned v)
  | date => exact absurd h (hsigned _)
  | _ => rfl

theorem write_empty : write .string "" = [0x00] := by
  show Terminated.write (Bytes.ofText "") = _
  rw [Bytes.ofText_eq]
  rfl

theorem exists_head?_00 {type : BasicType} (h : type.startsWith00 = true)
    : ∃ v : type.Value, type.Exact v ∧ (type.write v).head? = some 0x00 := by
  cases type with
  | boolean => exact ⟨false, trivial, rfl⟩
  | int w =>
    refine ⟨FixedWidth.flipSign 0#w.bits, trivial, ?_⟩
    show (FixedWidth.write w (FixedWidth.flipSign (FixedWidth.flipSign 0#w.bits))).head? = some 0x00
    rw [FixedWidth.flipSign_flipSign]
    exact (FixedWidth.head?_write w).1
  | uint w => exact ⟨0#w.bits, trivial, (FixedWidth.head?_write w).1⟩
  | f32 => exact ⟨FixedWidth.unorderFloat 0#32, trivial, by decide⟩
  | f64 => exact ⟨FixedWidth.unorderFloat 0#64, trivial, by decide⟩
  | varlong => cases h
  | date => cases h
  | string => exact ⟨"", trivial, by rw [write_empty]; rfl⟩
  | bytes => exact ⟨[0x00], trivial, rfl⟩

theorem exists_head?_ff {type : BasicType} (h : type.startsWithFF = true)
    : ∃ v : type.Value, type.Exact v ∧ (type.write v).head? = some NullMarker.null := by
  cases type with
  | int w =>
    refine ⟨FixedWidth.flipSign (BitVec.allOnes w.bits), trivial, ?_⟩
    show (FixedWidth.write w (FixedWidth.flipSign (FixedWidth.flipSign (BitVec.allOnes w.bits)))).head?
      = some 0xff
    rw [FixedWidth.flipSign_flipSign]
    exact (FixedWidth.head?_write w).2
  | uint w => exact ⟨BitVec.allOnes w.bits, trivial, (FixedWidth.head?_write w).2⟩
  | f32 => exact ⟨FixedWidth.unorderFloat (BitVec.allOnes 32), trivial, by decide⟩
  | f64 => exact ⟨FixedWidth.unorderFloat (BitVec.allOnes 64), trivial, by decide⟩
  | bytes => exact ⟨[0xff], trivial, rfl⟩
  | _ => cases h

end BasicType

theorem Bytes.LeadsBelow.head?_ne {bound : UInt8} {x : Bytes} (h : LeadsBelow bound x) : x.head? ≠ some bound := by
  obtain ⟨first, rest, rfl, hlt⟩ := h
  intro hhead
  rw [List.head?_cons, Option.some.injEq] at hhead
  rw [hhead] at hlt
  exact Nat.lt_irrefl _ hlt

namespace FieldType

theorem read_write (type : FieldType) {v : type.Value} (h : type.Exact v) {rest : Bytes}
    (hlast : type.selfDelimiting = false → rest = [])
    : type.read (type.write v ++ rest) = .ok v rest := by
  induction type with
  | basic type => exact type.read_write h hlast
  | nullable inner ih =>
    unfold read
    cases v with
    | none =>
      rw [show write (.nullable inner) none ++ rest = NullMarker.null :: rest from rfl]
      rw [EStateM.bind_of_ok (NullMarker.read_null _ rest)]
      rfl
    | some v =>
      rw [write_some, NullMarker.mark_append]
      rw [EStateM.bind_of_ok (NullMarker.read_mark fun h => (leadsBelow_write h v).append rest)]
      exact EStateM.bind_of_ok (ih h hlast)

theorem decode_write (type : FieldType) {v : type.Value} (h : type.Exact v)
    : type.decode (type.write v) = .ok v := by
  apply Reader.decode_of_ok
  have hread : type.read (type.write v ++ []) = .ok v [] := type.read_write h fun _ => rfl
  rwa [List.append_nil] at hread

theorem write_of_decode {type : FieldType} {input : Bytes} {v : type.Value} (h : type.decode input = .ok v)
    : type.write v = input ∧ type.Exact v := by
  obtain ⟨hinput, hexact⟩ := eq_write_of_read (Reader.decode_eq_ok h)
  rw [List.append_nil] at hinput
  exact ⟨hinput.symm, hexact⟩

theorem startsWith00_of_head? {type : FieldType} {v : type.Value} (h : (type.write v).head? = some 0x00)
    : type.startsWith00 = true := by
  induction type with
  | basic type => exact BasicType.startsWith00_of_head? h
  | nullable inner ih =>
    cases v with
    | none => exact absurd h (show some NullMarker.null ≠ some 0x00 by decide)
    | some v =>
      rw [write_some] at h
      unfold startsWith00
      cases hescaped : inner.startsWithFF with
      | true =>
        rw [hescaped] at h
        exact absurd h (show some NullMarker.present ≠ some 0x00 by decide)
      | false =>
        rw [hescaped] at h
        exact ih h

theorem exists_head?_00 {type : FieldType} (h : type.startsWith00 = true)
    : ∃ v : type.Value, type.Exact v ∧ (type.write v).head? = some 0x00 := by
  induction type with
  | basic type => exact BasicType.exists_head?_00 h
  | nullable inner ih =>
    unfold startsWith00 at h
    rw [Bool.and_eq_true, Bool.not_eq_true'] at h
    obtain ⟨v, hexact, hhead⟩ := ih h.2
    refine ⟨some v, hexact, ?_⟩
    rw [write_some, h.1]
    exact hhead

theorem startsWithFF_of_head? {type : FieldType} {v : type.Value}
    (h : (type.write v).head? = some NullMarker.null)
    : type.startsWithFF = true := by
  rw [← Bool.not_eq_false]
  intro hflag
  exact (leadsBelow_write hflag v).head?_ne h

theorem exists_head?_ff {type : FieldType} (h : type.startsWithFF = true)
    : ∃ v : type.Value, type.Exact v ∧ (type.write v).head? = some NullMarker.null := by
  cases type with
  | basic type => exact BasicType.exists_head?_ff h
  | nullable inner => exact ⟨none, trivial, rfl⟩

end FieldType

namespace RegisteredType

theorem startsWith00_eq (type : RegisteredType) : type.startsWith00 = type.field.startsWith00 := by
  induction type with
  | typed type => rfl
  | nullable inner ih =>
    unfold startsWith00
    rw [ih, startsWithFF_eq]
    rfl

/-- Encoding is a bijection between the values that it keeps in full and the byte strings that decode. The
flags of a type, known to a registry or not, tell exactly whether one of its encodings begins with `00`, or
with `ff`. -/
theorem encoding_bijective (type : RegisteredType)
    : (∀ v, type.field.Exact v → type.field.decode (type.field.write v) = .ok v) ∧
      (∀ input v, type.field.decode input = .ok v → type.field.write v = input ∧ type.field.Exact v) ∧
      (type.field.startsWith00 = true ↔ ∃ v, type.field.Exact v ∧ (type.field.write v).head? = some 0x00) ∧
      (type.field.startsWithFF = true ↔ ∃ v, type.field.Exact v ∧ (type.field.write v).head? = some 0xff) ∧
      type.startsWith00 = type.field.startsWith00 ∧ type.startsWithFF = type.field.startsWithFF := by
  refine ⟨?_, ?_, ?_, ?_, type.startsWith00_eq, type.startsWithFF_eq⟩
  . intro v hexact
    exact type.field.decode_write hexact
  . intro input v hdecode
    exact FieldType.write_of_decode hdecode
  . constructor
    . exact FieldType.exists_head?_00
    . rintro ⟨v, -, hhead⟩
      exact FieldType.startsWith00_of_head? hhead
  . constructor
    . exact FieldType.exists_head?_ff
    . rintro ⟨v, -, hhead⟩
      exact FieldType.startsWithFF_of_head? hhead

theorem encoding_bijective_nested
    : let type : RegisteredType := .nullable (.typed (.nullable (.basic .string)))
      let empty : type.field.Value := some (some "")
      type.field.Exact empty ∧ type.field.decode [0x01, 0x00] = .ok empty ∧
        type.field.write empty = [0x01, 0x00] ∧
        type.startsWith00 = false ∧ ∃ v, type.field.Exact v ∧ (type.field.write v).head? = some 0xff := by
  intro type empty
  obtain ⟨hdecode, hwrite, -, hff, hflag, -⟩ := encoding_bijective type
  have hexact : type.field.Exact empty := trivial
  have hbytes : type.field.write empty = [0x01, 0x00] := congrArg (List.cons 0x01) BasicType.write_empty
  have hback : type.field.decode [0x01, 0x00] = .ok empty := hbytes ▸ hdecode empty hexact
  exact ⟨hexact, hback, (hwrite _ _ hback).1, hflag, hff.1 rfl⟩

theorem leap_second_read_back
    : let type : RegisteredType := .typed (.basic .date)
      let leap : Timestamp := ⟨59, 1500000000, by decide⟩
      let next : Timestamp := ⟨60, 500000000, by decide⟩
      leap.nanos % 1000000 = 0 ∧ type.field.decode (type.field.write leap) = .ok next ∧ next ≠ leap := by
  intro type leap next
  have hnext : type.field.Exact next := show next.Whole by decide
  have hsame : type.field.write leap = type.field.write next := by
    have hmillis : leap.millis = next.millis := by decide
    exact congrArg (fun millis => VarInt.writeSigned (Int64.ofInt millis)) hmillis
  refine ⟨by decide, ?_, by decide⟩
  rw [hsame]
  exact type.field.decode_write hnext

end RegisteredType

end ReplicatedStore
