import ReplicatedStore.Proofs.Encoding.RoundTrip

/-!
Bytes that encode nothing, and how far they get. Where null markers are stripped, null is compared with anything
that is marked as present; else the two ways to compare encodings agree. Into keys goes whatever has the outer
shape of an encoding; keys of parts that decode can be compared.
-/

namespace ReplicatedStore

namespace RegisteredType

variable {type inner : RegisteredType} {x y : Bytes} {order : Ordering}

def Decodes (type : RegisteredType) (x : Bytes) : Prop :=
  ∃ v, type.field.decode x = .ok v

/-- Null is compared with bytes that are marked as present but do not decode, at the outermost marker or, where
both are present, at one further in. -/
def Overlooks : RegisteredType → Bytes → Bytes → Prop
  | .typed _, _, _ => False
  | .nullable inner, x, y =>
    match (strip inner).value x, (strip inner).value y with
    | .ok none, .ok (some rest) => ¬ inner.Decodes rest
    | .ok (some rest), .ok none => ¬ inner.Decodes rest
    | .ok (some x), .ok (some y) => inner.Overlooks x y
    | _, _ => False

theorem decode_nullable (inner : RegisteredType) (x : Bytes)
    : FieldType.decode (.nullable inner.field) x
        =
      (strip inner).value x >>= fun
        | none => pure none
        | some rest => some <$> inner.field.decode rest := by
  rw [show FieldType.decode (.nullable inner.field) x = (FieldType.read (.nullable inner.field)).decode x from rfl]
  rw [FieldType.read, ← inner.startsWithFF_eq]
  cases hmarker : NullMarker.read inner.startsWithFF x with
  | error e left =>
    rw [Reader.decode_of_error (EStateM.bind_of_error hmarker)]
    rw [show (strip inner).value x = .error e from Reader.value_of_error (EStateM.bind_of_error hmarker)]
    rfl
  | ok isNull left =>
    rw [Reader.decode_bind_of_ok hmarker]
    unfold strip Reader.value
    rw [EStateM.bind_of_ok hmarker]
    cases isNull with
    | true => cases left <;> rfl
    | false => exact Reader.decode_bind_pure some left

theorem decode_none_iff
    : FieldType.decode (.nullable inner.field) x = .ok none ↔ (strip inner).value x = .ok none := by
  rw [decode_nullable]
  constructor
  . intro h
    obtain ⟨value, hstrip, hdecode⟩ := Except.of_bind h
    cases value with
    | none => exact hstrip
    | some rest =>
      obtain ⟨v, -, hsome⟩ := Except.of_map hdecode
      cases hsome
  . intro hstrip
    rw [hstrip]
    rfl

theorem decode_some_iff {v : inner.field.Value}
    : FieldType.decode (.nullable inner.field) x = .ok (some v)
        ↔
      ∃ rest, (strip inner).value x = .ok (some rest) ∧ inner.field.decode rest = .ok v := by
  rw [decode_nullable]
  constructor
  . intro h
    obtain ⟨value, hstrip, hdecode⟩ := Except.of_bind h
    cases value with
    | none => cases hdecode
    | some rest =>
      obtain ⟨v', hrest, hsome⟩ := Except.of_map hdecode
      cases hsome
      exact ⟨rest, hstrip, hrest⟩
  . rintro ⟨rest, hstrip, hrest⟩
    rw [hstrip]
    show some <$> inner.field.decode rest = _
    rw [hrest]
    rfl

theorem compareAsValues_of_field (h : type.field.compareAsValues x y = .ok order)
    : type.compareAsValues x y = .ok order ∧ ¬ type.Overlooks x y := by
  induction type generalizing x y with
  | typed type => exact ⟨h, id⟩
  | nullable inner ih =>
    obtain ⟨v, hv, hrest⟩ := Except.of_bind h
    obtain ⟨w, hw, hpure⟩ := Except.of_bind hrest
    unfold compareAsValues Overlooks
    cases v with
    | none =>
      rw [decode_none_iff.1 hv]
      cases w with
      | none =>
        rw [decode_none_iff.1 hw]
        exact ⟨hpure, id⟩
      | some w =>
        obtain ⟨y', hy, hdecode⟩ := decode_some_iff.1 hw
        rw [hy]
        exact ⟨hpure, fun hbad => hbad ⟨w, hdecode⟩⟩
    | some v =>
      obtain ⟨x', hx, hdecode⟩ := decode_some_iff.1 hv
      rw [hx]
      cases w with
      | none =>
        rw [decode_none_iff.1 hw]
        exact ⟨hpure, fun hbad => hbad ⟨v, hdecode⟩⟩
      | some w =>
        obtain ⟨y', hy, hdecode'⟩ := decode_some_iff.1 hw
        rw [hy]
        apply ih
        unfold FieldType.compareAsValues
        rw [hdecode, hdecode']
        exact hpure

theorem decodes_of_compareAsValues (h : type.compareAsValues x y = .ok order) (hseen : ¬ type.Overlooks x y)
    : type.Decodes x ∧ type.Decodes y := by
  induction type generalizing x y with
  | typed type =>
    obtain ⟨v, hv, hrest⟩ := Except.of_bind h
    obtain ⟨w, hw, -⟩ := Except.of_bind hrest
    exact ⟨⟨v, hv⟩, ⟨w, hw⟩⟩
  | nullable inner ih =>
    obtain ⟨a, hx, hrest⟩ := Except.of_bind h
    obtain ⟨b, hy, hcompare⟩ := Except.of_bind hrest
    unfold Overlooks at hseen
    rw [hx, hy] at hseen
    cases a with
    | none =>
      cases b with
      | none => exact ⟨⟨none, decode_none_iff.2 hx⟩, ⟨none, decode_none_iff.2 hy⟩⟩
      | some y' =>
        -- The order was told without a look at `y'`, so that it decodes comes from `hseen` alone.
        obtain ⟨w, hw⟩ := Classical.not_not.1 hseen
        exact ⟨⟨none, decode_none_iff.2 hx⟩, ⟨some w, decode_some_iff.2 ⟨y', hy, hw⟩⟩⟩
    | some x' =>
      cases b with
      | none =>
        obtain ⟨v, hv⟩ := Classical.not_not.1 hseen
        exact ⟨⟨some v, decode_some_iff.2 ⟨x', hx, hv⟩⟩, ⟨none, decode_none_iff.2 hy⟩⟩
      | some y' =>
        obtain ⟨⟨v, hv⟩, ⟨w, hw⟩⟩ := ih hcompare hseen
        exact ⟨⟨some v, decode_some_iff.2 ⟨x', hx, hv⟩⟩, ⟨some w, decode_some_iff.2 ⟨y', hy, hw⟩⟩⟩

theorem exists_compareAsValues_field (hx : type.Decodes x) (hy : type.Decodes y)
    : ∃ order, type.field.compareAsValues x y = .ok order := by
  obtain ⟨v, hv⟩ := hx
  obtain ⟨w, hw⟩ := hy
  unfold FieldType.compareAsValues
  rw [hv, hw]
  exact ⟨_, rfl⟩

theorem exists_compareAsValues_of_overlooks (h : type.Overlooks x y)
    : ∃ order, type.compareAsValues x y = .ok order := by
  induction type generalizing x y with
  | typed type => cases h
  | nullable inner ih =>
    unfold Overlooks at h
    unfold compareAsValues
    split at h
    . next hx hy =>
      rw [hx, hy]
      exact ⟨_, rfl⟩
    . next hx hy =>
      rw [hx, hy]
      exact ⟨_, rfl⟩
    . next hx hy =>
      rw [hx, hy]
      exact ih h
    . cases h

/-- Stripping null markers and decoding both sides come to the same comparison of two encodings, or neither does
to any, exactly if null is not compared with bytes that do not decode. -/
theorem comparisons_agree_iff (type : RegisteredType) (x y : Bytes)
    : (type.Decodes x ∧ type.Decodes y ∧
          ∃ order, type.field.compareAsValues x y = .ok order ∧ type.compareAsValues x y = .ok order) ∨
        ((∃ e, type.field.compareAsValues x y = .error e) ∧ ∃ e, type.compareAsValues x y = .error e)
        ↔
      ¬ type.Overlooks x y := by
  constructor
  . rintro (⟨-, -, order, hfield, -⟩ | ⟨-, e, herror⟩) hoverlooks
    . exact (compareAsValues_of_field hfield).2 hoverlooks
    . obtain ⟨order, hcompare⟩ := exists_compareAsValues_of_overlooks hoverlooks
      rw [herror] at hcompare
      cases hcompare
  . intro hseen
    cases hfield : type.field.compareAsValues x y with
    | ok order =>
      have hcompare := (compareAsValues_of_field hfield).1
      obtain ⟨hx, hy⟩ := decodes_of_compareAsValues hcompare hseen
      exact .inl ⟨hx, hy, order, rfl, hcompare⟩
    | error e =>
      cases hcompare : type.compareAsValues x y with
      | ok order =>
        obtain ⟨hx, hy⟩ := decodes_of_compareAsValues hcompare hseen
        obtain ⟨order', hfield'⟩ := exists_compareAsValues_field hx hy
        rw [hfield] at hfield'
        cases hfield'
      | error e' => exact .inr ⟨⟨e, rfl⟩, e', rfl⟩

theorem comparisons_agree_within
    : let type : RegisteredType := .nullable (.nullable (.typed (.basic .boolean)))
      ((∃ order, type.field.compareAsValues [0xff] [0x01, 0xff] = .ok order ∧
          type.compareAsValues [0xff] [0x01, 0xff] = .ok order) ∧
        ((∃ e, type.field.compareAsValues [0x01, 0x00] [0x01, 0x02] = .error e) ∧
          ∃ e, type.compareAsValues [0x01, 0x00] [0x01, 0x02] = .error e)) := by
  intro type
  have hnull : ¬ type.Overlooks [0xff] [0x01, 0xff] := fun h => h ⟨none, rfl⟩
  have hboolean : ¬ type.Overlooks [0x01, 0x00] [0x01, 0x02] := id
  constructor
  . rcases (comparisons_agree_iff type _ _).2 hnull with ⟨-, -, hsame⟩ | ⟨⟨e, herror⟩, -⟩
    . exact hsame
    . cases herror
  . rcases (comparisons_agree_iff type _ _).2 hboolean with ⟨-, ⟨v, hv⟩, -⟩ | hboth
    . cases hv
    . exact hboth

theorem null_outranks_malformed
    : let type : RegisteredType := .nullable (.typed (.basic .boolean))
      type.compareAsValues [0xff] [0x02] = .ok .gt ∧
        (∃ e, type.field.compareAsValues [0xff] [0x02] = .error e) ∧ ¬ type.Decodes [0x02] := by
  intro type
  refine ⟨rfl, ⟨_, rfl⟩, ?_⟩
  rintro ⟨v, hv⟩
  cases hv

end RegisteredType

variable {part : Bytes}

namespace FixedWidth

theorem exists_write_flipSign (w : Width) (h : part.length = w.bytes)
    : ∃ bits : BitVec w.bits, write w (flipSign bits) = part := by
  refine ⟨flipSign (BitVec.ofNat w.bits (Bytes.ofBigEndian part)), ?_⟩
  rw [flipSign_flipSign, write_ofNat w h]

theorem exists_write_orderFloat (w : Width) (h : part.length = w.bytes)
    : ∃ bits : BitVec w.bits, write w (orderFloat bits) = part := by
  refine ⟨unorderFloat (BitVec.ofNat w.bits (Bytes.ofBigEndian part)), ?_⟩
  rw [orderFloat_unorderFloat, write_ofNat w h]

end FixedWidth

namespace BasicType

/-- The byte strings of an encoding's outer shape that encode nothing: a byte that is no boolean, bytes as long as
the first of them says that are the form of no integer or no moment, a text that is not UTF-8. -/
def Slips : BasicType → Bytes → Prop
  | .boolean, part => ∃ b, part = [b] ∧ 0x01 < b
  | .varlong, part => VarInt.Sized part ∧ ∀ v, part ≠ VarInt.writeSigned v
  | .date, part =>
    VarInt.Sized part ∧ ∀ t : Timestamp, t.Whole → part ≠ VarInt.writeSigned (Int64.ofInt t.millis)
  | .string, part => ∃ raw, part = Terminated.write raw ∧ ∀ text, raw ≠ Bytes.ofText text
  | _, _ => False

theorem spans_of_slips {type : BasicType} (h : type.Slips part) : type.Spans part := by
  cases type with
  | boolean =>
    obtain ⟨b, rfl, -⟩ := h
    rfl
  | varlong => exact h.1
  | date => exact h.1
  | string =>
    obtain ⟨raw, hpart, -⟩ := h
    exact ⟨raw, hpart⟩
  | _ => cases h

theorem not_slips_write (type : BasicType) {v : type.Value} (h : type.Exact v) : ¬ type.Slips (type.write v) := by
  intro hslips
  cases type with
  | boolean =>
    obtain ⟨b, hb, hlt⟩ := hslips
    cases v <;> cases hb <;> exact absurd hlt (by decide)
  | varlong => exact hslips.2 v rfl
  | date => exact hslips.2 v h rfl
  | string =>
    obtain ⟨raw, hwrite, hraw⟩ := hslips
    exact hraw v (Terminated.eq_of_write hwrite).symm
  | _ => cases hslips

theorem exists_write_boolean {b : UInt8} (h : ¬ 0x01 < b) : ∃ v, write .boolean v = [b] := by
  by_cases hzero : b = 0x00
  . exact ⟨false, by rw [hzero]; rfl⟩
  . have hone : b = 0x01 := by
      rw [UInt8.lt_iff_toNat_lt] at h
      rw [← UInt8.toNat_inj] at hzero ⊢
      change ¬ 1 < b.toNat at h
      change b.toNat ≠ 0 at hzero
      show b.toNat = 1
      omega
    exact ⟨true, by rw [hone]; rfl⟩

theorem encodes_or_slips {type : BasicType} (h : type.Spans part)
    : (∃ v, type.Exact v ∧ type.write v = part) ∨ type.Slips part := by
  cases type with
  | boolean =>
    obtain ⟨b, rfl⟩ := List.length_eq_one_iff.1 h
    by_cases hlt : 0x01 < b
    . exact .inr ⟨b, rfl, hlt⟩
    . obtain ⟨v, hwrite⟩ := exists_write_boolean hlt
      exact .inl ⟨v, trivial, hwrite⟩
  | int w =>
    obtain ⟨bits, hwrite⟩ := FixedWidth.exists_write_flipSign w h
    exact .inl ⟨bits, trivial, hwrite⟩
  | uint w => exact .inl ⟨BitVec.ofNat w.bits (Bytes.ofBigEndian part), trivial, FixedWidth.write_ofNat w h⟩
  | f32 =>
    obtain ⟨bits, hwrite⟩ := FixedWidth.exists_write_orderFloat .w32 h
    exact .inl ⟨bits, trivial, hwrite⟩
  | f64 =>
    obtain ⟨bits, hwrite⟩ := FixedWidth.exists_write_orderFloat .w64 h
    exact .inl ⟨bits, trivial, hwrite⟩
  | varlong =>
    by_cases hv : ∃ v, VarInt.writeSigned v = part
    . obtain ⟨v, hv⟩ := hv
      exact .inl ⟨v, trivial, hv⟩
    . exact .inr ⟨h, fun v heq => hv ⟨v, heq.symm⟩⟩
  | date =>
    by_cases ht : ∃ t : Timestamp, t.Whole ∧ VarInt.writeSigned (Int64.ofInt t.millis) = part
    . obtain ⟨t, hwhole, ht⟩ := ht
      exact .inl ⟨t, hwhole, ht⟩
    . exact .inr ⟨h, fun t hwhole heq => ht ⟨t, hwhole, heq.symm⟩⟩
  | string =>
    obtain ⟨raw, rfl⟩ := h
    by_cases htext : ∃ text, Bytes.ofText text = raw
    . obtain ⟨text, rfl⟩ := htext
      exact .inl ⟨text, trivial, rfl⟩
    . exact .inr ⟨raw, rfl, fun text heq => htext ⟨text, heq.symm⟩⟩
  | bytes => exact .inl ⟨part, trivial, rfl⟩

end BasicType

namespace FieldType

/-- The byte strings of an encoding's outer shape that encode nothing, behind the markers. -/
def Slips : FieldType → Bytes → Prop
  | .basic type, part => type.Slips part
  | .nullable inner, part =>
    ∃ inside, inner.Slips inside ∧ Bytes.LeadsBelow NullMarker.null part ∧
      part = NullMarker.mark inner.startsWithFF inside

theorem spans_of_slips {type : FieldType} (h : type.Slips part) : type.Spans part := by
  induction type generalizing part with
  | basic type => exact BasicType.spans_of_slips h
  | nullable inner ih =>
    obtain ⟨inside, hslips, hleads, hpart⟩ := h
    exact .inr ⟨inside, ih hslips, hleads, hpart⟩

theorem not_slips_write (type : FieldType) {v : type.Value} (h : type.Exact v) : ¬ type.Slips (type.write v) := by
  induction type with
  | basic type => exact type.not_slips_write h
  | nullable inner ih =>
    rintro ⟨inside, hslips, hleads, hpart⟩
    cases v with
    | none => exact hleads.head?_ne rfl
    | some v =>
      rw [write_some] at hpart
      rw [← NullMarker.eq_of_mark hpart] at hslips
      exact ih h hslips

theorem encodes_or_slips {type : FieldType} (h : type.Spans part)
    : (∃ v, type.Exact v ∧ type.write v = part) ∨ type.Slips part := by
  induction type generalizing part with
  | basic type => exact BasicType.encodes_or_slips h
  | nullable inner ih =>
    rcases h with rfl | ⟨inside, hspans, hleads, rfl⟩
    . exact .inl ⟨none, trivial, rfl⟩
    . rcases ih hspans with ⟨v, hexact, rfl⟩ | hslips
      . exact .inl ⟨some v, hexact, rfl⟩
      . exact .inr ⟨inside, hslips, hleads, rfl⟩

end FieldType

namespace RegisteredType

variable {type : RegisteredType}

theorem decodes_iff : type.Decodes part ↔ ∃ v, type.field.Exact v ∧ type.field.write v = part := by
  constructor
  . rintro ⟨v, hdecode⟩
    obtain ⟨hwrite, hexact⟩ := FieldType.write_of_decode hdecode
    exact ⟨v, hexact, hwrite⟩
  . rintro ⟨v, hexact, rfl⟩
    exact ⟨v, type.field.decode_write hexact⟩

theorem spans_iff : type.Spans part ↔ type.Decodes part ∨ type.field.Slips part := by
  rw [decodes_iff]
  constructor
  . exact FieldType.encodes_or_slips
  . rintro (⟨v, -, rfl⟩ | hslips)
    . exact type.field.spans_write v
    . exact FieldType.spans_of_slips hslips

theorem not_decodes_of_slips (h : type.field.Slips part) : ¬ type.Decodes part := by
  rw [decodes_iff]
  rintro ⟨v, hexact, rfl⟩
  exact type.field.not_slips_write hexact h

end RegisteredType

namespace CompositeType

variable {cs : List RegisteredType} {xs ys : List Bytes}

theorem exists_compare_go (hx : List.Forall₂ RegisteredType.Decodes cs xs)
    (hy : List.Forall₂ RegisteredType.Decodes cs ys)
    : ∃ order, compare.go cs xs ys = .ok order := by
  induction hx generalizing ys with
  | nil =>
    cases hy
    exact ⟨.eq, rfl⟩
  | cons hpart _ ih =>
    obtain _ | ⟨hpart', hys⟩ := hy
    obtain ⟨order, hfield⟩ := RegisteredType.exists_compareAsValues_field hpart hpart'
    unfold compare.go
    rw [(RegisteredType.compareAsValues_of_field hfield).1]
    cases order with
    | eq => exact ih hys
    | lt => exact ⟨.lt, rfl⟩
    | gt => exact ⟨.gt, rfl⟩

theorem join_of_decodes (type : CompositeType) (h : List.Forall₂ RegisteredType.Decodes type.components xs)
    : type.join xs = .ok xs.flatten := by
  exact type.join_eq_ok_iff.2 ⟨h.imp fun c part hpart => RegisteredType.spans_iff.2 (.inl hpart), rfl⟩

theorem compare_of_decodes (type : CompositeType) (hx : List.Forall₂ RegisteredType.Decodes type.components xs)
    (hy : List.Forall₂ RegisteredType.Decodes type.components ys)
    : type.compare xs.flatten ys.flatten = .ok (Bytes.compare xs.flatten ys.flatten) := by
  have hsplit : ∀ {zs}, List.Forall₂ RegisteredType.Decodes type.components zs →
      type.split zs.flatten = .ok zs := by
    intro zs hzs
    exact type.split_eq_ok_iff.2 (type.join_eq_ok_iff.1 (type.join_of_decodes hzs))
  obtain ⟨order, hgo⟩ := exists_compare_go hx hy
  have hcompare : type.compare xs.flatten ys.flatten = .ok order := by
    unfold compare
    rw [hsplit hx, hsplit hy]
    exact hgo
  rw [hcompare, type.compare_eq_ok hcompare]

/-- Parts join into a key exactly if there is one for each component and it decodes or slips, and what slips does
not decode; keys of parts that decode can always be compared, which comes to their byte order. -/
theorem joins_iff_decodes_or_slips (type : CompositeType)
    : (∀ parts key, type.join parts = .ok key
          ↔
        List.Forall₂ (fun c part => c.Decodes part ∨ c.field.Slips part) type.components parts ∧
          key = parts.flatten) ∧
      (∀ (c : RegisteredType) part, c.field.Slips part → ¬ c.Decodes part) ∧
      (∀ xs ys, List.Forall₂ RegisteredType.Decodes type.components xs →
        List.Forall₂ RegisteredType.Decodes type.components ys →
        ∃ x y, type.join xs = .ok x ∧ type.join ys = .ok y ∧ type.compare x y = .ok (Bytes.compare x y)) := by
  refine ⟨?_, ?_, ?_⟩
  . intro parts key
    rw [type.join_eq_ok_iff]
    have hparts : ∀ c part, RegisteredType.Spans c part ↔ c.Decodes part ∨ c.field.Slips part :=
      fun _ _ => RegisteredType.spans_iff
    simp only [funext₂ fun c part => propext (hparts c part)]
  . intro c part
    exact RegisteredType.not_decodes_of_slips
  . intro xs ys hx hy
    exact ⟨_, _, type.join_of_decodes hx, type.join_of_decodes hy, type.compare_of_decodes hx hy⟩

theorem joins_iff_decodes_or_slips_marked
    : let flag : RegisteredType := .nullable (.typed (.nullable (.basic .boolean)))
      let type : CompositeType := ⟨[flag, .typed (.basic .bytes)], by simp, by decide⟩
      (∃ key, type.join [[0x01, 0x02], [0xff]] = .ok key) ∧ ¬ flag.Decodes [0x01, 0x02] ∧
        ∃ x y, type.join [[0x01, 0xff], [0xff]] = .ok x ∧ type.join [[0x01, 0x00], [0xff]] = .ok y ∧
          type.compare x y = .ok (Bytes.compare x y) := by
  intro flag type
  obtain ⟨hjoins, hslips, hcompares⟩ := joins_iff_decodes_or_slips type
  have hbyte : FieldType.Slips (.nullable (.basic .boolean)) [0x02] :=
    ⟨[0x02], ⟨0x02, rfl, by decide⟩, NullMarker.leadsBelow_of_ne (by decide) [], rfl⟩
  have hflag : flag.field.Slips [0x01, 0x02] :=
    ⟨[0x02], hbyte, NullMarker.leadsBelow_of_ne (by decide) [0x02], rfl⟩
  have hbytes : RegisteredType.Decodes (.typed (.basic .bytes)) [0xff] := ⟨[0xff], rfl⟩
  have hnull : flag.Decodes [0x01, 0xff] := ⟨some none, rfl⟩
  have hfalse : flag.Decodes [0x01, 0x00] := ⟨some (some false), rfl⟩
  refine ⟨⟨_, (hjoins _ _).2 ⟨.cons (.inr hflag) (.cons (.inl hbytes) .nil), rfl⟩⟩, hslips _ _ hflag, ?_⟩
  exact hcompares _ _ (.cons hnull (.cons hbytes .nil)) (.cons hfalse (.cons hbytes .nil))

theorem join_admits_malformed
    : let type : CompositeType := ⟨[.typed (.basic .boolean)], by simp, by simp⟩
      type.join [[0x02]] = .ok [0x02] ∧ ¬ RegisteredType.Decodes (.typed (.basic .boolean)) [0x02] ∧
        ∃ e, type.compare [0x02] [0x02] = .error e := by
  intro type
  refine ⟨rfl, ?_, _, rfl⟩
  rintro ⟨v, hdecode⟩
  cases hdecode

end CompositeType

end ReplicatedStore
