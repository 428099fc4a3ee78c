import Mathlib.Data.List.Forall2
import ReplicatedStore.Encoding.CompositeType
import ReplicatedStore.Proofs.Encoding.FieldType

/-!
What is passed over without being read: the byte strings with the outer shape of an encoding, whatever follows
them. Every encoding has that shape, and passing a value over ends where reading it does. Joining parts into a key
and splitting a key into parts are inverse to each other: both accept byte strings of those shapes, one after the
other, and nothing else.
-/

namespace ReplicatedStore

variable {input part rest : Bytes} {u : Unit}

namespace Reader

variable {count : Nat}

theorem skip_append (h : part.length = count) (rest : Bytes) : skip count (part ++ rest) = .ok () rest := by
  subst h
  exact EStateM.bind_of_ok (VarInt.bytes_append part rest)

theorem skip_eq_ok (h : skip count input = .ok u rest) : ∃ part, input = part ++ rest ∧ part.length = count := by
  obtain ⟨part, _, hbytes, hpure⟩ := EStateM.of_bind h
  cases hpure
  exact ⟨part, bytes_eq_ok hbytes⟩

end Reader

namespace VarInt

def Sized (part : Bytes) : Prop :=
  ∃ first payload, part = first :: payload ∧ signedSize first = .ok (1 + payload.length)

theorem sized_writeSigned (v : Int64) : Sized (writeSigned v) := by
  obtain ⟨first, payload, hwrite, hsize, -, -⟩ := exists_writeSigned v
  exact ⟨first, payload, hwrite, hsize⟩

theorem skipSigned_append (h : Sized part) (rest : Bytes) : skipSigned (part ++ rest) = .ok () rest := by
  obtain ⟨first, payload, rfl, hsize⟩ := h
  unfold skipSigned
  rw [List.cons_append, EStateM.bind_of_ok (peek_cons _ _), hsize, ← List.cons_append]
  exact Reader.skip_append (Nat.add_comm _ _) rest

theorem skipSigned_eq_ok (h : skipSigned input = .ok u rest) : ∃ part, input = part ++ rest ∧ Sized part := by
  obtain ⟨first, _, hpeek, hskip⟩ := EStateM.of_bind h
  obtain ⟨rfl, tail, hinput⟩ := Reader.peek_eq_ok hpeek
  generalize hsize : signedSize first = size at hskip
  cases size with
  | error e => cases hskip
  | ok length =>
    obtain ⟨n, rfl, -⟩ := signedSize_eq_ok hsize
    obtain ⟨part, rfl, hlength⟩ := Reader.skip_eq_ok hskip
    obtain ⟨head, payload, rfl⟩ := List.exists_cons_of_length_eq_add_one (hlength.trans (Nat.add_comm 1 n))
    rw [List.cons_append, List.cons.injEq] at hinput
    refine ⟨_, rfl, head, payload, rfl, ?_⟩
    rw [hinput.1, hsize, ← hlength, List.length_cons, Nat.add_comm]

end VarInt

namespace BasicType

def Spans : BasicType → Bytes → Prop
  | .boolean, part => part.length = 1
  | .int w, part => part.length = w.bytes
  | .uint w, part => part.length = w.bytes
  | .f32, part => part.length = 4
  | .f64, part => part.length = 8
  | .varlong, part => VarInt.Sized part
  | .date, part => VarInt.Sized part
  | .string, part => ∃ text, part = Terminated.write text
  | .bytes, _ => True

theorem spans_write (type : BasicType) (v : type.Value) : type.Spans (type.write v) := by
  cases type with
  | boolean => exact rfl
  | int w => exact FixedWidth.length_write w _
  | uint w => exact FixedWidth.length_write w _
  | f32 => exact FixedWidth.length_write .w32 _
  | f64 => exact FixedWidth.length_write .w64 _
  | varlong => exact VarInt.sized_writeSigned v
  | date => exact VarInt.sized_writeSigned _
  | string => exact ⟨_, rfl⟩
  | bytes => trivial

theorem skip_append {type : BasicType} (h : type.Spans part) (hlast : type.selfDelimiting = false → rest = [])
    : type.skip (part ++ rest) = .ok () rest := by
  cases type with
  | varlong => exact VarInt.skipSigned_append h rest
  | date => exact VarInt.skipSigned_append h rest
  | string =>
    obtain ⟨text, rfl⟩ := h
    exact EStateM.bind_of_ok (Terminated.read_write text rest)
  | bytes =>
    rw [hlast rfl]
    rfl
  | _ => exact Reader.skip_append h rest

theorem skip_eq_ok {type : BasicType} (h : type.skip input = .ok u rest)
    : ∃ part, input = part ++ rest ∧ type.Spans part := by
  cases type with
  | varlong => exact VarInt.skipSigned_eq_ok h
  | date => exact VarInt.skipSigned_eq_ok h
  | string =>
    obtain ⟨text, _, hread, hpure⟩ := EStateM.of_bind h
    cases hpure
    exact ⟨_, Terminated.eq_write_of_read hread, text, rfl⟩
  | bytes =>
    cases h
    exact ⟨input, (List.append_nil _).symm, trivial⟩
  | _ => exact Reader.skip_eq_ok h

theorem ne_nil_of_spans {type : BasicType} (h : type.Spans part) (hflag : type.startsWithFF = false) : part ≠ [] := by
  rintro rfl
  cases type with
  | boolean => cases h
  | varlong =>
    obtain ⟨first, payload, hpart, -⟩ := h
    cases hpart
  | date =>
    obtain ⟨first, payload, hpart, -⟩ := h
    cases hpart
  | string =>
    obtain ⟨text, hpart⟩ := h
    exact List.append_ne_nil_of_right_ne_nil _ (List.cons_ne_nil _ _) hpart.symm
  | _ => cases hflag

theorem eq_nil_of_read {type : BasicType} {v : type.Value} (h : type.read input = .ok v rest)
    (hopen : type.selfDelimiting = false)
    : rest = [] := by
  cases type with
  | bytes =>
    cases h
    rfl
  | _ => cases hopen

theorem skip_of_read {type : BasicType} {v : type.Value} (h : type.read input = .ok v rest)
    : type.skip input = .ok () rest := by
  rw [(eq_write_of_read h).1]
  exact skip_append (type.spans_write v) (eq_nil_of_read h)

end BasicType

theorem Bytes.LeadsBelow.of_append {bound : UInt8} {x y : Bytes} (h : LeadsBelow bound (x ++ y)) (hx : x ≠ [])
    : LeadsBelow bound x := by
  obtain ⟨first, tail, hxy, hlt⟩ := h
  obtain ⟨head, x, rfl⟩ := List.exists_cons_of_ne_nil hx
  rw [List.cons_append, List.cons.injEq] at hxy
  exact ⟨head, x, rfl, hxy.1 ▸ hlt⟩

namespace FieldType

def Spans : FieldType → Bytes → Prop
  | .basic type, part => type.Spans part
  | .nullable inner, part =>
    part = [NullMarker.null] ∨
      ∃ inside, inner.Spans inside ∧ Bytes.LeadsBelow NullMarker.null part ∧
        part = NullMarker.mark inner.startsWithFF inside

theorem spans_write (type : FieldType) (v : type.Value) : type.Spans (type.write v) := by
  induction type with
  | basic type => exact type.spans_write v
  | nullable inner ih =>
    cases v with
    | none => exact .inl rfl
    | some v => exact .inr ⟨_, ih v, leadsBelow_write_some inner v, write_some inner v⟩

theorem ne_nil_of_spans {type : FieldType} (h : type.Spans part) (hflag : type.startsWithFF = false) : part ≠ [] := by
  cases type with
  | basic type => exact BasicType.ne_nil_of_spans h hflag
  | nullable inner => cases hflag

theorem skip_append {type : FieldType} (h : type.Spans part) (hlast : type.selfDelimiting = false → rest = [])
    : type.skip (part ++ rest) = .ok () rest := by
  induction type generalizing part with
  | basic type => exact BasicType.skip_append h hlast
  | nullable inner ih =>
    unfold skip
    rcases h with rfl | ⟨inside, hinside, hleads, rfl⟩
    . exact EStateM.bind_of_ok (NullMarker.read_null _ rest)
    . rw [NullMarker.mark_append, EStateM.bind_of_ok (NullMarker.read_mark ?_)]
      . exact ih hinside hlast
      . intro hbare
        rw [hbare] at hleads
        exact hleads.append rest

theorem skip_eq_ok {type : FieldType} (h : type.skip input = .ok u rest)
    : ∃ part, input = part ++ rest ∧ type.Spans part := by
  induction type generalizing input with
  | basic type => exact BasicType.skip_eq_ok h
  | nullable inner ih =>
    obtain ⟨isNull, left, hmarker, hskip⟩ := EStateM.of_bind h
    rcases NullMarker.read_eq_ok hmarker with ⟨rfl, rfl⟩ | ⟨rfl, hleads, rfl⟩
    . cases hskip
      exact ⟨[NullMarker.null], rfl, .inl rfl⟩
    . obtain ⟨inside, rfl, hinside⟩ := ih hskip
      refine ⟨_, (NullMarker.mark_append _ _ _).symm, .inr ⟨inside, hinside, ?_, rfl⟩⟩
      apply NullMarker.leadsBelow_mark
      intro hbare
      -- Without a marker it is the inside that tells the part from null, so it must not be empty.
      rw [hbare] at hleads
      exact Bytes.LeadsBelow.of_append hleads (ne_nil_of_spans hinside hbare)

theorem skip_of_read {type : FieldType} {v : type.Value} (h : type.read input = .ok v rest)
    : type.skip input = .ok () rest := by
  induction type generalizing input with
  | basic type => exact BasicType.skip_of_read h
  | nullable inner ih =>
    obtain ⟨isNull, left, hmarker, hvalue⟩ := EStateM.of_bind h
    unfold skip
    rw [EStateM.bind_of_ok hmarker]
    cases isNull with
    | true =>
      cases hvalue
      rfl
    | false =>
      obtain ⟨w, _, hread, hpure⟩ := EStateM.of_bind hvalue
      cases hpure
      exact ih hread

end FieldType

namespace RegisteredType

def field : RegisteredType → FieldType
  | .typed type => type
  | .nullable inner => .nullable inner.field

theorem startsWithFF_eq (type : RegisteredType) : type.startsWithFF = type.field.startsWithFF := by
  cases type <;> rfl

theorem selfDelimiting_eq (type : RegisteredType) : type.selfDelimiting = type.field.selfDelimiting := by
  induction type with
  | typed type => rfl
  | nullable inner ih => exact ih

theorem skip_eq (type : RegisteredType) : type.skip = type.field.skip := by
  induction type with
  | typed type => rfl
  | nullable inner ih =>
    unfold skip
    rw [ih, startsWithFF_eq]
    rfl

def Spans (type : RegisteredType) (part : Bytes) : Prop :=
  type.field.Spans part

variable {type : RegisteredType}

theorem skip_append (h : type.Spans part) (hlast : type.selfDelimiting = false → rest = [])
    : type.skip (part ++ rest) = .ok () rest := by
  rw [type.skip_eq]
  rw [type.selfDelimiting_eq] at hlast
  exact FieldType.skip_append h hlast

theorem skip_eq_ok (h : type.skip input = .ok u rest) : ∃ part, input = part ++ rest ∧ type.Spans part := by
  rw [type.skip_eq] at h
  exact FieldType.skip_eq_ok h

theorem skip_decode_eq_ok_iff : type.skip.decode part = .ok () ↔ type.Spans part := by
  rw [Reader.decode_eq_ok_iff]
  constructor
  . intro hskip
    obtain ⟨whole, hpart, hspans⟩ := skip_eq_ok hskip
    rwa [hpart, List.append_nil]
  . intro hspans
    rw [← List.append_nil part]
    exact skip_append hspans fun _ => rfl

end RegisteredType

namespace CompositeType

variable {c : RegisteredType} {cs : List RegisteredType} {parts : List Bytes} {key : Bytes}

theorem join_go_eq_ok (hlength : parts.length = cs.length) (h : join.go cs parts = .ok key)
    : List.Forall₂ RegisteredType.Spans cs parts ∧ key = parts.flatten := by
  induction cs generalizing parts key with
  | nil =>
    rw [List.length_eq_zero_iff.1 hlength] at h ⊢
    cases h
    exact ⟨.nil, rfl⟩
  | cons c cs ih =>
    obtain ⟨part, parts, rfl⟩ := List.exists_cons_of_length_eq_add_one hlength
    obtain ⟨_, hskip, hjoin⟩ := Except.of_bind h
    obtain ⟨behind, hgo, hpure⟩ := Except.of_bind hjoin
    cases hpure
    obtain ⟨hparts, rfl⟩ := ih (Nat.succ.inj hlength) hgo
    exact ⟨.cons (RegisteredType.skip_decode_eq_ok_iff.1 hskip) hparts, List.flatten_cons.symm⟩

theorem join_go_flatten (h : List.Forall₂ RegisteredType.Spans cs parts) : join.go cs parts = .ok parts.flatten := by
  induction h with
  | nil => rfl
  | cons hpart _ ih =>
    unfold join.go
    rw [RegisteredType.skip_decode_eq_ok_iff.2 hpart, ih]
    rfl

theorem join_eq_ok_iff (type : CompositeType)
    : type.join parts = .ok key
        ↔
      List.Forall₂ RegisteredType.Spans type.components parts ∧ key = parts.flatten := by
  unfold join
  constructor
  . intro h
    split at h
    . cases h
    . next hlength => exact join_go_eq_ok (Decidable.not_not.1 hlength) h
  . rintro ⟨hparts, rfl⟩
    rw [if_neg (by simp [hparts.length_eq])]
    exact join_go_flatten hparts

theorem split_go_eq_ok (h : split.go cs key = .ok parts)
    : List.Forall₂ RegisteredType.Spans cs parts ∧ key = parts.flatten := by
  induction cs generalizing key parts with
  | nil =>
    obtain ⟨_, hfinish, hpure⟩ := Except.of_bind h
    cases hpure
    obtain ⟨rest, hend⟩ := Reader.value_eq_ok hfinish
    exact ⟨.nil, Reader.finish_eq_ok hend⟩
  | cons c cs ih =>
    unfold split.go at h
    cases hskip : c.skip key with
    | error e rest =>
      rw [hskip] at h
      cases h
    | ok u rest =>
      rw [hskip] at h
      obtain ⟨behind, hgo, hpure⟩ := Except.of_bind h
      obtain ⟨part, rfl, hpart⟩ := RegisteredType.skip_eq_ok hskip
      rw [List.length_append, Nat.add_sub_cancel, List.take_left] at hpure
      cases hpure
      obtain ⟨hparts, rfl⟩ := ih hgo
      exact ⟨.cons hpart hparts, List.flatten_cons.symm⟩

theorem delimited_tail (h : ∀ d ∈ (c :: cs).dropLast, d.selfDelimiting = true)
    : ∀ d ∈ cs.dropLast, d.selfDelimiting = true := by
  intro d hd
  cases cs with
  | nil => cases hd
  | cons e cs => exact h d (List.mem_cons_of_mem _ hd)

theorem eq_nil_of_open (hdelimited : ∀ d ∈ (c :: cs).dropLast, d.selfDelimiting = true)
    (hopen : c.selfDelimiting = false)
    : cs = [] := by
  cases cs with
  | nil => rfl
  | cons d cs =>
    rw [hdelimited c (by simp)] at hopen
    cases hopen

theorem split_go_flatten (hdelimited : ∀ d ∈ cs.dropLast, d.selfDelimiting = true)
    (h : List.Forall₂ RegisteredType.Spans cs parts)
    : split.go cs parts.flatten = .ok parts := by
  induction h with
  | nil => rfl
  | @cons c part cs parts hpart hparts ih =>
    have hskip : c.skip (part ++ parts.flatten) = .ok () parts.flatten := by
      apply RegisteredType.skip_append hpart
      intro hopen
      -- Only the last component may be open, and then no parts are left.
      rw [eq_nil_of_open hdelimited hopen] at hparts
      cases hparts
      rfl
    unfold split.go
    rw [List.flatten_cons, hskip]
    dsimp only
    rw [ih (delimited_tail hdelimited), List.length_append, Nat.add_sub_cancel, List.take_left]
    rfl

theorem split_eq_ok_iff (type : CompositeType)
    : type.split key = .ok parts
        ↔
      List.Forall₂ RegisteredType.Spans type.components parts ∧ key = parts.flatten := by
  constructor
  . exact split_go_eq_ok
  . rintro ⟨hparts, rfl⟩
    exact split_go_flatten type.delimited hparts

/-- Whatever joins into a key is what the key splits into, and the other way round; and from wherever a value
can be read, it is passed over to where reading it ends, its type being known or behind a name. -/
theorem joining_inverts_splitting (type : CompositeType)
    : (∀ parts key, type.join parts = .ok key ↔ type.split key = .ok parts) ∧
      (∀ (c : RegisteredType) input v rest, c.field.read input = .ok v rest →
        c.field.skip input = .ok () rest ∧ c.skip input = .ok () rest) := by
  constructor
  . intro parts key
    rw [join_eq_ok_iff, split_eq_ok_iff]
  . intro c input v rest hread
    have hskip := FieldType.skip_of_read hread
    rw [c.skip_eq]
    exact ⟨hskip, hskip⟩

theorem joining_inverts_splitting_marked
    : let text : RegisteredType := .nullable (.typed (.nullable (.basic .string)))
      let type : CompositeType := ⟨[text, .nullable (.typed (.basic .bytes))], by simp, by decide⟩
      let absent : text.field.Value := some none
      type.join [[0x01, 0xff], [0x01, 0xff]] = .ok [0x01, 0xff, 0x01, 0xff] ∧
        type.split [0x01, 0xff, 0x01, 0xff] = .ok [[0x01, 0xff], [0x01, 0xff]] ∧
        text.field.read [0x01, 0xff, 0x01, 0xff] = .ok absent [0x01, 0xff] ∧
        text.skip [0x01, 0xff, 0x01, 0xff] = .ok () [0x01, 0xff] := by
  intro text type absent
  obtain ⟨hinverse, hskips⟩ := joining_inverts_splitting type
  have hjoin : type.join [[0x01, 0xff], [0x01, 0xff]] = .ok [0x01, 0xff, 0x01, 0xff] := rfl
  have hread : text.field.read [0x01, 0xff, 0x01, 0xff] = .ok absent [0x01, 0xff] := rfl
  exact ⟨hjoin, (hinverse _ _).1 hjoin, hread, (hskips text _ _ _ hread).2⟩

end CompositeType

end ReplicatedStore
