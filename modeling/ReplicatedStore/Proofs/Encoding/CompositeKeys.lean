import ReplicatedStore.Proofs.Encoding.Splitting

/-!
Composite keys: the byte order of keys is the order of the tuples they were joined from, and of any two keys
that compare as values.
-/

namespace ReplicatedStore

namespace RegisteredType

variable {x y : Bytes} {order : Ordering}

theorem strip_eq_ok {inner : RegisteredType} {value : Option Bytes} (h : (strip inner).value x = .ok value)
    : (value = none ∧ x = [NullMarker.null]) ∨
      (∃ rest, value = some rest ∧ Bytes.LeadsBelow NullMarker.null x ∧
        x = NullMarker.mark inner.startsWithFF rest) := by
  obtain ⟨rest, hstrip⟩ := Reader.value_eq_ok h
  obtain ⟨isNull, left, hmarker, hvalue⟩ := EStateM.of_bind hstrip
  rcases NullMarker.read_eq_ok hmarker with ⟨rfl, hx⟩ | ⟨rfl, hleads, hx⟩
  . obtain ⟨_, _, hfinish, hpure⟩ := EStateM.of_bind hvalue
    cases hpure
    rw [hx, Reader.finish_eq_ok hfinish]
    exact .inl ⟨rfl, rfl⟩
  . cases hvalue
    exact .inr ⟨left, rfl, hleads, hx⟩

theorem orders_of_compareAsValues {type : RegisteredType} (h : type.compareAsValues x y = .ok order)
    : Bytes.Orders type.selfDelimiting x y order := by
  induction type generalizing x y with
  | typed type =>
    obtain ⟨a, ha, hrest⟩ := Except.of_bind h
    obtain ⟨b, hb, hpure⟩ := Except.of_bind hrest
    cases hpure
    obtain ⟨hx, hexact⟩ := FieldType.eq_write_of_read (Reader.decode_eq_ok ha)
    obtain ⟨hy, hexact'⟩ := FieldType.eq_write_of_read (Reader.decode_eq_ok hb)
    rw [hx, hy, List.append_nil, List.append_nil]
    exact type.orders_write hexact hexact'
  | nullable inner ih =>
    obtain ⟨a, ha, hrest⟩ := Except.of_bind h
    obtain ⟨b, hb, hvalue⟩ := Except.of_bind hrest
    rcases strip_eq_ok ha with ⟨rfl, rfl⟩ | ⟨x', rfl, hleads, rfl⟩
    . rcases strip_eq_ok hb with ⟨rfl, rfl⟩ | ⟨y', rfl, hleads, rfl⟩
      . cases hvalue
        exact (Bytes.ranks_self _).orders
      . cases hvalue
        exact (hleads.ranks []).swap.orders
    . rcases strip_eq_ok hb with ⟨rfl, rfl⟩ | ⟨y', rfl, -, rfl⟩
      . cases hvalue
        exact (hleads.ranks []).orders
      . exact (ih hvalue).mark _

end RegisteredType

inductive Tuple : List RegisteredType → Type where
  | nil : Tuple []
  | cons {c : RegisteredType} {cs : List RegisteredType} (value : c.field.Value) (rest : Tuple cs) :
    Tuple (c :: cs)

namespace Tuple

variable {cs : List RegisteredType}

def encodings : {cs : List RegisteredType} → Tuple cs → List Bytes
  | _, .nil => []
  | c :: _, .cons value rest => c.field.write value :: rest.encodings

def compare : {cs : List RegisteredType} → Tuple cs → Tuple cs → Ordering
  | _, .nil, .nil => .eq
  | c :: _, .cons a as, .cons b bs => (c.field.compare a b).then (as.compare bs)

def Exact : {cs : List RegisteredType} → Tuple cs → Prop
  | _, .nil => True
  | c :: _, .cons value rest => c.field.Exact value ∧ rest.Exact

theorem spans_encodings (tuple : Tuple cs) : List.Forall₂ RegisteredType.Spans cs tuple.encodings := by
  induction tuple with
  | nil => exact .nil
  | @cons c cs value rest ih => exact .cons (c.field.spans_write value) ih

theorem length_encodings (tuple : Tuple cs) : tuple.encodings.length = cs.length := by
  exact tuple.spans_encodings.length_eq.symm

end Tuple

namespace CompositeType

variable {c : RegisteredType} {cs : List RegisteredType} {x y : Bytes} {xs ys : List Bytes} {order : Ordering}

theorem compare_flatten_cons (hdelimited : ∀ d ∈ (c :: cs).dropLast, d.selfDelimiting = true)
    (hx : xs.length = cs.length) (hy : ys.length = cs.length) (h : Bytes.Orders c.selfDelimiting x y order)
    : Bytes.compare (x :: xs).flatten (y :: ys).flatten
        =
      order.then (Bytes.compare xs.flatten ys.flatten) := by
  rw [List.flatten_cons, List.flatten_cons]
  apply h
  intro hopen
  rw [eq_nil_of_open hdelimited hopen] at hx hy
  rw [List.length_eq_zero_iff.1 hx, List.length_eq_zero_iff.1 hy]
  exact ⟨rfl, rfl⟩

theorem compare_encodings {a b : Tuple cs} (hdelimited : ∀ d ∈ cs.dropLast, d.selfDelimiting = true)
    (ha : a.Exact) (hb : b.Exact)
    : Bytes.compare a.encodings.flatten b.encodings.flatten = a.compare b := by
  induction cs with
  | nil =>
    cases a
    cases b
    rfl
  | cons c cs ih =>
    obtain _ | ⟨v, a⟩ := a
    obtain _ | ⟨w, b⟩ := b
    have horders := c.field.orders_write ha.1 hb.1
    rw [← c.selfDelimiting_eq] at horders
    show Bytes.compare (c.field.write v :: a.encodings).flatten (c.field.write w :: b.encodings).flatten
        =
      (c.field.compare v w).then (a.compare b)
    rw [compare_flatten_cons hdelimited a.length_encodings b.length_encodings horders]
    rw [ih (delimited_tail hdelimited) ha.2 hb.2]

theorem join_encodings (type : CompositeType) (tuple : Tuple type.components)
    : type.join tuple.encodings = .ok tuple.encodings.flatten := by
  exact type.join_eq_ok_iff.2 ⟨tuple.spans_encodings, rfl⟩

theorem compare_go_eq_ok (hdelimited : ∀ d ∈ cs.dropLast, d.selfDelimiting = true)
    (hx : xs.length = cs.length) (hy : ys.length = cs.length) (h : compare.go cs xs ys = .ok order)
    : Bytes.compare xs.flatten ys.flatten = order := by
  induction cs generalizing xs ys with
  | nil =>
    rw [List.length_eq_zero_iff.1 hx, List.length_eq_zero_iff.1 hy] at h ⊢
    cases h
    rfl
  | cons c cs ih =>
    obtain ⟨x, xs, rfl⟩ := List.exists_cons_of_length_eq_add_one hx
    obtain ⟨y, ys, rfl⟩ := List.exists_cons_of_length_eq_add_one hy
    rw [List.length_cons, List.length_cons, Nat.add_right_cancel_iff] at hx hy
    unfold compare.go at h
    obtain ⟨first, hfirst, hnext⟩ := Except.of_bind h
    rw [compare_flatten_cons hdelimited hx hy (RegisteredType.orders_of_compareAsValues hfirst)]
    cases first with
    | eq => exact ih (delimited_tail hdelimited) hx hy hnext
    | lt =>
      cases hnext
      rfl
    | gt =>
      cases hnext
      rfl

theorem compare_eq_ok (type : CompositeType) (h : type.compare x y = .ok order)
    : Bytes.compare x y = order := by
  obtain ⟨xs, hxs, hrest⟩ := Except.of_bind h
  obtain ⟨ys, hys, hgo⟩ := Except.of_bind hrest
  obtain ⟨hx, rfl⟩ := type.split_eq_ok_iff.1 hxs
  obtain ⟨hy, rfl⟩ := type.split_eq_ok_iff.1 hys
  exact compare_go_eq_ok type.delimited hx.length_eq.symm hy.length_eq.symm hgo

/-- The byte order of keys is that of the tuples they were joined from; and wherever two byte strings compare
as keys at all, the comparison is their byte order. -/
theorem order_of_keys (type : CompositeType)
    : (∀ a b : Tuple type.components, a.Exact → b.Exact →
        ∃ x y, type.join a.encodings = .ok x ∧ type.join b.encodings = .ok y ∧ Bytes.compare x y = a.compare b) ∧
      (∀ x y order, type.compare x y = .ok order → Bytes.compare x y = order) := by
  constructor
  . intro a b ha hb
    exact ⟨_, _, type.join_encodings a, type.join_encodings b, compare_encodings type.delimited ha hb⟩
  . intro x y order h
    exact type.compare_eq_ok h

theorem order_of_nullable_keys
    : let type : CompositeType := ⟨[.nullable (.typed (.nullable (.basic .date))), .typed (.basic .bytes)],
        by simp, by decide⟩
      ∃ a b : Tuple type.components, a.Exact ∧ b.Exact ∧
        (∃ x y, type.join a.encodings = .ok x ∧ type.join b.encodings = .ok y ∧ Bytes.compare x y = .lt) ∧
        type.compare [0xff, 0x61] [0xff, 0x62] = .ok .lt ∧ Bytes.compare [0xff, 0x61] [0xff, 0x62] = .lt := by
  intro type
  let moment : Timestamp := ⟨59, 0, by decide⟩
  let a : Tuple type.components := .cons (some (some moment)) (.cons [0x01] .nil)
  let b : Tuple type.components := .cons (some none) (.cons [0x00] .nil)
  have ha : a.Exact := ⟨show moment.Whole by decide, trivial, trivial⟩
  have hb : b.Exact := ⟨trivial, trivial, trivial⟩
  exact ⟨a, b, ha, hb, (order_of_keys type).1 a b ha hb, rfl, (order_of_keys type).2 _ _ _ rfl⟩

theorem leap_second_shares_key
    : let type : CompositeType := ⟨[.typed (.basic .date)], by simp, by simp⟩
      let leap : Timestamp := ⟨59, 1500000000, by decide⟩
      let next : Timestamp := ⟨60, 500000000, by decide⟩
      let a : Tuple type.components := .cons leap .nil
      let b : Tuple type.components := .cons next .nil
      leap.nanos % 1000000 = 0 ∧ next.nanos % 1000000 = 0 ∧ a.compare b = .lt ∧
        ∃ key, type.join a.encodings = .ok key ∧ type.join b.encodings = .ok key ∧ Bytes.compare key key = .eq := by
  intro type leap next a b
  have hmillis : leap.millis = next.millis := by decide
  have hsame : a.encodings = b.encodings :=
    congrArg (fun millis => [VarInt.writeSigned (Int64.ofInt millis)]) hmillis
  refine ⟨by decide, by decide, rfl, a.encodings.flatten, type.join_encodings a, ?_, Bytes.compare_self _⟩
  rw [hsame]
  exact type.join_encodings b

end CompositeType

end ReplicatedStore
