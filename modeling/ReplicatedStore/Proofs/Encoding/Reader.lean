import ReplicatedStore.Encoding.Reader
import ReplicatedStore.Proofs.Sequence

/-!
Readers that take in exactly what was written, whatever follows it, and items that were written one after the
other.
-/

namespace ReplicatedStore

namespace EStateM

variable {ε α : Type} {write : α → Bytes} {read : EStateM ε Bytes α} {fits : α → Prop} {items : List α}

def Inverts (read : EStateM ε Bytes α) (write : α → Bytes) (fits : α → Prop) : Prop :=
  ∀ input a rest, read input = .ok a rest ↔ input = write a ++ rest ∧ fits a

theorem Inverts.bind_pure_iff {β : Type} (h : Inverts read write fits) {f : α → β} {b : β} {input rest : Bytes}
    : (do return f (← read) : EStateM ε Bytes β) input = .ok b rest
        ↔
      ∃ a, input = write a ++ rest ∧ fits a ∧ f a = b := by
  simp only [bind_eq_ok_iff, pure_eq_ok_iff, h _ _ _]
  constructor
  . rintro ⟨a, _, ⟨rfl, ha⟩, rfl, rfl⟩
    exact ⟨a, rfl, ha, rfl⟩
  . rintro ⟨a, rfl, ha, rfl⟩
    exact ⟨a, rest, ⟨rfl, ha⟩, rfl, rfl⟩

theorem Inverts.repeated_iff (h : Inverts read write fits) {repeated : Nat → EStateM ε Bytes (List α)}
    (hzero : repeated 0 = pure [])
    (hsucc : ∀ n, repeated (n + 1) = do
      let a ← read
      let after ← repeated n
      pure (a :: after))
    {count : Nat} {input rest : Bytes}
    : repeated count input = .ok items rest
        ↔
      items.length = count ∧ input = items.flatMap write ++ rest ∧ ∀ a ∈ items, fits a := by
  induction count generalizing input items rest with
  | zero =>
    rw [hzero, pure_eq_ok_iff, List.length_eq_zero_iff]
    constructor
    . rintro ⟨rfl, rfl⟩
      simp
    . rintro ⟨rfl, hinput, -⟩
      exact ⟨rfl, hinput⟩
  | succ count ih =>
    rw [hsucc]
    simp only [bind_eq_ok_iff, pure_eq_ok_iff, ih, h _ _ _]
    constructor
    . rintro ⟨a, _, ⟨rfl, ha⟩, after, _, ⟨hlength, rfl, hafter⟩, rfl, rfl⟩
      refine ⟨congrArg Nat.succ hlength, ?_, List.forall_mem_cons.2 ⟨ha, hafter⟩⟩
      rw [List.flatMap_cons, List.append_assoc]
    . rintro ⟨hlength, rfl, hitems⟩
      cases items with
      | nil => cases hlength
      | cons a after =>
        obtain ⟨ha, hafter⟩ := List.forall_mem_cons.1 hitems
        refine ⟨a, _, ⟨?_, ha⟩, after, rest, ⟨Nat.succ.inj hlength, rfl, hafter⟩, rfl, rfl⟩
        rw [List.flatMap_cons, List.append_assoc]

end EStateM

namespace Reader

variable {α β : Type} {write : α → Bytes} {read : Reader α} {fits : α → Prop} {items : List α} {a : α}

theorem byte_cons (b : UInt8) (rest : Bytes) : byte (b :: rest) = .ok b rest := by
  rfl

theorem peek_eq_ok {b : UInt8} {input rest : Bytes} (h : peek input = .ok b rest)
    : rest = input ∧ ∃ tail, input = b :: tail := by
  cases input with
  | nil => cases h
  | cons first tail =>
    cases h
    exact ⟨rfl, tail, rfl⟩

theorem byte_eq_ok {b : UInt8} {input rest : Bytes} (h : byte input = .ok b rest) : input = b :: rest := by
  cases input with
  | nil => cases h
  | cons first tail =>
    cases h
    rfl

theorem bytes_eq_ok {count : Nat} {input chunk rest : Bytes} (h : bytes count input = .ok chunk rest)
    : input = chunk ++ rest ∧ chunk.length = count := by
  unfold bytes at h
  split at h
  . cases h
  . next hge =>
    cases h
    rw [List.take_append_drop, List.length_take]
    exact ⟨rfl, Nat.min_eq_left (Nat.not_lt.1 hge)⟩

theorem many_eq_ok_iff (h : EStateM.Inverts read write fits) {count : Nat} {input rest : Bytes}
    : many read count input = .ok items rest
        ↔
      items.length = count ∧ input = items.flatMap write ++ rest ∧ ∀ a ∈ items, fits a :=
  h.repeated_iff rfl fun _ => rfl

theorem decode_of_ok {input : Bytes} (h : read input = .ok a []) : read.decode input = .ok a := by
  unfold decode value
  rw [EStateM.bind_of_ok h]
  rfl

theorem value_eq_ok {input : Bytes} (h : read.value input = .ok a) : ∃ rest, read input = .ok a rest := by
  unfold value at h
  cases hread : read input with
  | ok a' rest =>
    rw [hread] at h
    cases h
    exact ⟨rest, rfl⟩
  | error e rest =>
    rw [hread] at h
    cases h

theorem finish_eq_ok {input rest : Bytes} {u : Unit} (h : finish input = .ok u rest) : input = [] := by
  cases input with
  | nil => rfl
  | cons b tail => cases h

theorem decode_eq_ok {input : Bytes} (h : read.decode input = .ok a) : read input = .ok a [] := by
  obtain ⟨rest, hread⟩ := value_eq_ok h
  obtain ⟨a', left, hvalue, hfinish⟩ := EStateM.of_bind hread
  obtain ⟨u, _, hend, hpure⟩ := EStateM.of_bind hfinish
  cases hpure
  rw [hvalue, finish_eq_ok hend]

theorem decode_eq_ok_iff {input : Bytes} : read.decode input = .ok a ↔ read input = .ok a [] :=
  ⟨decode_eq_ok, decode_of_ok⟩

theorem value_of_error {input left : Bytes} {e : EncodingError} (h : read input = .error e left)
    : read.value input = .error e := by
  unfold value
  rw [h]

theorem decode_of_error {input left : Bytes} {e : EncodingError} (h : read input = .error e left)
    : read.decode input = .error e := by
  exact value_of_error (EStateM.bind_of_error h)

theorem decode_bind_of_ok {f : α → Reader β} {input left : Bytes} (h : read input = .ok a left)
    : (read >>= f).decode input = (f a).decode left := by
  unfold decode value
  rw [bind_assoc, EStateM.bind_of_ok h]

theorem decode_bind_pure (g : α → β) (input : Bytes)
    : (do return g (← read) : Reader β).decode input = g <$> read.decode input := by
  cases hread : read input with
  | error e left =>
    rw [decode_of_error hread, decode_of_error (EStateM.bind_of_error hread)]
    rfl
  | ok a left =>
    rw [decode_bind_of_ok hread]
    unfold decode value
    rw [EStateM.bind_of_ok hread]
    cases left <;> rfl

theorem length_write_le_flatMap (write : α → Bytes) (h : a ∈ items)
    : (write a).length ≤ (items.flatMap write).length := by
  rw [List.flatMap_def]
  exact (List.sublist_flatten_of_mem (List.mem_map_of_mem h)).length_le

theorem length_le_flatMap (items : List α) (h : ∀ a, write a ≠ [])
    : items.length ≤ (items.flatMap write).length := by
  induction items with
  | nil => simp
  | cons a items ih =>
    have := List.length_pos_iff.2 (h a)
    rw [List.flatMap_cons, List.length_append, List.length_cons]
    omega

end Reader

end ReplicatedStore
