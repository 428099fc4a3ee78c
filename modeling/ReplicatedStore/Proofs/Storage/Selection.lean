import ReplicatedStore.Proofs.Storage.Scanning

/-!
Which of the records in a file belong to the log: those behind the snapshot, numbered without a gap,
with older ones anywhere between them.
-/

namespace ReplicatedStore

namespace LogStore

inductive Selects (base : Nat) : Nat → List (Nat × LogEntry) → List (Nat × LogEntry) → Prop where
  | nil {count} : Selects base count [] []
  | skip {count r rest kept} (index : r.2.index ≤ base) (tail : Selects base count rest kept)
    : Selects base count (r :: rest) kept
  | keep {count r rest kept} (index : r.2.index = base + count + 1)
      (tail : Selects base (count + 1) rest kept)
    : Selects base count (r :: rest) (r :: kept)

variable {base count : Nat} {records kept : List (Nat × LogEntry)}

theorem selects_of_select (h : select base count records = .ok kept) : Selects base count records kept := by
  induction records generalizing count kept with
  | nil =>
    cases h
    exact .nil
  | cons r rest ih =>
    unfold select at h
    dsimp only at h
    split at h
    . next hle => exact .skip hle (ih h)
    . split at h
      . cases h
      . next hindex =>
        cases htail : select base (count + 1) rest with
        | error e =>
          rw [htail] at h
          cases h
        | ok tail =>
          rw [htail] at h
          cases h
          exact .keep (Decidable.not_not.1 hindex) (ih htail)

namespace Selects

theorem select (h : Selects base count records kept) : select base count records = .ok kept := by
  induction h with
  | nil => rfl
  | skip hle _ ih =>
    unfold LogStore.select
    rw [if_pos hle, ih]
  | keep hindex _ ih =>
    unfold LogStore.select
    rw [if_neg (by omega), if_neg (by omega), ih]
    rfl

theorem follows (h : Selects base count records kept) : Follows (base + count) (kept.map (·.2)) := by
  induction h with
  | nil => trivial
  | skip _ _ ih => exact ih
  | keep hindex _ ih => exact ⟨hindex, ih⟩

theorem sublist (h : Selects base count records kept) : kept.Sublist records := by
  induction h with
  | nil => exact .slnil
  | skip _ _ ih => exact ih.cons _
  | keep _ _ ih => exact ih.cons_cons _

theorem append {records' kept' : List (Nat × LogEntry)} (h : Selects base count records kept)
    (h' : Selects base (count + kept.length) records' kept')
    : Selects base count (records ++ records') (kept ++ kept') := by
  induction h with
  | nil => exact h'
  | skip hle _ ih => exact .skip hle (ih h')
  | keep hindex _ ih =>
    refine .keep hindex (ih ?_)
    rw [List.length_cons] at h'
    rwa [Nat.add_assoc, Nat.add_comm 1]

theorem take (h : Selects base count records kept) (n : Nat)
    : ∃ m, Selects base count (records.take n) (kept.take m) ∧
        (records.length ≤ n → kept.take m = kept) := by
  induction h generalizing n with
  | nil => exact ⟨0, by rw [List.take_nil]; exact .nil, fun _ => rfl⟩
  | skip hle _ ih =>
    cases n with
    | zero => exact ⟨0, .nil, by simp⟩
    | succ n =>
      obtain ⟨m, hm, hall⟩ := ih n
      exact ⟨m, .skip hle hm, fun h => hall (Nat.le_of_succ_le_succ h)⟩
  | keep hindex _ ih =>
    cases n with
    | zero => exact ⟨0, .nil, by simp⟩
    | succ n =>
      obtain ⟨m, hm, hall⟩ := ih n
      refine ⟨m + 1, .keep hindex hm, ?_⟩
      intro h
      rw [List.take_succ_cons, hall (Nat.le_of_succ_le_succ h)]

theorem before (h : Selects base count records kept) {p : Nat} (hp : p < kept.length)
    : ∃ n, ∃ hn : n < records.length, records[n] = kept[p] ∧
        Selects base count (records.take n) (kept.take p) := by
  induction h generalizing p with
  | nil => cases hp
  | skip hle _ ih =>
    obtain ⟨n, hn, hget, hm⟩ := ih hp
    exact ⟨n + 1, Nat.succ_lt_succ hn, hget, .skip hle hm⟩
  | keep hindex _ ih =>
    cases p with
    | zero => exact ⟨0, Nat.zero_lt_succ _, rfl, .nil⟩
    | succ p =>
      obtain ⟨n, hn, hget, hm⟩ := ih (Nat.lt_of_succ_lt_succ hp)
      exact ⟨n + 1, Nat.succ_lt_succ hn, hget, .keep hindex hm⟩

theorem raise {index : Nat} (h : Selects base count records kept) (hle : base ≤ index)
    : Selects index (base + count - index) records (kept.filter (index < ·.2.index)) := by
  induction h with
  | nil => exact .nil
  | skip hlow _ ih => exact .skip (Nat.le_trans hlow hle) ih
  | @keep count r rest kept hindex _ ih =>
    by_cases hlt : index < r.2.index
    . rw [List.filter_cons_of_pos (by simpa using hlt)]
      rw [show base + (count + 1) - index = base + count - index + 1 by omega] at ih
      exact .keep (by omega) ih
    . rw [List.filter_cons_of_neg (by simpa using hlt)]
      rw [show base + (count + 1) - index = base + count - index by omega] at ih
      exact .skip (by omega) ih

end Selects

theorem selects_layout {entries : List LogEntry} (start : Nat) (h : Follows (base + count) entries)
    : Selects base count (LogRecord.layout start entries) (LogRecord.layout start entries) := by
  induction entries generalizing count start with
  | nil => exact .nil
  | cons e rest ih => exact .keep h.1 (ih _ h.2)

end LogStore

end ReplicatedStore
