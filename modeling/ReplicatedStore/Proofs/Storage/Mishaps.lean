import ReplicatedStore.Proofs.Storage.Sessions

/-!
A log through calls of which any step may fail. As long as no failed call leaves the log out of step with
its files, memory and files agree.
-/

namespace ReplicatedStore

namespace LogStore

def run (log : LogStore) (calls : List LogCall) : LogStore :=
  calls.foldl LogStore.after log

/-- The log is in step with its files: the file under its name is the one that is written to and is as long
as the memory says, and the snapshot in the directory is the one that the memory knows. -/
structure InStep (log : LogStore) : Prop where
  aligned : log.Aligned
  knows : ∃ snapshot, log.Knows snapshot

variable {log : LogStore} {records : List LogEntry} {durable : Bytes} {snapshot : Option Snapshot}

def isAligned (log : LogStore) : Bool :=
  match log.disk.find? logName with
  | some (.file file) =>
    file.id = log.writer.file ∧ file.content.length + log.writer.buffer.length = log.fileLength
  | _ => false

def knowsSnapshot (log : LogStore) : Bool :=
  match readSnapshot log.disk with
  | .ok snapshot _ =>
    log.snapshotIndex = (snapshot.map (·.index)).getD 0 ∧ log.snapshotTerm = (snapshot.map (·.term)).getD 0
  | .error _ _ => false

theorem isAligned_iff : log.isAligned = true ↔ log.Aligned := by
  unfold isAligned Aligned
  cases hfile : log.disk.find? logName with
  | none => simp
  | some entry =>
    cases entry with
    | directory => simp
    | file file =>
      obtain ⟨id, content, durable⟩ := file
      simp only [decide_eq_true_eq, Option.some.injEq, VolumeEntry.file.injEq, StoredFile.mk.injEq]
      constructor
      . rintro ⟨hid, hlength⟩
        exact ⟨content, durable, ⟨hid, rfl, rfl⟩, hlength⟩
      . rintro ⟨_, _, ⟨hid, rfl, rfl⟩, hlength⟩
        exact ⟨hid, hlength⟩

theorem knowsSnapshot_iff : log.knowsSnapshot = true ↔ ∃ snapshot, log.Knows snapshot := by
  unfold knowsSnapshot
  constructor
  . intro h
    rcases readSnapshot_cases log.disk with ⟨snapshot, hreads⟩ | ⟨e, hreads⟩
    . rw [hreads] at h
      have h := of_decide_eq_true h
      exact ⟨snapshot, hreads, h.1, h.2⟩
    . rw [hreads] at h
      cases h
  . rintro ⟨snapshot, hreads, hindex, hterm⟩
    rw [hreads]
    exact decide_eq_true ⟨hindex, hterm⟩

instance (log : LogStore) : Decidable log.InStep :=
  decidable_of_iff (log.isAligned = true ∧ log.knowsSnapshot = true)
    ⟨fun h => ⟨isAligned_iff.1 h.1, knowsSnapshot_iff.1 h.2⟩,
      fun h => ⟨isAligned_iff.2 h.aligned, knowsSnapshot_iff.2 h.knows⟩⟩

theorem run_succ {calls : List LogCall} {k : Nat} (hk : k < calls.length)
    : log.run (calls.take (k + 1)) = (log.run (calls.take k)).after calls[k] := by
  unfold run
  rw [List.take_succ_eq_append_getElem hk, List.foldl_append]
  rfl

theorem run_induction {P : LogStore → Prop} {calls : List LogCall} (h : P log)
    (hafter : ∀ log, P log → ∀ call ∈ calls, (log.after call).InStep → P (log.after call)) {k : Nat}
    (hk : k ≤ calls.length) (hstep : ∀ j ≤ k, (log.run (calls.take j)).InStep)
    : P (log.run (calls.take k)) := by
  induction k with
  | zero => exact h
  | succ k ih =>
    have hbefore := ih (Nat.le_of_succ_le hk) fun j hj => hstep j (Nat.le_succ_of_le hj)
    have hin := hstep (k + 1) (Nat.le_refl _)
    rw [run_succ hk] at hin ⊢
    exact hafter _ hbefore _ (List.getElem_mem hk) hin

theorem Coherent.run (h : log.Coherent records durable) {calls : List LogCall}
    (hrange : ∀ call ∈ calls, call.InRange) {k : Nat} (hk : k ≤ calls.length)
    (hstep : ∀ j ≤ k, (log.run (calls.take j)).InStep)
    : ∃ records' durable', (log.run (calls.take k)).Coherent records' durable' := by
  refine run_induction (P := fun log => ∃ records' durable', log.Coherent records' durable')
    ⟨records, durable, h⟩ ?_ hk hstep
  rintro log ⟨records', durable', hcoherent⟩ call hcall hin
  exact (hcoherent.passes (hrange call hcall)).coherent (.inr hin.aligned)

end LogStore

end ReplicatedStore
