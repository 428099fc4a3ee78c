import ReplicatedStore.KeySpace.TransactionView
import ReplicatedStore.Proofs.KeySpace.Changes
import ReplicatedStore.Proofs.KeySpace.WriteSet

/-!
What a write set stands for: the operations that were recorded in it, one after the other. Their order is gone,
as all removals are performed before all puts, and what it made of each key is kept.
-/

namespace ReplicatedStore

namespace KeyMap

def perform (map : KeyMap) : Operation → Answer × KeyMap
  | .get key => (.value (map.get? key), map)
  | .atLeast min max => (.pair (map.atLeast? min max), map)
  | .atMost max min => (.pair (map.atMost? max min), map)
  | .range range reverse => (.pairs (map.range range reverse), map)
  | .put key value => (.done, map.insert key value)
  | .remove key => (.done, map.filter (· ≠ key))
  | .removeRange range => (.done, map.filter (!range.contains ·))

def performAll (map : KeyMap) : List Operation → List Answer × KeyMap
  | [] => ([], map)
  | operation :: rest =>
    let (answer, map) := map.perform operation
    let (answers, map) := map.performAll rest
    (answer :: answers, map)

end KeyMap

namespace KeyFate

def outcome (fate : KeyFate) (before : Option Bytes) : Option Bytes :=
  match fate with
  | .put value => some value
  | .removed => none
  | .untouched => before

theorem eq_of_outcome {fate fate' : KeyFate} {value : Bytes} (habsent : fate.outcome none = fate'.outcome none)
    (hpresent : fate.outcome (some value) = fate'.outcome (some value))
    : fate = fate' := by
  cases fate <;> cases fate' <;> simp_all [outcome]

end KeyFate

namespace WriteSet

variable {writes : WriteSet}

theorem get?_performOn_or (h : writes.removes.Ordered) (map : KeyMap) (key : Bytes)
    : (writes.performOn map).get? key
        =
      (writes.puts.get? key).or (if writes.removes.contains key then none else map.get? key) := by
  have hremoved : writes.removes.ranges.any (·.contains key) = writes.removes.contains key := by
    rw [Bool.eq_iff_iff, h.contains_iff, List.any_eq_true]
    rfl
  unfold performOn
  rw [KeyMap.get?_insertAll_pairs, get?_foldl_clear_ite, hremoved]

theorem get?_performOn_fate (h : writes.removes.Ordered) (map : KeyMap) (key : Bytes)
    : (writes.performOn map).get? key = (writes.fate key).outcome (map.get? key) := by
  rw [get?_performOn_or h]
  unfold fate
  cases writes.puts.get? key with
  | some value => rfl
  | none => cases writes.removes.contains key <;> rfl

theorem performOn_put (h : writes.removes.Ordered) (map : KeyMap) (key value : Bytes)
    : (writes.put key value).performOn map = (writes.performOn map).insert key value := by
  have hput : (writes.put key value).removes.Ordered := h
  apply KeyMap.ext_get?
  intro k
  rw [get?_performOn_or hput, KeyMap.get?_insert_ite, get?_performOn_or h]
  unfold put
  dsimp only
  rw [KeyMap.get?_insert_ite]
  split <;> rfl

theorem performOn_removeRange (h : writes.removes.Ordered) (map : KeyMap) (range : KeyRange)
    : (writes.removeRange range).performOn map = (writes.performOn map).filter (!range.contains ·) := by
  apply KeyMap.ext_get?
  intro key
  rw [get?_performOn_or (removes_ordered_removeRange h range), KeyMap.get?_filter_ite, get?_performOn_or h]
  unfold removeRange
  cases hempty : range.isEmpty with
  | true =>
    rw [if_pos rfl, KeyRange.contains_of_isEmpty hempty]
    rfl
  | false =>
    have hremoved : (writes.removes.add range).contains key
        = (writes.removes.contains key || range.contains key) := by
      rw [Bool.eq_iff_iff, (h.add range).contains_iff, KeyRanges.covers_add_iff, ← h.contains_iff,
        Bool.or_eq_true]
    rw [if_neg Bool.false_ne_true]
    dsimp only
    rw [KeyMap.get?_filter_ite, hremoved]
    cases range.contains key <;> simp

theorem performOn_remove (h : writes.removes.Ordered) (map : KeyMap) (key : Bytes)
    : (writes.remove key).performOn map = (writes.performOn map).filter (· ≠ key) := by
  have hkeys : (fun k => !(KeyRange.single key).contains k) = fun k => decide (k ≠ key) := by
    funext k
    rw [Bool.eq_iff_iff, decide_eq_true_iff, Bool.not_eq_true', ← Bool.not_eq_true,
      KeyRange.contains_single_iff]
  rw [← hkeys]
  exact performOn_removeRange h map (.single key)

def record (writes : WriteSet) : Operation → WriteSet
  | .put key value => writes.put key value
  | .remove key => writes.remove key
  | .removeRange range => writes.removeRange range
  | _ => writes

def recordAll (operations : List Operation) : WriteSet :=
  operations.foldl record {}

theorem removes_ordered_record (h : writes.removes.Ordered) (operation : Operation)
    : (writes.record operation).removes.Ordered := by
  cases operation with
  | remove key => exact removes_ordered_removeRange h _
  | removeRange range => exact removes_ordered_removeRange h range
  | _ => exact h

theorem performOn_record (h : writes.removes.Ordered) (operation : Operation) (map : KeyMap)
    : (writes.record operation).performOn map = ((writes.performOn map).perform operation).2 := by
  cases operation with
  | put key value => exact performOn_put h map key value
  | remove key => exact performOn_remove h map key
  | removeRange range => exact performOn_removeRange h map range
  | _ => rfl

theorem removes_ordered_foldl_record (h : writes.removes.Ordered) (operations : List Operation)
    : (operations.foldl record writes).removes.Ordered := by
  induction operations generalizing writes with
  | nil => exact h
  | cons operation rest ih => exact ih (removes_ordered_record h operation)

theorem performOn_foldl_record (h : writes.removes.Ordered) (operations : List Operation) (map : KeyMap)
    : (operations.foldl record writes).performOn map = ((writes.performOn map).performAll operations).2 := by
  induction operations generalizing writes with
  | nil => rfl
  | cons operation rest ih =>
    rw [List.foldl_cons, ih (removes_ordered_record h operation), performOn_record h]
    rfl

/-- A write set does what the operations do that were recorded in it, and what it says of a key is what they
do to the key, whatever map they begin on. -/
theorem recordAll_means (operations : List Operation)
    : (∀ map, (recordAll operations).performOn map = (map.performAll operations).2) ∧
        ∀ key fate, (recordAll operations).fate key = fate
          ↔
        ∀ map : KeyMap, (map.performAll operations).2.get? key = fate.outcome (map.get? key) := by
  have hperform : ∀ map, (recordAll operations).performOn map = (map.performAll operations).2 :=
    performOn_foldl_record KeyRanges.ordered_empty operations
  have hordered : (recordAll operations).removes.Ordered :=
    removes_ordered_foldl_record KeyRanges.ordered_empty operations
  refine ⟨hperform, ?_⟩
  intro key fate
  constructor
  . rintro rfl map
    rw [← hperform, get?_performOn_fate hordered]
  . intro houtcome
    have hsame : ∀ map : KeyMap, ((recordAll operations).fate key).outcome (map.get? key)
        = fate.outcome (map.get? key) := by
      intro map
      rw [← get?_performOn_fate hordered, hperform, houtcome]
    have hpresent := hsame (KeyMap.empty.insert key [])
    rw [KeyMap.get?_insert_ite, if_pos rfl] at hpresent
    exact KeyFate.eq_of_outcome (hsame .empty) hpresent

end WriteSet

end ReplicatedStore
