import ReplicatedStore.Proofs.KeySpace.Recording

/-!
What a write set may change: the keys that it puts or removes. A reader is disturbed exactly if it saw one of
them, and a reader that is not disturbed would see the same again.
-/

namespace ReplicatedStore

namespace WriteSet

variable {map : KeyMap} {writes : WriteSet} {reads : KeyRanges} {key : Bytes}

def Touches (writes : WriteSet) (key : Bytes) : Prop :=
  writes.puts.get? key ≠ none ∨ writes.removes.Covers key

theorem mem_keys_iff : key ∈ map.keys ↔ map.get? key ≠ none := by
  unfold KeyMap.keys
  rw [List.mem_map, Option.ne_none_iff_exists']
  constructor
  . rintro ⟨⟨k, value⟩, hmem, rfl⟩
    exact ⟨value, KeyMap.mem_pairs_iff.1 hmem⟩
  . rintro ⟨value, hvalue⟩
    exact ⟨(key, value), KeyMap.mem_pairs_iff.2 hvalue, rfl⟩

theorem covers_touched_iff : writes.touched.Covers key ↔ writes.Touches key := by
  unfold touched Touches
  rw [KeyRanges.covers_foldl_insert_iff, mem_keys_iff, or_comm]

theorem fate_eq_untouched_iff (h : writes.removes.Ordered)
    : writes.fate key = .untouched ↔ ¬ writes.Touches key := by
  unfold fate Touches
  rw [← h.contains_iff]
  cases writes.puts.get? key with
  | some value => simp
  | none => simp

theorem get?_performOn_of_not_touches (h : ¬ writes.Touches key)
    : (writes.performOn map).get? key = map.get? key := by
  obtain ⟨hput, hremoved⟩ := not_or.1 h
  have hnone : writes.removes.ranges.any (·.contains key) = false := by
    rw [← Bool.not_eq_true, List.any_eq_true]
    exact hremoved
  unfold performOn
  rw [KeyMap.get?_insertAll_pairs, get?_foldl_clear_ite, Decidable.not_not.1 hput, hnone]
  rfl

theorem disturbs_of_put (hput : writes.puts.get? key ≠ none) (hreads : reads.contains key = true)
    : writes.disturbs reads = true := by
  obtain ⟨r, hr⟩ := Option.isSome_iff_exists.1 hreads
  unfold disturbs
  rw [KeyRanges.isEmpty_of_mem (KeyRanges.containing?_eq_some hr).1, Bool.not_false, Bool.true_and,
    Bool.or_eq_true]
  left
  rw [List.any_eq_true]
  exact ⟨key, mem_keys_iff.2 hput, hreads⟩

theorem disturbs_of_removed (hremoved : writes.removes.Covers key) (hreads : reads.Covers key)
    : writes.disturbs reads = true := by
  obtain ⟨r, hr, -⟩ := id hreads
  unfold disturbs
  rw [KeyRanges.isEmpty_of_mem hr, Bool.not_false, Bool.true_and, Bool.or_eq_true]
  right
  exact KeyRanges.meets_iff.2 ⟨key, hremoved, hreads⟩

theorem disturbs_iff (hreads : reads.Ordered)
    : writes.disturbs reads = true ↔ ∃ key, reads.Covers key ∧ writes.Touches key := by
  constructor
  . intro h
    unfold disturbs at h
    rw [Bool.and_eq_true, Bool.or_eq_true, List.any_eq_true, KeyRanges.meets_iff] at h
    rcases h.2 with ⟨key, hkey, hread⟩ | ⟨key, hremoved, hread⟩
    . exact ⟨key, hreads.contains_iff.1 hread, .inl (mem_keys_iff.1 hkey)⟩
    . exact ⟨key, hread, .inr hremoved⟩
  . rintro ⟨key, hread, hput | hremoved⟩
    . exact disturbs_of_put hput (hreads.contains_iff.2 hread)
    . exact disturbs_of_removed hremoved hread

theorem get?_performOn (hreads : reads.Ordered) (hcovers : reads.Covers key)
    (h : writes.disturbs reads = false)
    : (writes.performOn map).get? key = map.get? key := by
  apply get?_performOn_of_not_touches
  intro htouches
  rw [(disturbs_iff hreads).2 ⟨key, hcovers, htouches⟩] at h
  cases h

/-- The commit of a replicated store and that of a standalone one, which looks for the reads among the keys
that were touched, refuse the same writes: those that put or remove a key that was read. -/
theorem disturbs_exact (operations : List Operation) (ranges : List KeyRange)
    : ((recordAll operations).disturbs (.ofList ranges) = true
          ↔ (recordAll operations).touched.meets (.ofList ranges) = true) ∧
        ((recordAll operations).disturbs (.ofList ranges) = true
          ↔ ∃ key, (KeyRanges.ofList ranges).contains key = true ∧
              (recordAll operations).fate key ≠ .untouched) ∧
        ((recordAll operations).disturbs (.ofList ranges) = false →
          ∀ (map : KeyMap) key, (KeyRanges.ofList ranges).contains key = true →
            ((recordAll operations).performOn map).get? key = map.get? key) := by
  have hreads := KeyRanges.ordered_ofList ranges
  have hremoves : (recordAll operations).removes.Ordered :=
    removes_ordered_foldl_record KeyRanges.ordered_empty operations
  rw [disturbs_iff hreads]
  refine ⟨?_, ?_, ?_⟩
  . rw [KeyRanges.meets_iff]
    simp only [covers_touched_iff, and_comm]
  . simp only [hreads.contains_iff, ne_eq, fate_eq_untouched_iff hremoves, not_not]
  . intro hundisturbed map key hkey
    exact get?_performOn hreads (hreads.contains_iff.1 hkey) hundisturbed

namespace Adjacent

-- A key that is put, and a range without an end that is removed.
def operations : List Operation :=
  [.put [5] [1], .removeRange ⟨[8], none⟩]

-- The range up to the key and the one from the next key on, up to the range that is removed.
def ranges : List KeyRange :=
  [⟨[5, 0], some [8]⟩, ⟨[2], some [5]⟩]

end Adjacent

theorem disturbs_exact_adjacent
    : (recordAll Adjacent.operations).disturbs (.ofList Adjacent.ranges) = false ∧
        ∀ (map : KeyMap) key, (KeyRanges.ofList Adjacent.ranges).contains key = true →
          ((recordAll Adjacent.operations).performOn map).get? key = map.get? key := by
  have hundisturbed : (recordAll Adjacent.operations).disturbs (.ofList Adjacent.ranges) = false := by
    decide +kernel
  exact ⟨hundisturbed, (disturbs_exact Adjacent.operations Adjacent.ranges).2.2 hundisturbed⟩

end WriteSet

end ReplicatedStore
