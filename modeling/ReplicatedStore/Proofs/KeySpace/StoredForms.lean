import ReplicatedStore.Proofs.KeySpace.Recording

/-!
What is stored of write sets and maps comes back as it was, and what comes back from other bytes can be stored:
putting the ranges and pairs that were read into their order makes no length greater.
-/

namespace ReplicatedStore

open VarInt (Counted)

namespace KeyRanges

variable {P : KeyRange → Prop} {set : KeyRanges} {ranges : List KeyRange}

theorem length_add_le (set : KeyRanges) (range : KeyRange)
    : (set.add range).ranges.length ≤ set.ranges.length + 1 := by
  cases hempty : range.isEmpty with
  | true =>
    rw [add_of_isEmpty hempty]
    exact Nat.le_succ _
  | false =>
    have hapart := (absorb_sublist range set.ranges).length_le
    rw [add_ranges hempty, List.length_append, List.length_cons, ← Nat.add_assoc, ← List.length_append,
      List.takeWhile_append_dropWhile]
    exact Nat.succ_le_succ hapart

theorem counted_foldl_add (hunion : ∀ a b : KeyRange, P a → P b → P (a.union b))
    (h : Counted P (set.ranges ++ ranges))
    : Counted P (ranges.foldl add set).ranges := by
  induction ranges generalizing set with
  | nil => simpa using h
  | cons r rest ih =>
    obtain ⟨hcount, heach⟩ := h
    obtain ⟨hset, hr, hrest⟩ : (∀ r ∈ set.ranges, P r) ∧ P r ∧ ∀ r ∈ rest, P r := by
      simpa only [List.forall_mem_append, List.forall_mem_cons] using heach
    have hlength := length_add_le set r
    apply ih
    constructor
    . rw [List.length_append, List.length_cons] at hcount
      rw [List.length_append]
      omega
    . exact List.forall_mem_append.2 ⟨add_closed hunion hr hset, hrest⟩

end KeyRanges

namespace KeyMap

variable {P : Pair → Prop} {map : KeyMap} {pairs : List Pair}

theorem length_place_le (key value : Bytes) (pairs : List Pair)
    : (place key value pairs).length ≤ pairs.length + 1 := by
  induction pairs with
  | nil => exact Nat.le_refl _
  | cons pair rest ih =>
    unfold place
    split
    . exact Nat.le_refl _
    . split
      . exact Nat.le_succ _
      . exact Nat.succ_le_succ ih

theorem counted_insertAll (h : Counted P (map.pairs ++ pairs)) : Counted P (map.insertAll pairs).pairs := by
  unfold insertAll
  induction pairs generalizing map with
  | nil => simpa using h
  | cons pair rest ih =>
    obtain ⟨hcount, heach⟩ := h
    obtain ⟨hmap, hpair, hrest⟩ : (∀ p ∈ map.pairs, P p) ∧ P pair ∧ ∀ p ∈ rest, P p := by
      simpa only [List.forall_mem_append, List.forall_mem_cons] using heach
    have hlength := length_place_le pair.1 pair.2 map.pairs
    apply ih
    constructor
    . rw [List.length_append, List.length_cons] at hcount
      rw [List.length_append]
      unfold insert
      dsimp only
      omega
    . refine List.forall_mem_append.2 ⟨?_, hrest⟩
      intro p hp
      rcases mem_place hp with rfl | hp
      . exact hpair
      . exact hmap p hp

end KeyMap

namespace WriteSet

variable {writes : WriteSet}

theorem rangeFits_union (a b : KeyRange) (ha : RangeFits a) (hb : RangeFits b) : RangeFits (a.union b) := by
  obtain ⟨min, max⟩ := a
  obtain ⟨min', max'⟩ := b
  obtain ⟨hmin, hmax⟩ := ha
  obtain ⟨hmin', hmax'⟩ := hb
  unfold KeyRange.union
  constructor
  . dsimp only
    split
    . exact hmin'
    . exact hmin
  . intro stop hstop
    cases max with
    | none => cases hstop
    | some x =>
      cases max' with
      | none => cases hstop
      | some y =>
        cases hstop
        split
        . exact hmax' y rfl
        . exact hmax x rfl

theorem decode_fits {input : Bytes} (h : decode input = .ok writes) : writes.removes.Ordered ∧ writes.Fits := by
  obtain ⟨removes, puts, -, hremoves, hputs, rfl⟩ := decode_iff.1 h
  exact ⟨KeyRanges.ordered_ofList removes, KeyRanges.counted_foldl_add rangeFits_union hremoves,
    KeyMap.counted_insertAll hputs⟩

/-- Write sets and maps come back from their stored forms. Bytes that are read as a write set need not be its
stored form, but those that are read as a map are. -/
theorem stored_forms
    : (∀ operations, (recordAll operations).Fits →
          decode (recordAll operations).encode = .ok (recordAll operations)) ∧
        (∀ input writes, decode input = .ok writes →
          writes.removes.Ordered ∧ decode writes.encode = .ok writes) ∧
        (∀ map : KeyMap, map.Fits → KeyMap.decode map.encode = .ok map) ∧
        ∀ input map, input ≠ [] → KeyMap.decode input = .ok map → input = map.encode := by
  refine ⟨?_, ?_, fun _ => KeyMap.decode_encode, ?_⟩
  . intro operations hfits
    exact decode_encode (removes_ordered_foldl_record KeyRanges.ordered_empty operations) hfits
  . intro input writes hdecode
    obtain ⟨hordered, hfits⟩ := decode_fits hdecode
    exact ⟨hordered, decode_encode hordered hfits⟩
  . intro input map hinput hdecode
    rcases KeyMap.decode_iff.1 hdecode with ⟨hnil, -⟩ | ⟨hencode, -⟩
    . exact absurd hnil hinput
    . exact hencode

namespace Unordered

def input : Bytes :=
  [2] ++ [1, 5, 0] ++ [1, 3, 1, 1, 5] ++ [1] ++ [1, 4] ++ [2, 7, 8]

def result : WriteSet where
  removes := ⟨[⟨[3], none⟩]⟩
  puts := .ofList [([4], [7, 8])]

def operations : List Operation :=
  [.put [9] [], .removeRange ⟨[5], none⟩, .removeRange ⟨[3], some [5]⟩, .put [4] [7, 8]]

end Unordered

theorem stored_forms_unordered
    : decode (recordAll Unordered.operations).encode = .ok Unordered.result ∧
        decode Unordered.input = .ok Unordered.result ∧ Unordered.result.encode ≠ Unordered.input ∧
        decode Unordered.result.encode = .ok Unordered.result ∧
        KeyMap.decode Unordered.result.puts.encode = .ok Unordered.result.puts ∧
        [1] ++ [1, 4] ++ [2, 7, 8] = Unordered.result.puts.encode := by
  obtain ⟨hrecorded, hread, hmap, hcanonical⟩ := stored_forms
  have hdecode : decode Unordered.input = .ok Unordered.result := by decide +kernel
  have hmapRead : KeyMap.decode ([1] ++ [1, 4] ++ [2, 7, 8]) = .ok Unordered.result.puts := by decide +kernel
  refine ⟨?_, hdecode, by decide +kernel, (hread _ _ hdecode).2, ?_, ?_⟩
  . exact hrecorded Unordered.operations (fits_of_length (by decide +kernel))
  . exact hmap _ (KeyMap.fits_of_length (by decide +kernel))
  . exact hcanonical _ _ (List.cons_ne_nil _ _) hmapRead

end WriteSet

end ReplicatedStore
