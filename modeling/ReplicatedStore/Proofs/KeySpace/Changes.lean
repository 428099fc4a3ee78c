import Mathlib.Data.List.Nodup
import ReplicatedStore.KeySpace.WriteSet
import ReplicatedStore.Proofs.KeySpace.KeyRanges

/-!
The value of a key after writes: what is left of a map when pairs are put and ranges are removed.
-/

namespace ReplicatedStore

namespace KeyMap

variable {map map' : KeyMap} {key k value : Bytes} {pairs : List Pair} {p : Bytes → Bool}

theorem mem_pairs_iff : (key, value) ∈ map.pairs ↔ map.get? key = some value := by
  unfold get?
  rw [List.lookup_eq_some_iff]
  constructor
  . intro h
    obtain ⟨before, after, hsplit⟩ := List.append_of_mem h
    refine ⟨before, after, hsplit, ?_⟩
    intro q hq
    have hsorted := map.sorted
    rw [hsplit] at hsorted
    have hlt := (List.pairwise_append.1 hsorted).2.2 q hq _ List.mem_cons_self
    rw [bne_iff_ne]
    rintro rfl
    exact absurd hlt Std.lt_irrefl
  . rintro ⟨before, after, hsplit, -⟩
    rw [hsplit]
    exact List.mem_append_right _ List.mem_cons_self

theorem nodup_pairs (map : KeyMap) : map.pairs.Nodup := by
  apply map.sorted.imp
  intro a b hlt heq
  rw [heq] at hlt
  exact absurd hlt Std.lt_irrefl

theorem filter_congr (h : ∀ key, p key = true → map.get? key = map'.get? key)
    : map.filter p = map'.filter p := by
  have hmem : ∀ q : Pair, q ∈ (map.filter p).pairs ↔ q ∈ (map'.filter p).pairs := by
    rintro ⟨key, value⟩
    unfold filter
    rw [List.mem_filter, List.mem_filter]
    apply and_congr_left
    intro hkey
    rw [mem_pairs_iff, mem_pairs_iff, h key hkey]
  have hperm : (map.filter p).pairs.Perm (map'.filter p).pairs :=
    (List.perm_ext_iff_of_nodup (nodup_pairs _) (nodup_pairs _)).2 hmem
  have hpairs : (map.filter p).pairs = (map'.filter p).pairs := by
    apply hperm.eq_of_pairwise _ (map.filter p).sorted (map'.filter p).sorted
    intro a b _ _ hlt hgt
    exact absurd (Std.lt_trans hlt hgt) Std.lt_irrefl
  cases hm : map.filter p
  cases hm' : map'.filter p
  rw [hm, hm'] at hpairs
  simpa using hpairs

theorem within_eq (map : KeyMap) (range : KeyRange)
    : map.within range = (map.filter range.contains).pairs := by
  rfl

theorem get?_filter (h : p key = true) : (map.filter p).get? key = map.get? key := by
  apply Option.ext
  intro value
  rw [← mem_pairs_iff, ← mem_pairs_iff]
  unfold filter
  rw [List.mem_filter]
  exact and_iff_left h

theorem lookup_place (h : key ≠ k) : (place k value pairs).lookup key = pairs.lookup key := by
  have hk : (key == k) = false := by simpa using h
  induction pairs with
  | nil => simp [place, List.lookup_cons, hk]
  | cons q rest ih =>
    obtain ⟨k', v'⟩ := q
    unfold place
    split
    . simp [List.lookup_cons, hk]
    . split
      . next heq => simp [List.lookup_cons, hk, ← heq]
      . rw [List.lookup_cons, List.lookup_cons, ih]

theorem get?_insert (h : key ≠ k) : (map.insert k value).get? key = map.get? key :=
  lookup_place h

theorem ext_get? (h : ∀ key, map.get? key = map'.get? key) : map = map' := by
  have hall : ∀ m : KeyMap, m.filter (fun _ => true) = m := by
    intro m
    unfold filter
    simp
  rw [← hall map, ← hall map']
  exact filter_congr fun key _ => h key

theorem get?_filter_ite (map : KeyMap) (p : Bytes → Bool) (key : Bytes)
    : (map.filter p).get? key = if p key then map.get? key else none := by
  split
  . next h => exact get?_filter h
  . next h =>
    rw [Option.eq_none_iff_forall_ne_some]
    intro value hvalue
    rw [← mem_pairs_iff] at hvalue
    exact h (List.mem_filter.1 hvalue).2

theorem lookup_place_self (key value : Bytes) (pairs : List Pair)
    : (place key value pairs).lookup key = some value := by
  induction pairs with
  | nil => simp [place]
  | cons q rest ih =>
    obtain ⟨k, v⟩ := q
    unfold place
    split
    . simp
    . split
      . simp
      . next hlt hne =>
        have hk : (key == k) = false := by simpa using hne
        rw [List.lookup_cons, hk]
        exact ih

theorem get?_insert_ite (map : KeyMap) (key k value : Bytes)
    : (map.insert k value).get? key = if key = k then some value else map.get? key := by
  split
  . next h =>
    rw [h]
    exact lookup_place_self k value map.pairs
  . next h => exact get?_insert h

theorem get?_insertAll_lookup (hsorted : pairs.Pairwise (fun a b => a.1 < b.1))
    : (map.insertAll pairs).get? key = (pairs.lookup key).or (map.get? key) := by
  induction pairs generalizing map with
  | nil => rfl
  | cons q rest ih =>
    obtain ⟨k, v⟩ := q
    obtain ⟨hk, hrest⟩ := List.pairwise_cons.1 hsorted
    have hstep : map.insertAll ((k, v) :: rest) = (map.insert k v).insertAll rest := rfl
    rw [hstep, ih hrest, get?_insert_ite, List.lookup_cons]
    split
    . next heq =>
      have hnone : rest.lookup key = none := by
        rw [List.lookup_eq_none_iff]
        intro q hq
        rw [heq]
        simpa using (Std.ne_of_lt (hk q hq))
      rw [hnone, heq]
      simp
    . next hne =>
      have hkey : (key == k) = false := by simpa using hne
      rw [hkey]

theorem get?_insertAll_pairs (map other : KeyMap) (key : Bytes)
    : (map.insertAll other.pairs).get? key = (other.get? key).or (map.get? key) :=
  get?_insertAll_lookup other.sorted

end KeyMap

namespace WriteSet

theorem get?_foldl_clear_ite (ranges : List KeyRange) (map : KeyMap) (key : Bytes)
    : (ranges.foldl clear map).get? key = if ranges.any (·.contains key) then none else map.get? key := by
  induction ranges generalizing map with
  | nil => rfl
  | cons r rest ih =>
    rw [List.foldl_cons, ih, List.any_cons, clear, KeyMap.get?_filter_ite]
    cases r.contains key <;> cases rest.any (·.contains key) <;> rfl

end WriteSet

end ReplicatedStore
