import Mathlib.Data.List.TakeWhile
import ReplicatedStore.KeySpace.KeyRanges
import ReplicatedStore.Proofs.KeySpace.KeyRange

/-!
Sets that are built range by range: their ranges stay in order and apart, so that the binary search finds
every key that was added.
-/

namespace ReplicatedStore

namespace KeyRanges

open KeyRange

def Covers (set : KeyRanges) (key : Bytes) : Prop :=
  ∃ r ∈ set.ranges, r.contains key = true

structure Ordered (set : KeyRanges) : Prop where
  apart : set.ranges.Pairwise Before
  proper : ∀ r ∈ set.ranges, r.isEmpty = false

variable {set : KeyRanges} {merged range r : KeyRange} {ranges : List KeyRange} {key : Bytes}
  {P : KeyRange → Prop}

theorem ordered_empty : Ordered {} where
  apart := .nil
  proper := by simp

theorem absorb_of_apart (h : ∀ r ∈ ranges, r.Before merged ∨ merged.Before r)
    : absorb merged ranges = (merged, ranges) := by
  induction ranges with
  | nil => rfl
  | cons r rest ih =>
    have hr : r.touches merged = false := touches_eq_false_iff.2 (h r List.mem_cons_self)
    unfold absorb
    rw [hr, ih]
    . rfl
    . intro r' hr'
      exact h r' (List.mem_cons_of_mem _ hr')

theorem Before.absorb (hm : r.Before merged) (h : ∀ r' ∈ ranges, r.Before r')
    : r.Before (absorb merged ranges).1 := by
  induction ranges generalizing merged with
  | nil => exact hm
  | cons r' rest ih =>
    have hrest : ∀ r'' ∈ rest, r.Before r'' := by
      intro r'' hr''
      exact h r'' (List.mem_cons_of_mem _ hr'')
    unfold KeyRanges.absorb
    split
    . exact ih (hm.union (h r' List.mem_cons_self)) hrest
    . exact ih hm hrest

theorem absorb_closed (hunion : ∀ a b : KeyRange, P a → P b → P (a.union b)) (hrange : P range)
    (hranges : ∀ r ∈ ranges, P r)
    : P (absorb range ranges).1 := by
  induction ranges generalizing range with
  | nil => exact hrange
  | cons r rest ih =>
    obtain ⟨hr, hrest⟩ := List.forall_mem_cons.1 hranges
    unfold absorb
    split
    . exact ih (hunion _ _ hrange hr) hrest
    . exact ih hrange hrest

theorem absorb_sublist (merged : KeyRange) (ranges : List KeyRange)
    : (absorb merged ranges).2.Sublist ranges := by
  induction ranges generalizing merged with
  | nil => exact .slnil
  | cons r rest ih =>
    unfold absorb
    split
    . exact (ih _).cons r
    . exact (ih _).cons_cons r

theorem absorb_apart (hapart : ranges.Pairwise Before) (hproper : ∀ r ∈ ranges, r.isEmpty = false)
    : ∀ r ∈ (absorb merged ranges).2,
        r.Before (absorb merged ranges).1 ∨ (absorb merged ranges).1.Before r := by
  induction ranges generalizing merged with
  | nil => simp [absorb]
  | cons r rest ih =>
    obtain ⟨hr, hrest⟩ := List.pairwise_cons.1 hapart
    have hproper' : ∀ r' ∈ rest, r'.isEmpty = false := by
      intro r' hr'
      exact hproper r' (List.mem_cons_of_mem _ hr')
    unfold absorb
    split
    . exact ih hrest hproper'
    . next htouches =>
      intro r' hr'
      rcases List.mem_cons.1 hr' with rfl | hr'
      . rcases touches_eq_false_iff.1 (Bool.eq_false_iff.2 htouches) with hbefore | hafter
        . exact .inl (Before.absorb hbefore hr)
        . right
          rw [absorb_of_apart]
          . exact hafter
          . intro r'' hr''
            exact .inr (hafter.trans (hr r'' hr'') (hproper _ List.mem_cons_self))
      . exact ih hrest hproper' r' hr'

theorem covers_absorb
    (h : merged.contains key = true ∨ ∃ r ∈ ranges, r.contains key = true)
    : (absorb merged ranges).1.contains key = true ∨
        ∃ r ∈ (absorb merged ranges).2, r.contains key = true := by
  induction ranges generalizing merged with
  | nil =>
    rcases h with h | ⟨r, hr, _⟩
    . exact .inl h
    . cases hr
  | cons r rest ih =>
    unfold absorb
    split
    . apply ih
      rcases h with h | ⟨r', hr', h⟩
      . exact .inl (contains_union (.inl h))
      . rcases List.mem_cons.1 hr' with rfl | hr'
        . exact .inl (contains_union (.inr h))
        . exact .inr ⟨r', hr', h⟩
    . by_cases hr : r.contains key = true
      . exact .inr ⟨r, List.mem_cons_self, hr⟩
      . have h' : merged.contains key = true ∨ ∃ r ∈ rest, r.contains key = true := by
          rcases h with h | ⟨r', hr', h⟩
          . exact .inl h
          . rcases List.mem_cons.1 hr' with rfl | hr'
            . exact absurd h hr
            . exact .inr ⟨r', hr', h⟩
        rcases ih h' with h | ⟨r', hr', h⟩
        . exact .inl h
        . exact .inr ⟨r', List.mem_cons_of_mem _ hr', h⟩

theorem covers_of_absorb
    (h : (absorb merged ranges).1.contains key = true ∨ ∃ r ∈ (absorb merged ranges).2, r.contains key = true)
    : merged.contains key = true ∨ ∃ r ∈ ranges, r.contains key = true := by
  induction ranges generalizing merged with
  | nil => exact h
  | cons r rest ih =>
    unfold absorb at h
    split at h
    . next htouches =>
      rcases ih h with hunion | ⟨r', hr', hkey⟩
      . have hswap : merged.touches r = true := by
          unfold KeyRange.touches at htouches ⊢
          rwa [Bool.and_comm]
        rcases KeyRange.contains_of_union hswap hunion with hkey | hkey
        . exact .inl hkey
        . exact .inr ⟨r, List.mem_cons_self, hkey⟩
      . exact .inr ⟨r', List.mem_cons_of_mem _ hr', hkey⟩
    . dsimp only at h
      rcases h with hkey | ⟨r', hr', hkey⟩
      . rcases ih (.inl hkey) with hkey | ⟨r', hr', hkey⟩
        . exact .inl hkey
        . exact .inr ⟨r', List.mem_cons_of_mem _ hr', hkey⟩
      . rcases List.mem_cons.1 hr' with rfl | hr'
        . exact .inr ⟨r', List.mem_cons_self, hkey⟩
        . rcases ih (.inr ⟨r', hr', hkey⟩) with hkey | ⟨r'', hr'', hkey⟩
          . exact .inl hkey
          . exact .inr ⟨r'', List.mem_cons_of_mem _ hr'', hkey⟩

theorem add_of_isEmpty (h : range.isEmpty = true) : set.add range = set := by
  unfold add
  rw [if_pos h]

theorem add_ranges (h : range.isEmpty = false)
    : (set.add range).ranges
        =
      (absorb range set.ranges).2.takeWhile (·.min < (absorb range set.ranges).1.min) ++
        (absorb range set.ranges).1 ::
          (absorb range set.ranges).2.dropWhile (·.min < (absorb range set.ranges).1.min) := by
  unfold add
  rw [h]
  rfl

theorem add_closed (hunion : ∀ a b : KeyRange, P a → P b → P (a.union b)) (hrange : P range)
    (hset : ∀ r ∈ set.ranges, P r)
    : ∀ r ∈ (set.add range).ranges, P r := by
  cases hempty : range.isEmpty with
  | true =>
    rw [add_of_isEmpty hempty]
    exact hset
  | false =>
    have hapart : ∀ r ∈ (absorb range set.ranges).2, P r := by
      intro r hr
      exact hset r ((absorb_sublist range set.ranges).subset hr)
    rw [add_ranges hempty]
    intro r hr
    rcases List.mem_append.1 hr with hr | hr
    . exact hapart r ((List.takeWhile_sublist _).subset hr)
    . rcases List.mem_cons.1 hr with rfl | hr
      . exact absorb_closed hunion hrange hset
      . exact hapart r ((List.dropWhile_sublist _).subset hr)

theorem covers_add (h : set.Covers key ∨ range.contains key = true) : (set.add range).Covers key := by
  cases hempty : range.isEmpty with
  | true =>
    rw [add_of_isEmpty hempty]
    rcases h with h | h
    . exact h
    . rw [contains_of_isEmpty hempty] at h
      cases h
  | false =>
    unfold Covers
    rw [add_ranges hempty]
    rcases covers_absorb (h.symm) with h | ⟨r, hr, h⟩
    . exact ⟨_, List.mem_append_right _ List.mem_cons_self, h⟩
    . refine ⟨r, ?_, h⟩
      rw [← List.takeWhile_append_dropWhile
        (p := fun r : KeyRange => r.min < (absorb range set.ranges).1.min)
        (l := (absorb range set.ranges).2)] at hr
      rcases List.mem_append.1 hr with hr | hr
      . exact List.mem_append_left _ hr
      . exact List.mem_append_right _ (List.mem_cons_of_mem _ hr)

theorem covers_add_iff : (set.add range).Covers key ↔ set.Covers key ∨ range.contains key = true := by
  constructor
  . intro h
    cases hempty : range.isEmpty with
    | true =>
      rw [add_of_isEmpty hempty] at h
      exact .inl h
    | false =>
      obtain ⟨r, hr, hkey⟩ := h
      rw [add_ranges hempty] at hr
      apply Or.symm
      apply covers_of_absorb
      rcases List.mem_append.1 hr with hr | hr
      . exact .inr ⟨r, (List.takeWhile_sublist _).subset hr, hkey⟩
      . rcases List.mem_cons.1 hr with rfl | hr
        . exact .inl hkey
        . exact .inr ⟨r, (List.dropWhile_sublist _).subset hr, hkey⟩
  . exact covers_add

theorem place_apart (hapart : ranges.Pairwise Before) (hproper : ∀ r ∈ ranges, r.isEmpty = false)
    (hr : r.isEmpty = false) (h : ∀ r' ∈ ranges, r'.Before r ∨ r.Before r')
    : (ranges.takeWhile (·.min < r.min) ++ r :: ranges.dropWhile (·.min < r.min)).Pairwise
        Before := by
  have hbelow : ∀ r' ∈ ranges, r'.min < r.min → r'.Before r := by
    intro r' hr' hlt
    rcases h r' hr' with hbefore | hafter
    . exact hbefore
    . exact absurd (lt_of_before hafter hr) (Std.not_lt.2 (Std.le_of_lt hlt))
  have habove : ∀ r' ∈ ranges, ¬ r'.min < r.min → r.Before r' := by
    intro r' hr' hle
    rcases h r' hr' with hbefore | hafter
    . exact absurd (lt_of_before hbefore (hproper r' hr')) hle
    . exact hafter
  induction ranges with
  | nil => exact List.pairwise_singleton _ _
  | cons r' rest ih =>
    obtain ⟨hr', hrest⟩ := List.pairwise_cons.1 hapart
    have hmem : r' ∈ r' :: rest := List.mem_cons_self
    by_cases hlt : r'.min < r.min
    . simp only [List.takeWhile_cons, List.dropWhile_cons, hlt, decide_true, if_true]
      refine List.pairwise_cons.2 ⟨?_, ?_⟩
      . intro s hs
        rcases List.mem_append.1 hs with hs | hs
        . exact hr' s ((List.takeWhile_sublist _).subset hs)
        . rcases List.mem_cons.1 hs with rfl | hs
          . exact hbelow r' hmem hlt
          . exact hr' s ((List.dropWhile_sublist _).subset hs)
      . apply ih hrest
        all_goals
          intro s hs
        . exact hproper s (List.mem_cons_of_mem _ hs)
        . exact h s (List.mem_cons_of_mem _ hs)
        . exact hbelow s (List.mem_cons_of_mem _ hs)
        . exact habove s (List.mem_cons_of_mem _ hs)
    . simp only [List.takeWhile_cons, List.dropWhile_cons, hlt, decide_false, Bool.false_eq_true,
        if_false]
      refine List.pairwise_cons.2 ⟨?_, hapart⟩
      intro s hs
      rcases List.mem_cons.1 hs with rfl | hs
      . exact habove s hmem hlt
      . exact (habove r' hmem hlt).trans (hr' s hs) (hproper r' hmem)

theorem Ordered.add (hs : set.Ordered) (range : KeyRange) : (set.add range).Ordered := by
  cases hempty : range.isEmpty with
  | true =>
    rw [add_of_isEmpty hempty]
    exact hs
  | false =>
    have hunion : ∀ a b : KeyRange, a.isEmpty = false → b.isEmpty = false → (a.union b).isEmpty = false :=
      fun _ _ ha _ => isEmpty_union ha
    have hsub := absorb_sublist range set.ranges
    constructor
    . rw [add_ranges hempty]
      apply place_apart (hs.apart.sublist hsub)
      . intro r hr
        exact hs.proper r (hsub.subset hr)
      . exact absorb_closed hunion hempty hs.proper
      . exact absorb_apart hs.apart hs.proper
    . exact add_closed hunion hempty hs.proper

theorem covers_foldl_add_iff {added : List KeyRange}
    : (added.foldl KeyRanges.add set).Covers key
        ↔
      set.Covers key ∨ ∃ r ∈ added, r.contains key = true := by
  induction added generalizing set with
  | nil => simp
  | cons r rest ih =>
    rw [List.foldl_cons, ih, covers_add_iff]
    simp only [List.mem_cons, exists_eq_or_imp, or_assoc]

theorem covers_foldl_insert_iff {keys : List Bytes}
    : (keys.foldl KeyRanges.insert set).Covers key ↔ set.Covers key ∨ key ∈ keys := by
  have hfold : keys.foldl KeyRanges.insert set = (keys.map KeyRange.single).foldl KeyRanges.add set := by
    rw [List.foldl_map]
    rfl
  rw [hfold, covers_foldl_add_iff]
  simp [contains_single_iff]

theorem Ordered.foldl_add (hs : set.Ordered) (added : List KeyRange)
    : (added.foldl KeyRanges.add set).Ordered := by
  induction added generalizing set with
  | nil => exact hs
  | cons r rest ih => exact ih (hs.add r)

theorem ordered_ofList (ranges : List KeyRange) : (ofList ranges).Ordered :=
  ordered_empty.foldl_add ranges

theorem add_ranges_of_before (hproper : ∀ r ∈ set.ranges, r.isEmpty = false)
    (hrange : range.isEmpty = false) (h : ∀ r ∈ set.ranges, r.Before range)
    : (set.add range).ranges = set.ranges ++ [range] := by
  have hbelow : ∀ r ∈ set.ranges, decide (r.min < range.min) = true := by
    intro r hr
    exact decide_eq_true (lt_of_before (h r hr) (hproper r hr))
  rw [add_ranges hrange, absorb_of_apart fun r hr => .inl (h r hr)]
  dsimp only
  rw [List.takeWhile_eq_self_iff.2 hbelow, List.dropWhile_eq_nil_iff.2 hbelow]

theorem foldl_add_ranges (before after : List KeyRange) (hapart : (before ++ after).Pairwise Before)
    (hproper : ∀ r ∈ before ++ after, r.isEmpty = false)
    : after.foldl KeyRanges.add ⟨before⟩ = ⟨before ++ after⟩ := by
  induction after generalizing before with
  | nil => simp
  | cons r after ih =>
    have hr : (KeyRanges.add ⟨before⟩ r).ranges = before ++ [r] := by
      apply add_ranges_of_before
      . intro r' hr'
        exact hproper r' (List.mem_append_left _ hr')
      . exact hproper r (List.mem_append_right _ List.mem_cons_self)
      . intro r' hr'
        exact (List.pairwise_append.1 hapart).2.2 r' hr' r List.mem_cons_self
    have hset : KeyRanges.add ⟨before⟩ r = ⟨before ++ [r]⟩ := congrArg KeyRanges.mk hr
    rw [List.foldl_cons, hset, ih]
    . simp
    . simpa using hapart
    . simpa using hproper

theorem Ordered.ofList_ranges (hs : set.Ordered) : ofList set.ranges = set :=
  foldl_add_ranges [] set.ranges hs.apart hs.proper

theorem isEmpty_of_mem (h : range ∈ set.ranges) : set.isEmpty = false := by
  unfold KeyRanges.isEmpty
  simpa using List.ne_nil_of_mem h

theorem go_eq {p : KeyRange → Bool} {count start size : Nat}
    (hp : ∀ i, boundary.holdsAt p ranges i = decide (i < count)) (hsize : 0 < size)
    (hlow : start ≤ count) (hhigh : count ≤ start + size)
    : boundary.close p ranges (boundary.go p ranges start size) = count := by
  -- the boundary stays within the part that is searched, which is halved
  induction size using Nat.strongRecOn generalizing start with
  | ind size ih =>
    unfold boundary.go
    split
    . next hlarge =>
      dsimp only
      rw [hp]
      split
      . next hlt =>
        have := of_decide_eq_true hlt
        apply ih _ (by omega) (by omega)
        . omega
        . omega
      . next hle =>
        have : ¬ start + size / 2 < count := by simpa using hle
        apply ih _ (by omega) (by omega) hlow
        omega
    . unfold boundary.close
      rw [hp]
      split
      . next hlt =>
        have := of_decide_eq_true hlt
        omega
      . next hle =>
        have : ¬ start < count := by simpa using hle
        omega

theorem boundary_eq {p : KeyRange → Bool} {count : Nat}
    (hp : ∀ i, (ranges[i]?).any p = decide (i < count)) (hcount : count ≤ ranges.length)
    : boundary p ranges = count := by
  cases ranges with
  | nil =>
    simp only [List.length_nil, Nat.le_zero] at hcount
    exact hcount.symm
  | cons r rest =>
    unfold boundary
    apply go_eq hp
    . simp
    . omega
    . omega

theorem boundary_append {p : KeyRange → Bool} {before after : List KeyRange}
    (hbefore : ∀ r ∈ before, p r = true) (hafter : ∀ r ∈ after, p r = false)
    : boundary p (before ++ after) = before.length := by
  apply boundary_eq
  . intro i
    rcases Nat.lt_or_ge i before.length with hlt | hge
    . rw [List.getElem?_append_left hlt, List.getElem?_eq_getElem hlt, Option.any_some,
        hbefore _ (List.getElem_mem hlt), decide_eq_true hlt]
    . rw [List.getElem?_append_right hge, decide_eq_false (by omega), Option.any_eq_false_iff_get]
      intro hsome
      exact hafter _ (List.mem_of_getElem? (Option.some_get hsome).symm)
  . rw [List.length_append]
    omega

def OrderedAround (set : KeyRanges) (key : Bytes) : Prop :=
  ∃ before r after, set.ranges = before ++ r :: after ∧ r.contains key = true ∧
    (∀ r' ∈ before, r'.min ≤ key) ∧ ∀ r' ∈ after, key < r'.min

theorem OrderedAround.contains (h : set.OrderedAround key) : set.contains key = true := by
  obtain ⟨before, r, after, hranges, hkey, hbefore, hafter⟩ := h
  have hboundary : boundary (·.min ≤ key) set.ranges = before.length + 1 := by
    rw [hranges, List.append_cons, boundary_append]
    . simp
    . intro r' hr'
      rw [decide_eq_true_iff]
      rcases List.mem_append.1 hr' with hr' | hr'
      . exact hbefore r' hr'
      . rw [List.mem_singleton.1 hr']
        exact (contains_iff.1 hkey).1
    . intro r' hr'
      exact decide_eq_false (Std.not_le.2 (hafter r' hr'))
  unfold KeyRanges.contains containing?
  rw [hboundary, hranges]
  dsimp only
  rw [List.getElem?_append_right (Nat.le_refl _), Nat.sub_self]
  simp [hkey]

theorem Ordered.orderedAround (hs : set.Ordered) (h : set.Covers key) : set.OrderedAround key := by
  obtain ⟨r, hr, hkey⟩ := h
  obtain ⟨hlow, hhigh⟩ := contains_iff.1 hkey
  obtain ⟨before, after, hranges⟩ := List.append_of_mem hr
  have hapart := hs.apart
  rw [hranges] at hapart
  obtain ⟨-, hafter, hbefore⟩ := List.pairwise_append.1 hapart
  refine ⟨before, r, after, hranges, hkey, ?_, ?_⟩
  . intro r' hr'
    have hproper : r'.isEmpty = false := by
      apply hs.proper
      rw [hranges]
      exact List.mem_append_left _ hr'
    have hlt := lt_of_before (hbefore r' hr' r List.mem_cons_self) hproper
    exact Std.le_trans (Std.le_of_lt hlt) hlow
  . intro r' hr'
    obtain ⟨stop, hstop, hlt⟩ := (List.pairwise_cons.1 hafter).1 r' hr'
    exact Std.lt_trans (hhigh stop hstop) hlt

theorem containing?_eq_some (h : set.containing? key = some range)
    : range ∈ set.ranges ∧ range.contains key = true := by
  unfold containing? at h
  split at h
  . cases h
  . next i _ =>
    obtain ⟨hget, hkey⟩ := Option.filter_eq_some_iff.1 h
    exact ⟨List.mem_of_getElem? hget, hkey⟩

theorem Ordered.contains_iff (hs : set.Ordered) : set.contains key = true ↔ set.Covers key := by
  constructor
  . intro h
    obtain ⟨range, hrange⟩ := Option.isSome_iff_exists.1 h
    exact ⟨range, containing?_eq_some hrange⟩
  . intro h
    exact (hs.orderedAround h).contains

theorem intersects_iff
    : set.intersects range = true ↔ ∃ key, set.Covers key ∧ range.contains key = true := by
  unfold intersects
  rw [List.any_eq_true]
  constructor
  . rintro ⟨r, hr, hoverlaps⟩
    obtain ⟨key, hkey, hkey'⟩ := overlaps_iff.1 hoverlaps
    exact ⟨key, ⟨r, hr, hkey⟩, hkey'⟩
  . rintro ⟨key, ⟨r, hr, hkey⟩, hkey'⟩
    exact ⟨r, hr, overlaps_iff.2 ⟨key, hkey, hkey'⟩⟩

theorem meets_iff {other : KeyRanges}
    : set.meets other = true ↔ ∃ key, set.Covers key ∧ other.Covers key := by
  unfold meets
  rw [List.any_eq_true]
  constructor
  . rintro ⟨r, hr, hintersects⟩
    obtain ⟨key, hkey, hkey'⟩ := intersects_iff.1 hintersects
    exact ⟨key, hkey, r, hr, hkey'⟩
  . rintro ⟨key, hkey, r, hr, hkey'⟩
    exact ⟨r, hr, intersects_iff.2 ⟨key, hkey, hkey'⟩⟩

end KeyRanges

end ReplicatedStore
