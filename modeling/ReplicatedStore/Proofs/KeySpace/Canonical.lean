import Mathlib.Data.List.Pairwise
import Mathlib.Data.List.Sort
import ReplicatedStore.Proofs.KeySpace.KeyRanges

/-!
Sets that were built from an empty or a full one: each range in them is the greatest around its keys, so that
their list of ranges depends on the keys alone, and not on how and in which order these were added.
-/

namespace ReplicatedStore

namespace KeyRanges

open KeyRange

inductive Addition where
  | range (range : KeyRange)
  | key (key : Bytes)
  | set (other : KeyRanges)
  deriving DecidableEq, Repr

def Addition.ranges : Addition → List KeyRange
  | .range r => [r]
  | .key k => [KeyRange.single k]
  | .set other => other.ranges

def extend (set : KeyRanges) : Addition → KeyRanges
  | .range r => set.add r
  | .key k => set.insert k
  | .set other => set.union other

def extendAll (set : KeyRanges) (additions : List Addition) : KeyRanges :=
  additions.foldl extend set

def Given (start : KeyRanges) (additions : List Addition) (key : Bytes) : Prop :=
  start.Covers key ∨ ∃ addition ∈ additions, ∃ r ∈ addition.ranges, r.contains key = true

/-- The greatest range with a key among those that have only keys of `given`. -/
structure GreatestAround (given : Bytes → Prop) (key : Bytes) (r : KeyRange) : Prop where
  contains : r.contains key = true
  within : ∀ k, r.contains k = true → given k
  greatest : ∀ r' : KeyRange, r'.contains key = true → (∀ k, r'.contains k = true → given k) →
    ∀ k, r'.contains k = true → r.contains k = true

structure Canonical (set : KeyRanges) (given : Bytes → Prop) : Prop where
  sorted : set.ranges.Pairwise (·.min < ·.min)
  proper : ∀ r ∈ set.ranges, r.isEmpty = false
  apart : set.ranges.Pairwise Before
  contains : ∀ key, set.contains key = true ↔ given key
  containing : ∀ key r, set.containing? key = some r ↔ GreatestAround given key r
  intersects : ∀ range, set.intersects range = true ↔ ∃ key, given key ∧ range.contains key = true

variable {set other start : KeyRanges} {r r' : KeyRange} {key k : Bytes} {given : Bytes → Prop}

theorem extend_eq (set : KeyRanges) (addition : Addition)
    : set.extend addition = addition.ranges.foldl KeyRanges.add set := by
  cases addition <;> rfl

theorem extendAll_eq (set : KeyRanges) (additions : List Addition)
    : set.extendAll additions = (additions.flatMap Addition.ranges).foldl KeyRanges.add set := by
  unfold extendAll
  induction additions generalizing set with
  | nil => rfl
  | cons addition rest ih =>
    rw [List.foldl_cons, ih, extend_eq, List.flatMap_cons, List.foldl_append]

theorem Ordered.extendAll (hs : set.Ordered) (additions : List Addition) : (set.extendAll additions).Ordered := by
  rw [extendAll_eq]
  exact hs.foldl_add _

theorem covers_extendAll_iff {additions : List Addition}
    : (set.extendAll additions).Covers key ↔ Given set additions key := by
  rw [extendAll_eq, covers_foldl_add_iff]
  unfold Given
  simp only [List.mem_flatMap]
  grind

theorem ordered_start (h : start = .empty ∨ start = .full) : start.Ordered := by
  rcases h with rfl | rfl
  . exact ordered_empty
  . exact ⟨List.pairwise_singleton _ _, by decide⟩

theorem Ordered.eq_or_before (hs : set.Ordered) (hr : r ∈ set.ranges) (hr' : r' ∈ set.ranges)
    : r = r' ∨ r.Before r' ∨ r'.Before r := by
  have : Std.Symm fun a b : KeyRange => a.Before b ∨ b.Before a := ⟨fun _ _ => Or.symm⟩
  have heither : set.ranges.Pairwise fun a b => a.Before b ∨ b.Before a := hs.apart.imp .inl
  by_cases heq : r = r'
  . exact .inl heq
  . exact .inr (heither.forall hr hr' heq)

theorem Ordered.not_covers_stop (hs : set.Ordered) (hr : r ∈ set.ranges) {stop : Bytes}
    (hstop : r.max = some stop)
    : ¬ set.Covers stop := by
  rintro ⟨r', hr', hcontains⟩
  obtain ⟨hlow, hhigh⟩ := KeyRange.contains_iff.1 hcontains
  rcases hs.eq_or_before hr hr' with rfl | ⟨stop', hstop', hlt⟩ | ⟨stop', hstop', hlt⟩
  . exact Std.lt_irrefl (hhigh stop hstop)
  . rw [hstop] at hstop'
    cases hstop'
    exact Std.not_lt.2 hlow hlt
  . have hmin := isEmpty_eq_false_iff.1 (hs.proper r hr) stop hstop
    exact Std.lt_irrefl (Std.lt_trans (hhigh stop' hstop') (Std.lt_trans hlt hmin))

theorem Ordered.not_before_of_covered (hs : set.Ordered) (hr : r ∈ set.ranges) {joined : KeyRange}
    (hcovered : ∀ k, joined.contains k = true → set.Covers k) (hkey : r.contains key = true)
    (hkey' : r'.contains k = true) (hjoined : joined.contains key = true) (hjoined' : joined.contains k = true)
    : ¬ r.Before r' := by
  rintro ⟨stop, hstop, hlt⟩
  apply hs.not_covers_stop hr hstop
  apply hcovered
  apply contains_between hjoined hjoined'
  . exact Std.le_of_lt ((KeyRange.contains_iff.1 hkey).2 stop hstop)
  . exact Std.le_trans (Std.le_of_lt hlt) (KeyRange.contains_iff.1 hkey').1

theorem Ordered.greatestAround (hs : set.Ordered) (hr : r ∈ set.ranges) (hkey : r.contains key = true)
    : GreatestAround set.Covers key r where
  contains := hkey
  within _ hk := ⟨r, hr, hk⟩
  greatest := by
    intro joined hjoined hcovered k hjoined'
    obtain ⟨r', hr', hk⟩ := hcovered k hjoined'
    rcases hs.eq_or_before hr hr' with rfl | hbefore | hbefore
    . exact hk
    . exact absurd hbefore (hs.not_before_of_covered hr hcovered hkey hk hjoined hjoined')
    . exact absurd hbefore (hs.not_before_of_covered hr' hcovered hk hkey hjoined' hjoined)

theorem GreatestAround.unique (h : GreatestAround given key r) (h' : GreatestAround given key r') : r = r' := by
  apply KeyRange.eq_of_contains h.contains
  intro k
  rw [Bool.eq_iff_iff]
  constructor
  . exact h'.greatest r h.contains h.within k
  . exact h.greatest r' h'.contains h'.within k

theorem Ordered.containing?_eq_some_iff (hs : set.Ordered)
    : set.containing? key = some r ↔ GreatestAround set.Covers key r := by
  constructor
  . intro h
    obtain ⟨hr, hkey⟩ := containing?_eq_some h
    exact hs.greatestAround hr hkey
  . intro h
    obtain ⟨r', hr'⟩ := Option.isSome_iff_exists.1 (hs.contains_iff.2 (h.within key h.contains))
    obtain ⟨hmem, hkey⟩ := containing?_eq_some hr'
    rw [hr', h.unique (hs.greatestAround hmem hkey)]

theorem Ordered.sorted (hs : set.Ordered) : set.ranges.Pairwise (·.min < ·.min) := by
  apply hs.apart.imp_of_mem
  intro a b ha _ hbefore
  exact lt_of_before hbefore (hs.proper a ha)

theorem Ordered.canonical (hs : set.Ordered) : set.Canonical set.Covers where
  sorted := hs.sorted
  proper := hs.proper
  apart := hs.apart
  contains _ := hs.contains_iff
  containing _ _ := hs.containing?_eq_some_iff
  intersects _ := intersects_iff

theorem Ordered.mem_of_covers (hs : set.Ordered) (ho : other.Ordered)
    (h : ∀ key, set.Covers key ↔ other.Covers key) (hr : r ∈ set.ranges)
    : r ∈ other.ranges := by
  have hkeys : set.Covers = other.Covers := by
    funext key
    exact propext (h key)
  have hgreatest := hs.greatestAround hr (contains_min (hs.proper r hr))
  rw [hkeys, ← ho.containing?_eq_some_iff] at hgreatest
  exact (containing?_eq_some hgreatest).1

theorem Ordered.eq_of_covers (hs : set.Ordered) (ho : other.Ordered)
    (h : ∀ key, set.Covers key ↔ other.Covers key)
    : set = other := by
  have : Std.Irrefl fun a b : KeyRange => a.min < b.min := ⟨fun _ => Std.lt_irrefl⟩
  have : Std.Antisymm fun a b : KeyRange => a.min < b.min :=
    ⟨fun _ _ hlt hgt => absurd (Std.lt_trans hlt hgt) Std.lt_irrefl⟩
  have hranges : set.ranges = other.ranges := by
    apply List.Pairwise.eq_of_mem_iff hs.sorted ho.sorted
    intro r
    exact ⟨hs.mem_of_covers ho h, ho.mem_of_covers hs fun key => (h key).symm⟩
  cases set
  cases other
  cases hranges
  rfl

/-- Whatever is added to an empty or a full set, the set shows the keys that were given and is the only one
that does: others with the same keys have the same ranges. -/
theorem additions_canonical (hstart : start = .empty ∨ start = .full) (additions : List Addition)
    : (start.extendAll additions).Canonical (Given start additions) ∧
        ∀ (start' : KeyRanges) (additions' : List Addition), start' = .empty ∨ start' = .full →
          ((start.extendAll additions).meets (start'.extendAll additions') = true
              ↔ ∃ key, Given start additions key ∧ Given start' additions' key) ∧
            ((∀ key, Given start additions key ↔ Given start' additions' key) →
              start.extendAll additions = start'.extendAll additions') := by
  have hkeys : ∀ start additions, (extendAll start additions).Covers = Given start additions := by
    intro start additions
    funext key
    exact propext covers_extendAll_iff
  have hordered := (ordered_start hstart).extendAll additions
  constructor
  . rw [← hkeys]
    exact hordered.canonical
  . intro start' additions' hstart'
    have hordered' := (ordered_start hstart').extendAll additions'
    rw [← hkeys, ← hkeys]
    exact ⟨meets_iff, hordered.eq_of_covers hordered'⟩

theorem additions_canonical_abutting
    : let upwards : List Addition := [.range ⟨[1], some [2]⟩, .range ⟨[2], none⟩]
      let downwards : List Addition := [.range ⟨[2], none⟩, .set ⟨[⟨[1], some [2]⟩]⟩]
      (empty.extendAll upwards).Canonical (Given .empty upwards) ∧
        empty.extendAll upwards = empty.extendAll downwards ∧
        (empty.extendAll upwards).ranges = [⟨[1], none⟩] := by
  intro upwards downwards
  obtain ⟨hcanonical, hother⟩ := additions_canonical (.inl rfl) upwards
  refine ⟨hcanonical, (hother .empty downwards (.inl rfl)).2 ?_, by decide⟩
  intro key
  simp [upwards, downwards, Given, Addition.ranges, or_comm]

end KeyRanges

end ReplicatedStore
