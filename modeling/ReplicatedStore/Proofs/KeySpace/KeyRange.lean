import ReplicatedStore.KeySpace.KeyRange

/-!
Ranges as sets of keys: which keys are in a range and in two of them, when two ranges leave no gap, and which keys
are in the range of a key or of a stem.
-/

namespace ReplicatedStore

namespace KeyRange

variable {a b c range : KeyRange} {key k : Bytes}

def Before (a b : KeyRange) : Prop :=
  ∃ stop, a.max = some stop ∧ stop < b.min

theorem contains_iff
    : a.contains key = true ↔ a.min ≤ key ∧ ∀ stop, a.max = some stop → key < stop := by
  unfold contains endsAfter
  cases a.max <;> simp

theorem endsAfter_iff : a.endsAfter key = true ↔ ∀ stop, a.max = some stop → key < stop := by
  unfold endsAfter
  cases a.max <;> simp

theorem isEmpty_eq_false_iff : a.isEmpty = false ↔ ∀ stop, a.max = some stop → a.min < stop := by
  unfold isEmpty
  cases a.max <;> simp

theorem contains_min (h : a.isEmpty = false) : a.contains a.min = true :=
  contains_iff.2 ⟨Std.le_refl _, isEmpty_eq_false_iff.1 h⟩

theorem isEmpty_of_contains (h : a.contains key = true) : a.isEmpty = false := by
  obtain ⟨hlow, hhigh⟩ := contains_iff.1 h
  rw [isEmpty_eq_false_iff]
  intro stop hstop
  exact Std.lt_of_le_of_lt hlow (hhigh stop hstop)

theorem contains_of_isEmpty (h : range.isEmpty = true) (key : Bytes) : range.contains key = false := by
  rw [Bool.eq_false_iff]
  intro hkey
  rw [isEmpty_of_contains hkey] at h
  cases h

theorem contains_full (key : Bytes) : full.contains key = true := by
  unfold contains full
  simp [endsAfter]

theorem lt_successor (key : Bytes) : key < successor key := by
  have : key ++ [] < key ++ [0x00] := List.append_left_lt (List.nil_lt_cons _ _)
  rwa [List.append_nil] at this

theorem eq_of_lt_successor (hlow : key ≤ k) (hhigh : k < successor key) : k = key := by
  unfold successor at hhigh
  induction key generalizing k with
  | nil =>
    cases k with
    | nil => rfl
    | cons b rest =>
      rw [List.nil_append, List.cons_lt_cons_iff] at hhigh
      simp at hhigh
  | cons a key ih =>
    cases k with
    | nil => simp at hlow
    | cons b rest =>
      rw [List.cons_append, List.cons_lt_cons_iff] at hhigh
      rw [List.cons_le_cons_iff] at hlow
      rcases hlow with hlt | ⟨rfl, hle⟩
      . rcases hhigh with hgt | ⟨rfl, -⟩
        . exact absurd (Std.lt_trans hlt hgt) Std.lt_irrefl
        . exact absurd hlt Std.lt_irrefl
      . rcases hhigh with hgt | ⟨-, hlt⟩
        . exact absurd hgt Std.lt_irrefl
        . rw [ih hle hlt]

theorem contains_single (key : Bytes) : (single key).contains key = true := by
  rw [contains_iff]
  refine ⟨Std.le_refl key, ?_⟩
  intro stop hstop
  cases hstop
  exact lt_successor key

theorem contains_single_iff : (single key).contains k = true ↔ k = key := by
  constructor
  . intro h
    obtain ⟨hlow, hhigh⟩ := contains_iff.1 h
    exact eq_of_lt_successor hlow (hhigh _ rfl)
  . rintro rfl
    exact contains_single k

theorem lt_of_before (h : a.Before b) (ha : a.isEmpty = false) : a.min < b.min := by
  obtain ⟨stop, hstop, hlt⟩ := h
  exact Std.lt_trans (isEmpty_eq_false_iff.1 ha stop hstop) hlt

theorem Before.trans (hab : a.Before b) (hbc : b.Before c) (hb : b.isEmpty = false) : a.Before c := by
  obtain ⟨stop, hstop, hlt⟩ := hab
  exact ⟨stop, hstop, Std.lt_trans hlt (lt_of_before hbc hb)⟩

theorem reaches_eq_false_iff : a.reaches b = false ↔ a.Before b := by
  unfold reaches Before
  cases a.max <;> simp

theorem touches_eq_false_iff : a.touches b = false ↔ a.Before b ∨ b.Before a := by
  unfold touches
  rw [Bool.and_eq_false_iff, reaches_eq_false_iff, reaches_eq_false_iff]

theorem min_union (a b : KeyRange) : (a.union b).min ≤ a.min ∧ (a.union b).min ≤ b.min := by
  unfold union
  dsimp only
  split
  . next hlt => exact ⟨Std.le_of_lt hlt, Std.le_refl _⟩
  . next hle => exact ⟨Std.le_refl _, Std.not_lt.1 hle⟩

theorem max_union {stop : Bytes} (h : (a.union b).max = some stop)
    : ∃ x y, a.max = some x ∧ b.max = some y ∧ x ≤ stop ∧ y ≤ stop := by
  unfold union at h
  dsimp only at h
  cases ha : a.max with
  | none => simp [ha] at h
  | some x =>
    cases hb : b.max with
    | none => simp [ha, hb] at h
    | some y =>
      simp only [ha, hb, Option.some.injEq] at h
      refine ⟨x, y, rfl, rfl, ?_⟩
      split at h
      . next hlt =>
        subst h
        exact ⟨Std.le_of_lt hlt, Std.le_refl _⟩
      . next hle =>
        subst h
        exact ⟨Std.le_refl _, Std.not_lt.1 hle⟩

theorem contains_union (h : a.contains key = true ∨ b.contains key = true)
    : (a.union b).contains key = true := by
  obtain ⟨hmina, hminb⟩ := min_union a b
  rw [contains_iff, contains_iff] at h
  rw [contains_iff]
  rcases h with ⟨hlow, hhigh⟩ | ⟨hlow, hhigh⟩
  . refine ⟨Std.le_trans hmina hlow, ?_⟩
    intro stop hstop
    obtain ⟨x, _, hx, _, hle, _⟩ := max_union hstop
    exact Std.lt_of_lt_of_le (hhigh x hx) hle
  . refine ⟨Std.le_trans hminb hlow, ?_⟩
    intro stop hstop
    obtain ⟨_, y, _, hy, _, hle⟩ := max_union hstop
    exact Std.lt_of_lt_of_le (hhigh y hy) hle

theorem contains_of_union (htouches : a.touches b = true)
    (h : (a.union b).contains key = true)
    : a.contains key = true ∨ b.contains key = true := by
  unfold touches reaches at htouches
  rw [Bool.and_eq_true] at htouches
  obtain ⟨hab, hba⟩ := htouches
  rw [contains_iff] at h ⊢
  rw [contains_iff]
  obtain ⟨hlow, hhigh⟩ := h
  -- a key that the first range does not reach lies in the second, since the two touch
  by_cases ha : a.min ≤ key
  . cases hmax : a.max with
    | none => exact .inl ⟨ha, nofun⟩
    | some x =>
      by_cases hx : key < x
      . refine .inl ⟨ha, ?_⟩
        rintro stop ⟨rfl⟩
        exact hx
      . rw [hmax] at hab
        have hle : b.min ≤ key := Std.le_trans (of_decide_eq_true hab) (Std.not_lt.1 hx)
        refine .inr ⟨hle, ?_⟩
        intro y hy
        have hstop : (a.union b).max = some (if x < y then y else x) := by
          unfold KeyRange.union
          rw [hmax, hy]
        have hkey := hhigh _ hstop
        split at hkey
        . exact hkey
        . exact absurd hkey hx
  . have hb : b.min ≤ key := by
      unfold KeyRange.union at hlow
      dsimp only at hlow
      split at hlow
      . exact hlow
      . exact absurd hlow ha
    refine .inr ⟨hb, ?_⟩
    intro y hy
    rw [hy] at hba
    exact Std.lt_of_lt_of_le (Std.not_le.1 ha) (of_decide_eq_true hba)

theorem isEmpty_union (ha : a.isEmpty = false) : (a.union b).isEmpty = false := by
  rw [isEmpty_eq_false_iff] at ha ⊢
  intro stop hstop
  obtain ⟨x, _, hx, _, hle, _⟩ := max_union hstop
  exact Std.lt_of_le_of_lt (min_union a b).1 (Std.lt_of_lt_of_le (ha x hx) hle)

theorem Before.union (hb : a.Before b) (hc : a.Before c) : a.Before (b.union c) := by
  obtain ⟨stop, hstop, hlt⟩ := hb
  obtain ⟨stop', hstop', hlt'⟩ := hc
  rw [hstop] at hstop'
  cases hstop'
  refine ⟨stop, hstop, ?_⟩
  unfold KeyRange.union
  dsimp only
  split
  . exact hlt'
  . exact hlt

theorem stemEnd_go_append (before : Bytes) (first : UInt8)
    : stemEnd.go (before ++ [first])
        =
      match stemEnd.go before with
      | some stop => some (first :: stop)
      | none => if first = 0xff then none else some [first + 1] := by
  induction before with
  | nil => rfl
  | cons last before ih =>
    rw [List.cons_append, stemEnd.go, stemEnd.go]
    by_cases hlast : last = 0xff
    . rw [if_pos hlast, if_pos hlast, ih]
    . rw [if_neg hlast, if_neg hlast, List.reverse_append]
      rfl

theorem stemEnd_cons (first : UInt8) (stem : Bytes)
    : stemEnd (first :: stem)
        =
      match stemEnd stem with
      | some stop => some (first :: stop)
      | none => if first = 0xff then none else some [first + 1] := by
  unfold stemEnd
  rw [List.reverse_cons]
  exact stemEnd_go_append stem.reverse first

example : stemEnd [0x61, 0xff, 0xff] = some [0x62] := by decide

section Bounds

variable {first next : UInt8} {stem stop : Bytes}

theorem cons_between_iff
    : first :: stem ≤ next :: key ∧ next :: key < first :: stop
        ↔
      first = next ∧ stem ≤ key ∧ key < stop := by
  rw [List.cons_le_cons_iff, List.cons_lt_cons_iff]
  constructor
  . rintro ⟨hlt | ⟨rfl, hle⟩, hgt | ⟨heq, hlt'⟩⟩
    . exact absurd (Std.lt_trans hlt hgt) Std.lt_irrefl
    . exact absurd (heq ▸ hlt) Std.lt_irrefl
    . exact absurd hgt Std.lt_irrefl
    . exact ⟨rfl, hle, hlt'⟩
  . rintro ⟨rfl, hle, hlt⟩
    exact ⟨.inr ⟨rfl, hle⟩, .inr ⟨rfl, hlt⟩⟩

theorem cons_between_raised_iff (hfirst : first ≠ 0xff)
    : first :: stem ≤ next :: key ∧ next :: key < [first + 1] ↔ first = next ∧ stem ≤ key := by
  have hraised : (first + 1).toNat = first.toNat + 1 := by
    have hne : first.toNat ≠ 255 := fun heq => hfirst (UInt8.toNat_inj.1 heq)
    have := first.toNat_lt
    rw [UInt8.toNat_add, UInt8.toNat_one]
    omega
  have hbelow : next :: key < [first + 1] ↔ next ≤ first := by
    rw [List.cons_lt_cons_iff, UInt8.lt_iff_toNat_lt, UInt8.le_iff_toNat_le, hraised, Nat.lt_succ_iff]
    simp
  rw [hbelow, List.cons_le_cons_iff]
  constructor
  . rintro ⟨hlt | hsame, hnext⟩
    . exact absurd (Std.lt_of_lt_of_le hlt hnext) Std.lt_irrefl
    . exact hsame
  . rintro ⟨rfl, hle⟩
    exact ⟨.inr ⟨rfl, hle⟩, Std.le_refl _⟩

theorem max_cons_le_iff : 0xff :: stem ≤ next :: key ↔ 0xff = next ∧ stem ≤ key := by
  have hmax : ¬ 0xff < next := by
    rw [UInt8.lt_iff_toNat_lt]
    exact Nat.not_lt.2 (Nat.le_of_lt_succ next.toNat_lt)
  rw [List.cons_le_cons_iff, or_iff_right hmax]

theorem contains_startingWith_iff : (startingWith stem).contains key = true ↔ stem <+: key := by
  rw [contains_iff]
  unfold startingWith
  dsimp only
  -- from the front on, as the order of two keys is decided at the first byte in which they differ
  induction stem generalizing key with
  | nil =>
    rw [show stemEnd [] = none from rfl]
    simp
  | cons first stem ih =>
    cases key with
    | nil => simp
    | cons next key =>
      rw [List.cons_prefix_cons, ← ih, stemEnd_cons]
      cases stemEnd stem with
      | some stop =>
        simp only [Option.some.injEq, forall_eq']
        exact cons_between_iff
      | none =>
        dsimp only
        by_cases hfirst : first = 0xff
        . rw [if_pos hfirst, hfirst, max_cons_le_iff]
          simp
        . rw [if_neg hfirst]
          simp [cons_between_raised_iff hfirst]

end Bounds

theorem overlaps_iff : a.overlaps b = true ↔ ∃ key, a.contains key = true ∧ b.contains key = true := by
  unfold overlaps
  simp only [Bool.and_eq_true, Bool.not_eq_true', endsAfter_iff, isEmpty_eq_false_iff]
  constructor
  . rintro ⟨⟨⟨ha, hb⟩, hab⟩, hba⟩
    rcases Std.le_total (a := a.min) (b := b.min) with hle | hle
    . exact ⟨b.min, contains_iff.2 ⟨hle, hab⟩, contains_iff.2 ⟨Std.le_refl _, hb⟩⟩
    . exact ⟨a.min, contains_iff.2 ⟨Std.le_refl _, ha⟩, contains_iff.2 ⟨hle, hba⟩⟩
  . rintro ⟨key, ha, hb⟩
    obtain ⟨halow, hahigh⟩ := contains_iff.1 ha
    obtain ⟨hblow, hbhigh⟩ := contains_iff.1 hb
    refine ⟨⟨⟨?_, ?_⟩, ?_⟩, ?_⟩
    . exact fun stop hstop => Std.lt_of_le_of_lt halow (hahigh stop hstop)
    . exact fun stop hstop => Std.lt_of_le_of_lt hblow (hbhigh stop hstop)
    . exact fun stop hstop => Std.lt_of_le_of_lt hblow (hahigh stop hstop)
    . exact fun stop hstop => Std.lt_of_le_of_lt halow (hbhigh stop hstop)

/-- The range of a stem has the keys that start with it, and that of a key has no other one; two ranges overlap
exactly if they have a key in common. -/
theorem derived_exact
    : (∀ stem key, (startingWith stem).contains key = true ↔ stem <+: key) ∧
        (∀ key k, (single key).contains k = true ↔ k = key) ∧
        ∀ a b : KeyRange, a.overlaps b = true ↔ ∃ key, a.contains key = true ∧ b.contains key = true := by
  refine ⟨?_, ?_, ?_⟩
  . exact fun _ _ => contains_startingWith_iff
  . exact fun _ _ => contains_single_iff
  . exact fun _ _ => overlaps_iff

theorem contains_between {low high : Bytes} (hlow : a.contains low = true) (hhigh : a.contains high = true)
    (hle : low ≤ key) (hle' : key ≤ high)
    : a.contains key = true := by
  rw [contains_iff] at hlow hhigh ⊢
  refine ⟨Std.le_trans hlow.1 hle, ?_⟩
  intro stop hstop
  exact Std.lt_of_le_of_lt hle' (hhigh.2 stop hstop)

theorem max_of_subset (hkey : b.contains key = true) (h : ∀ k, b.contains k = true → a.contains k = true)
    {stop : Bytes} (hstop : a.max = some stop)
    : ∃ stop', b.max = some stop' ∧ stop' ≤ stop := by
  apply Classical.byContradiction
  intro hnone
  have hstops : b.contains stop = true := by
    refine contains_iff.2 ⟨?_, ?_⟩
    . have hlt := (contains_iff.1 (h key hkey)).2 stop hstop
      exact Std.le_trans (contains_iff.1 hkey).1 (Std.le_of_lt hlt)
    . intro stop' hstop'
      exact Std.not_le.1 fun hle => hnone ⟨stop', hstop', hle⟩
  exact Std.lt_irrefl ((contains_iff.1 (h stop hstops)).2 stop hstop)

theorem eq_of_contains (hkey : a.contains key = true) (h : ∀ k, a.contains k = b.contains k) : a = b := by
  have hab : ∀ k, a.contains k = true → b.contains k = true := fun k hk => h k ▸ hk
  have hba : ∀ k, b.contains k = true → a.contains k = true := fun k hk => (h k).symm ▸ hk
  have hmin : a.min = b.min := by
    apply Std.le_antisymm
    . exact (contains_iff.1 (hba _ (contains_min (isEmpty_of_contains (hab key hkey))))).1
    . exact (contains_iff.1 (hab _ (contains_min (isEmpty_of_contains hkey)))).1
  have hmax : a.max = b.max := by
    cases hstop : a.max with
    | none =>
      cases hstop' : b.max with
      | none => rfl
      | some stop' =>
        obtain ⟨_, heq, -⟩ := max_of_subset hkey hab hstop'
        rw [hstop] at heq
        cases heq
    | some stop =>
      obtain ⟨stop', hstop', hle⟩ := max_of_subset (hab key hkey) hba hstop
      obtain ⟨_, heq, hle'⟩ := max_of_subset hkey hab hstop'
      rw [hstop] at heq
      cases heq
      rw [hstop', Std.le_antisymm hle' hle]
  cases a
  cases b
  cases hmin
  cases hmax
  rfl

end KeyRange

end ReplicatedStore
