import ReplicatedStore.Proofs.KeySpace.Overlay

/-!
A search past removed ranges, as a cursor runs it: each turn looks at one end of the range that is left, and a
removal that hides the pair there moves the cursor to the far side of all that it removes. Every such turn leaves
a pair behind, so that the search ends, and with the pair that the lists in order give.
-/

namespace ReplicatedStore

namespace TransactionView

variable {removes : KeyRanges} {base : KeyMap} {range : KeyRange} {pair : Pair} {rest : List Pair}

inductive Turn where
  | ends (found : Option Pair)
  | goesOn (range : KeyRange)
  deriving DecidableEq, Repr

def turnUp (removes : KeyRanges) (base : KeyMap) (range : KeyRange) : Turn :=
  if range.isEmpty then .ends none
  else
    match (base.within range).head? with
    | none => .ends none
    | some pair =>
      match removes.containing? pair.1 with
      | none => .ends (some pair)
      | some removed =>
        match removed.max with
        | some stop => .goesOn ⟨stop, range.max⟩
        | none => .ends none

def turnDown (removes : KeyRanges) (base : KeyMap) (range : KeyRange) : Turn :=
  if range.isEmpty then .ends none
  else
    match (base.within range).getLast? with
    | none => .ends none
    | some pair =>
      match removes.containing? pair.1 with
      | none => .ends (some pair)
      | some removed => .goesOn ⟨range.min, some removed.min⟩

def search (turn : KeyRange → Turn) : Nat → KeyRange → Option (Option Pair)
  | 0, _ => none
  | turns + 1, range =>
    match turn range with
    | .ends found => some found
    | .goesOn range => search turn turns range

theorem dropWhile_eq_filter {R : Pair → Pair → Prop} {skip : Pair → Bool} (hsorted : (pair :: rest).Pairwise R)
    (hpair : skip pair = true) (hskip : ∀ a b, R a b → skip b = true → skip a = true)
    : rest.dropWhile skip = (pair :: rest).filter (fun a => !skip a) := by
  have hpast : ¬ (!skip pair) = true := by
    rw [hpair]
    exact Bool.false_ne_true
  rw [List.filter_cons_of_neg (p := fun a => !skip a) hpast]
  conv_lhs => rw [eq_filter_append (List.pairwise_cons.1 hsorted).2 hskip]
  rw [List.dropWhile_append_of_pos fun a ha => (List.mem_filter.1 ha).2]
  apply List.dropWhile_eq_self_iff.2
  intro hlength hhead
  have hkept := (List.mem_filter.1 (List.getElem_mem hlength)).2
  rw [hhead] at hkept
  exact Bool.false_ne_true hkept

theorem within_eq_filter {inner : KeyRange} {p : Bytes → Bool}
    (h : ∀ key, inner.contains key = true ↔ p key = true ∧ range.contains key = true)
    : base.within inner = (base.within range).filter (fun q => p q.1) := by
  rw [KeyMap.filter_within, KeyMap.within_eq]
  congr 2
  funext key
  rw [Bool.eq_iff_iff, Bool.and_eq_true, h]

theorem within_above {stop : Bytes} (h : base.within range = pair :: rest) (hlt : pair.1 < stop)
    : base.within ⟨stop, range.max⟩ = rest.dropWhile (·.1 < stop) := by
  have hsorted := base.within_sorted range
  rw [h] at hsorted
  have hmin : range.min ≤ pair.1 := by
    have hmem : pair ∈ base.within range := by
      rw [h]
      exact List.mem_cons_self
    exact (KeyRange.contains_iff.1 (mem_within_iff.1 hmem).2).1
  rw [dropWhile_eq_filter hsorted (decide_eq_true hlt), ← h]
  . apply within_eq_filter (p := fun key => !decide (key < stop))
    intro key
    rw [KeyRange.contains_iff, KeyRange.contains_iff, Bool.not_eq_true', decide_eq_false_iff_not, Std.not_lt]
    constructor
    . rintro ⟨hlow, hhigh⟩
      exact ⟨hlow, Std.le_trans hmin (Std.le_trans (Std.le_of_lt hlt) hlow), hhigh⟩
    . rintro ⟨hlow, -, hhigh⟩
      exact ⟨hlow, hhigh⟩
  . intro a b hab hb
    exact decide_eq_true (Std.lt_trans hab (of_decide_eq_true hb))

theorem within_below {start : Bytes} (h : (base.within range).reverse = pair :: rest) (hle : start ≤ pair.1)
    : (base.within ⟨range.min, some start⟩).reverse = rest.dropWhile (start ≤ ·.1) := by
  have hsorted := List.pairwise_reverse.2 (base.within_sorted range)
  rw [h] at hsorted
  have hmax : ∀ stop, range.max = some stop → pair.1 < stop := by
    have hmem : pair ∈ base.within range := by
      rw [← List.mem_reverse, h]
      exact List.mem_cons_self
    exact (KeyRange.contains_iff.1 (mem_within_iff.1 hmem).2).2
  rw [dropWhile_eq_filter hsorted (decide_eq_true hle), ← h, List.filter_reverse]
  . congr 1
    apply within_eq_filter (p := fun key => !decide (start ≤ key))
    intro key
    rw [KeyRange.contains_iff, KeyRange.contains_iff, Bool.not_eq_true', decide_eq_false_iff_not, Std.not_le]
    constructor
    . rintro ⟨hlow, hhigh⟩
      have hbelow := hhigh start rfl
      refine ⟨hbelow, hlow, ?_⟩
      intro stop hstop
      exact Std.lt_trans hbelow (Std.lt_of_le_of_lt hle (hmax stop hstop))
    . rintro ⟨hbelow, hlow, -⟩
      refine ⟨hlow, ?_⟩
      rintro stop ⟨rfl⟩
      exact hbelow
  . intro a b hab hb
    exact decide_eq_true (Std.le_trans (of_decide_eq_true hb) (Std.le_of_lt hab))

def Turn.Narrows (left : KeyRange → List Pair) (seek : List Pair → Option Pair) (range : KeyRange) : Turn → Prop
  | .ends found => found = seek (left range)
  | .goesOn rest => (left rest).length < (left range).length ∧ seek (left rest) = seek (left range)

theorem narrows_goesOn {left : KeyRange → List Pair} {seek : List Pair → Option Pair} {next : KeyRange}
    {skip : Pair → Bool} (hrange : left range = pair :: rest) (hnext : left next = rest.dropWhile skip)
    (hseek : seek (pair :: rest) = seek (rest.dropWhile skip))
    : (Turn.goesOn next).Narrows left seek range := by
  show (left next).length < (left range).length ∧ seek (left next) = seek (left range)
  rw [hrange, hnext, hseek, List.length_cons]
  exact ⟨Nat.lt_succ_of_le (List.dropWhile_sublist _).length_le, rfl⟩

theorem narrows_turnUp (removes : KeyRanges) (base : KeyMap) (range : KeyRange)
    : (turnUp removes base range).Narrows base.within (seekUp removes) range := by
  unfold turnUp
  split
  . next hempty =>
    show none = seekUp removes (base.within range)
    rw [within_of_isEmpty hempty, (seekUp_seeks removes).nil]
  . cases hwithin : base.within range with
    | nil =>
      show none = seekUp removes (base.within range)
      rw [hwithin, (seekUp_seeks removes).nil]
    | cons pair rest =>
      obtain ⟨key, value⟩ := pair
      rw [List.head?_cons]
      dsimp only
      cases hremoved : removes.containing? key with
      | none =>
        show some (key, value) = seekUp removes (base.within range)
        rw [hwithin, seekUp, hremoved]
      | some removed =>
        dsimp only
        cases hmax : removed.max with
        | none =>
          show none = seekUp removes (base.within range)
          rw [hwithin, seekUp, hremoved]
          dsimp only
          rw [hmax]
        | some stop =>
          have hlt : key < stop :=
            (KeyRange.contains_iff.1 (KeyRanges.containing?_eq_some hremoved).2).2 stop hmax
          apply narrows_goesOn hwithin (within_above hwithin hlt)
          rw [seekUp, hremoved]
          dsimp only
          rw [hmax]

theorem narrows_turnDown (removes : KeyRanges) (base : KeyMap) (range : KeyRange)
    : (turnDown removes base range).Narrows (fun range => (base.within range).reverse) (seekDown removes) range := by
  unfold turnDown
  split
  . next hempty =>
    show none = seekDown removes (base.within range).reverse
    rw [within_of_isEmpty hempty, List.reverse_nil, (seekDown_seeks removes).nil]
  . rw [← List.head?_reverse]
    cases hwithin : (base.within range).reverse with
    | nil =>
      show none = seekDown removes (base.within range).reverse
      rw [hwithin, (seekDown_seeks removes).nil]
    | cons pair rest =>
      obtain ⟨key, value⟩ := pair
      rw [List.head?_cons]
      dsimp only
      cases hremoved : removes.containing? key with
      | none =>
        show some (key, value) = seekDown removes (base.within range).reverse
        rw [hwithin, seekDown, hremoved]
      | some removed =>
        have hle : removed.min ≤ key :=
          (KeyRange.contains_iff.1 (KeyRanges.containing?_eq_some hremoved).2).1
        apply narrows_goesOn hwithin (within_below hwithin hle)
        rw [seekDown, hremoved]

theorem search_of_narrows {turn : KeyRange → Turn} {left : KeyRange → List Pair} {seek : List Pair → Option Pair}
    (hnarrows : ∀ range, (turn range).Narrows left seek range) {turns : Nat} (h : (left range).length < turns)
    : search turn turns range = some (seek (left range)) := by
  induction turns generalizing range with
  | zero => exact absurd h (Nat.not_lt_zero _)
  | succ turns ih =>
    have hturn := hnarrows range
    unfold search
    cases hnext : turn range with
    | ends found =>
      rw [hnext] at hturn
      exact congrArg some hturn
    | goesOn rest =>
      rw [hnext] at hturn
      obtain ⟨hlength, hseek⟩ := hturn
      dsimp only
      rw [ih (by omega), hseek]

/-- What an open view reads is what the map holds that its writes make of its base, in a search that ends in
either direction. -/
theorem reads_of_written_map (base : KeyMap) (readOnly : Bool) (operations : List Operation)
    : let view := (performAll { base, readOnly } operations).2
      let map := view.writes.performOn base
      (∀ key, (view.perform (.get key)).map Prod.fst = .ok (.value (map.get? key))) ∧
      (∀ min max, (view.perform (.atLeast min max)).map Prod.fst = .ok (.pair (map.atLeast? min max))) ∧
      (∀ max min, (view.perform (.atMost max min)).map Prod.fst = .ok (.pair (map.atMost? max min))) ∧
      (∀ range reverse,
        (view.perform (.range range reverse)).map Prod.fst = .ok (.pairs (map.range range reverse))) ∧
      ∀ range,
        search (turnUp view.writes.removes base) ((base.within range).length + 1) range
          = some (seekUp view.writes.removes (base.within range)) ∧
        search (turnDown view.writes.removes base) ((base.within range).length + 1) range
          = some (seekDown view.writes.removes (base.within range).reverse) := by
  intro view map
  have hordered : view.writes.removes.Ordered := performAll_removes_ordered KeyRanges.ordered_empty
  have hopen : view.closed = false ∧ view.base = base := by
    apply performAll_keeps (P := fun after => after.closed = false ∧ after.base = base) ⟨rfl, rfl⟩
    intro view operation _ h
    cases operation <;> exact h
  have hmap : view.overlay = map := by
    unfold overlay
    rw [hopen.2]
  have hread : ∀ operation, view.permission operation = view.ensureOpen →
      (view.perform operation).map Prod.fst = .ok (map.perform operation).1 := by
    intro operation hpermission
    rw [perform_eq, hpermission, ← hmap, ← (effect_overlay hordered operation).1]
    unfold ensureOpen
    rw [hopen.1]
    rfl
  refine ⟨fun key => hread _ rfl, fun min max => hread _ rfl, fun max min => hread _ rfl,
    fun range reverse => hread _ rfl, ?_⟩
  intro range
  refine ⟨search_of_narrows (narrows_turnUp _ _) (Nat.lt_succ_self _), search_of_narrows (narrows_turnDown _ _) ?_⟩
  rw [List.length_reverse]
  exact Nat.lt_succ_self _

end TransactionView

end ReplicatedStore
