import ReplicatedStore.Proofs.KeySpace.TransactionView

/-!
A view is an overlay: it reads what its base holds once its writes have been performed on it, and each write
is performed there as it comes.
-/

namespace ReplicatedStore

namespace TransactionView

variable {view : TransactionView} {removes : KeyRanges} {pairs : List Pair} {range : KeyRange} {key : Bytes}

def Shown (removes : KeyRanges) (pair : Pair) : Bool :=
  !removes.contains pair.1

theorem shown_of_containing? {removed : KeyRange} (hremoves : removes.Ordered)
    (hremoved : removes.containing? key = some removed) {pair : Pair} (h : removed.contains pair.1 = true)
    : Shown removes pair = false := by
  unfold Shown
  rw [hremoves.contains_iff.2 ⟨removed, (KeyRanges.containing?_eq_some hremoved).1, h⟩]
  rfl

theorem filter_dropWhile {p skip : Pair → Bool} {l : List Pair}
    (h : ∀ a ∈ l, skip a = true → p a = false)
    : (l.dropWhile skip).filter p = l.filter p := by
  induction l with
  | nil => rfl
  | cons a rest ih =>
    rw [List.dropWhile_cons]
    split
    . next hskip =>
      have hhidden : ¬ p a = true := by
        rw [h a List.mem_cons_self hskip]
        exact Bool.false_ne_true
      rw [List.filter_cons_of_neg hhidden]
      exact ih fun b hb => h b (List.mem_cons_of_mem _ hb)
    . rfl

theorem seekUp_eq (hremoves : removes.Ordered) (hsorted : pairs.Pairwise (fun a b => a.1 < b.1))
    : seekUp removes pairs = (pairs.filter (Shown removes)).head? := by
  fun_induction seekUp removes pairs with
  | case1 => rfl
  | case2 key value rest hnone =>
    have hshown : Shown removes (key, value) = true := by
      unfold Shown KeyRanges.contains
      rw [hnone]
      rfl
    rw [List.filter_cons_of_pos hshown]
    rfl
  | case3 key value rest removed hremoved hmax =>
    obtain ⟨hlow, -⟩ := KeyRange.contains_iff.1 (KeyRanges.containing?_eq_some hremoved).2
    have hbehind := (List.pairwise_cons.1 hsorted).1
    -- the removed range has no end, so nothing is shown from here on
    have hhidden : ((key, value) :: rest).filter (Shown removes) = [] := by
      rw [List.filter_eq_nil_iff]
      intro pair hpair
      have hle : removed.min ≤ pair.1 := by
        rcases List.mem_cons.1 hpair with rfl | hrest
        . exact hlow
        . exact Std.le_trans hlow (Std.le_of_lt (hbehind pair hrest))
      rw [shown_of_containing? hremoves hremoved]
      . exact Bool.false_ne_true
      . rw [KeyRange.contains_iff, hmax]
        exact ⟨hle, nofun⟩
    rw [hhidden]
    rfl
  | case4 key value rest removed hremoved stop hmax ih =>
    have hcontains := (KeyRanges.containing?_eq_some hremoved).2
    obtain ⟨hlow, -⟩ := KeyRange.contains_iff.1 hcontains
    obtain ⟨hbehind, hrest⟩ := List.pairwise_cons.1 hsorted
    -- what is skipped lies in the removed range as well
    have hnow : ¬ Shown removes (key, value) = true := by
      rw [shown_of_containing? hremoves hremoved hcontains]
      exact Bool.false_ne_true
    rw [ih (hrest.sublist (List.dropWhile_sublist _)), List.filter_cons_of_neg hnow, filter_dropWhile]
    intro pair hpair hskip
    apply shown_of_containing? hremoves hremoved
    rw [KeyRange.contains_iff, hmax]
    refine ⟨Std.le_trans hlow (Std.le_of_lt (hbehind pair hpair)), ?_⟩
    rintro stop' ⟨rfl⟩
    exact of_decide_eq_true hskip

theorem seekDown_eq (hremoves : removes.Ordered) (hsorted : pairs.Pairwise (fun a b => b.1 < a.1))
    : seekDown removes pairs = (pairs.filter (Shown removes)).head? := by
  fun_induction seekDown removes pairs with
  | case1 => rfl
  | case2 key value rest hnone =>
    have hshown : Shown removes (key, value) = true := by
      unfold Shown KeyRanges.contains
      rw [hnone]
      rfl
    rw [List.filter_cons_of_pos hshown]
    rfl
  | case3 key value rest removed hremoved ih =>
    have hcontains := (KeyRanges.containing?_eq_some hremoved).2
    obtain ⟨-, hhigh⟩ := KeyRange.contains_iff.1 hcontains
    obtain ⟨hbehind, hrest⟩ := List.pairwise_cons.1 hsorted
    have hnow : ¬ Shown removes (key, value) = true := by
      rw [shown_of_containing? hremoves hremoved hcontains]
      exact Bool.false_ne_true
    rw [ih (hrest.sublist (List.dropWhile_sublist _)), List.filter_cons_of_neg hnow, filter_dropWhile]
    intro pair hpair hskip
    apply shown_of_containing? hremoves hremoved
    rw [KeyRange.contains_iff]
    refine ⟨of_decide_eq_true hskip, ?_⟩
    intro stop hstop
    exact Std.lt_trans (hbehind pair hpair) (hhigh stop hstop)

theorem head?_eq_some_iff {R : Pair → Pair → Prop} {l : List Pair} {p : Pair} (hl : l.Pairwise R)
    (hanti : ∀ a b, R a b → ¬ R b a)
    : l.head? = some p ↔ p ∈ l ∧ ∀ q ∈ l, q = p ∨ R p q := by
  cases l with
  | nil => simp
  | cons a rest =>
    obtain ⟨ha, -⟩ := List.pairwise_cons.1 hl
    rw [List.head?_cons, Option.some.injEq]
    constructor
    . rintro rfl
      refine ⟨List.mem_cons_self, ?_⟩
      intro q hq
      exact (List.mem_cons.1 hq).imp_right (ha q)
    . rintro ⟨hp, hleast⟩
      rcases List.mem_cons.1 hp with rfl | hp
      . rfl
      . rcases hleast a List.mem_cons_self with heq | hlt
        . exact heq
        . exact absurd hlt (hanti _ _ (ha p hp))

section Merged

-- Two lists that were merged, where a pair of `puts` takes the place of one of `below`.

variable {r : Bytes → Bytes → Prop} {below puts merged : List Pair} {b p : Pair}

theorem head?_merged_below (hirrefl : ∀ a, ¬ r a a) (hanti : ∀ a b : Pair, r a.1 b.1 → ¬ r b.1 a.1)
    (hmerged : merged.Pairwise (fun a b => r a.1 b.1))
    (hmem : ∀ q, q ∈ merged ↔ q ∈ puts ∨ (q ∈ below ∧ ∀ q' ∈ puts, q'.1 ≠ q.1))
    (hfirst : b ∈ below ∧ ∀ q ∈ below, q = b ∨ r b.1 q.1) (hputs : ∀ q ∈ puts, r b.1 q.1)
    : merged.head? = some b := by
  apply (head?_eq_some_iff hmerged hanti).2
  constructor
  . refine (hmem b).2 (.inr ⟨hfirst.1, ?_⟩)
    intro q hq heq
    have hlt := hputs q hq
    rw [heq] at hlt
    exact hirrefl _ hlt
  . intro q hq
    rcases (hmem q).1 hq with hq | ⟨hq, -⟩
    . exact .inr (hputs q hq)
    . exact hfirst.2 q hq

theorem head?_merged_puts (hanti : ∀ a b : Pair, r a.1 b.1 → ¬ r b.1 a.1)
    (hmerged : merged.Pairwise (fun a b => r a.1 b.1))
    (hmem : ∀ q, q ∈ merged ↔ q ∈ puts ∨ (q ∈ below ∧ ∀ q' ∈ puts, q'.1 ≠ q.1))
    (hfirst : p ∈ puts ∧ ∀ q ∈ puts, q = p ∨ r p.1 q.1) (hbelow : ∀ q ∈ below, p.1 ≠ q.1 → r p.1 q.1)
    : merged.head? = some p := by
  apply (head?_eq_some_iff hmerged hanti).2
  refine ⟨(hmem p).2 (.inl hfirst.1), ?_⟩
  intro q hq
  rcases (hmem q).1 hq with hq | ⟨hq, hfree⟩
  . exact hfirst.2 q hq
  . exact .inr (hbelow q hq (hfree p hfirst.1))

theorem head?_merged [DecidableRel r] (hirrefl : ∀ a, ¬ r a a) (htrans : ∀ a b c, r a b → r b c → r a c)
    (htotal : ∀ a b, r a b ∨ a = b ∨ r b a) (hbelow : below.Pairwise (fun a b => r a.1 b.1))
    (hputs : puts.Pairwise (fun a b => r a.1 b.1)) (hmerged : merged.Pairwise (fun a b => r a.1 b.1))
    (hmem : ∀ q, q ∈ merged ↔ q ∈ puts ∨ (q ∈ below ∧ ∀ q' ∈ puts, q'.1 ≠ q.1))
    : merged.head? = nearer (fun a b => decide (r a.1 b.1)) below.head? puts.head? := by
  have hanti : ∀ a b : Pair, r a.1 b.1 → ¬ r b.1 a.1 := fun a b hab hba => hirrefl _ (htrans _ _ _ hab hba)
  cases hb : below.head? with
  | none =>
    rw [List.head?_eq_none_iff] at hb
    cases hp : puts.head? with
    | none =>
      rw [List.head?_eq_none_iff] at hp
      have hnone : merged = [] := by
        rw [List.eq_nil_iff_forall_not_mem]
        intro q hq
        rw [hmem, hp, hb] at hq
        simp at hq
      rw [hnone]
      rfl
    | some p =>
      have hfirst := (head?_eq_some_iff hputs hanti).1 hp
      exact head?_merged_puts hanti hmerged hmem hfirst (by simp [hb])
  | some b =>
    have hbfirst := (head?_eq_some_iff hbelow hanti).1 hb
    cases hp : puts.head? with
    | none =>
      rw [List.head?_eq_none_iff] at hp
      exact head?_merged_below hirrefl hanti hmerged hmem hbfirst (by simp [hp])
    | some p =>
      have hpfirst := (head?_eq_some_iff hputs hanti).1 hp
      unfold nearer
      dsimp only
      split
      . next hlt =>
        apply head?_merged_below hirrefl hanti hmerged hmem hbfirst
        intro q hq
        rcases hpfirst.2 q hq with rfl | hafter
        . exact of_decide_eq_true hlt
        . exact htrans _ _ _ (of_decide_eq_true hlt) hafter
      -- at equal keys the pair that was put hides the one below
      . next hge =>
        apply head?_merged_puts hanti hmerged hmem hpfirst
        intro q hq hne
        rcases htotal p.1 q.1 with hlt | heq | hgt
        . exact hlt
        . exact absurd heq hne
        . rw [decide_eq_true_iff] at hge
          rcases hbfirst.2 q hq with rfl | hafter
          . exact absurd hgt hge
          . exact absurd (htrans _ _ _ hafter hgt) hge

end Merged

def overlay (view : TransactionView) : KeyMap :=
  view.writes.performOn view.base

theorem get?_overlay (h : view.writes.removes.Ordered) (key : Bytes)
    : view.overlay.get? key
        =
      (view.writes.puts.get? key).or
        (if view.writes.removes.contains key then none else view.base.get? key) :=
  WriteSet.get?_performOn_or h view.base key

theorem lookup_eq (h : view.writes.removes.Ordered) (key : Bytes)
    : view.lookup key = view.overlay.get? key := by
  unfold overlay
  rw [WriteSet.get?_performOn_fate h]
  unfold lookup
  cases view.writes.fate key <;> rfl

theorem lookupRange_eq (h : view.writes.removes.Ordered) (range : KeyRange)
    : view.lookupRange range = view.overlay.within range := by
  have hmap : ((view.base.filter range.contains).filter fun key => !view.writes.removes.contains key).insertAll
      (view.writes.puts.filter range.contains).pairs = view.overlay.filter range.contains := by
    apply KeyMap.ext_get?
    intro key
    rw [KeyMap.get?_insertAll_pairs, KeyMap.get?_filter_ite, KeyMap.get?_filter_ite, KeyMap.get?_filter_ite,
      KeyMap.get?_filter_ite, get?_overlay h]
    cases range.contains key <;> cases view.writes.removes.contains key <;> simp
  rw [KeyMap.within_eq, ← hmap]
  rfl

theorem within_of_isEmpty (h : range.isEmpty = true) (map : KeyMap) : map.within range = [] := by
  unfold KeyMap.within
  rw [List.filter_eq_nil_iff]
  intro pair _
  rw [KeyRange.contains_of_isEmpty h]
  exact Bool.false_ne_true

theorem mem_within_iff {map : KeyMap} {pair : Pair}
    : pair ∈ map.within range ↔ map.get? pair.1 = some pair.2 ∧ range.contains pair.1 = true := by
  unfold KeyMap.within
  rw [List.mem_filter, ← KeyMap.mem_pairs_iff]

theorem mem_overlay_within (h : view.writes.removes.Ordered) (pair : Pair)
    : pair ∈ view.overlay.within range
        ↔
      pair ∈ view.writes.puts.within range ∨
        (pair ∈ (view.base.within range).filter (Shown view.writes.removes) ∧
          ∀ put ∈ view.writes.puts.within range, put.1 ≠ pair.1) := by
  obtain ⟨key, value⟩ := pair
  rw [List.mem_filter, mem_within_iff, mem_within_iff, mem_within_iff, get?_overlay h]
  unfold Shown
  dsimp only
  cases hput : view.writes.puts.get? key with
  | some put =>
    have htaken : range.contains key = true → ¬ ∀ put ∈ view.writes.puts.within range, put.1 ≠ key := by
      intro hkey hfree
      exact hfree (key, put) (mem_within_iff.2 ⟨hput, hkey⟩) rfl
    rw [Option.some_or]
    constructor
    . exact .inl
    . rintro (hfound | ⟨⟨⟨-, hkey⟩, -⟩, hfree⟩)
      . exact hfound
      . exact absurd hfree (htaken hkey)
  | none =>
    have hfree : ∀ put ∈ view.writes.puts.within range, put.1 ≠ key := by
      rintro put hmem rfl
      rw [(mem_within_iff.1 hmem).1] at hput
      cases hput
    rw [Option.none_or]
    cases view.writes.removes.contains key with
    | true => simp
    | false => simpa using fun _ _ => hfree

theorem lookupFirst_eq_head? (h : view.writes.removes.Ordered) (range : KeyRange)
    : view.lookupFirst range = (view.overlay.within range).head? := by
  cases hempty : range.isEmpty with
  | true =>
    unfold lookupFirst
    rw [if_pos hempty, within_of_isEmpty hempty]
    rfl
  | false =>
    have hsorted := view.base.within_sorted range
    rw [lookupFirst_eq hempty, seekUp_eq h hsorted]
    symm
    apply head?_merged (r := (· < ·))
    . exact fun _ => Std.lt_irrefl
    . exact fun _ _ _ => Std.lt_trans
    . exact Std.lt_trichotomy
    . exact hsorted.filter _
    . exact view.writes.puts.within_sorted range
    . exact view.overlay.within_sorted range
    . exact mem_overlay_within h

theorem lookupLast_eq_getLast? (h : view.writes.removes.Ordered) (range : KeyRange)
    : view.lookupLast range = (view.overlay.within range).getLast? := by
  cases hempty : range.isEmpty with
  | true =>
    unfold lookupLast
    rw [if_pos hempty, within_of_isEmpty hempty]
    rfl
  | false =>
    have hsorted := List.pairwise_reverse.2 (view.base.within_sorted range)
    rw [lookupLast_eq hempty, seekDown_eq h hsorted, ← List.head?_reverse, ← List.head?_reverse]
    symm
    apply head?_merged (r := fun a b => b < a)
    . exact fun _ => Std.lt_irrefl
    . exact fun _ _ _ hab hbc => Std.lt_trans hbc hab
    . exact fun a b => (Std.lt_trichotomy b a).imp_right (Or.imp_left Eq.symm)
    . exact hsorted.filter _
    . exact List.pairwise_reverse.2 (view.writes.puts.within_sorted range)
    . exact List.pairwise_reverse.2 (view.overlay.within_sorted range)
    . intro pair
      rw [List.mem_reverse, mem_overlay_within h, List.filter_reverse, List.mem_reverse, List.mem_reverse]
      simp only [List.mem_reverse]

theorem effect_overlay (h : view.writes.removes.Ordered) (operation : Operation)
    : (view.effect operation).1 = (view.overlay.perform operation).1 ∧
        (view.effect operation).2.overlay = (view.overlay.perform operation).2 := by
  constructor
  . cases operation with
    | get key => exact congrArg _ (lookup_eq h key)
    | atLeast min max => exact congrArg _ (lookupFirst_eq_head? h _)
    | atMost max min => exact congrArg _ (lookupLast_eq_getLast? h _)
    | range range reverse =>
      have hpairs : (if range.isEmpty then [] else view.lookupRange range) = view.overlay.within range := by
        split
        . next hempty => rw [within_of_isEmpty hempty]
        . exact lookupRange_eq h range
      unfold effect
      dsimp only
      rw [hpairs]
      rfl
    | put | remove | removeRange => rfl
  . unfold overlay
    rw [effect_writes, effect_base]
    exact WriteSet.performOn_record h operation view.base

theorem permission_of_open (hopen : view.closed = false) (hwritable : view.readOnly = false)
    (operation : Operation)
    : view.permission operation = .ok () := by
  unfold permission ensureWritable ensureOpen
  rw [hopen, hwritable]
  cases operation <;> rfl

theorem performAll_overlay (h : view.writes.removes.Ordered) (hopen : view.closed = false)
    (hwritable : view.readOnly = false) (operations : List Operation)
    : (view.performAll operations).1 = (view.overlay.performAll operations).1.map .ok ∧
        (view.performAll operations).2.overlay = (view.overlay.performAll operations).2 := by
  induction operations generalizing view with
  | nil => exact ⟨rfl, rfl⟩
  | cons operation rest ih =>
    obtain ⟨hanswer, hoverlay⟩ := effect_overlay h operation
    have hnext := effect_removes_ordered h operation
    have hstill : (view.effect operation).2.closed = false ∧ (view.effect operation).2.readOnly = false := by
      cases operation <;> exact ⟨hopen, hwritable⟩
    obtain ⟨hanswers, hafter⟩ := ih hnext hstill.1 hstill.2
    rw [performAll_cons, permission_of_open hopen hwritable]
    rw [hoverlay] at hanswers hafter
    dsimp only
    rw [hanswers, hanswer, hafter]
    exact ⟨rfl, rfl⟩

end TransactionView

end ReplicatedStore
