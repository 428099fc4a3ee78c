import ReplicatedStore.Proofs.KeySpace.Recording

/-!
Reads that can be repeated: on another map that agrees on the keys that a transaction noted, its
operations give the same answers.
-/

namespace ReplicatedStore

namespace KeyMap

variable {map map' : KeyMap} {range : KeyRange} {p : Bytes → Bool}

theorem filter_within (map : KeyMap) (range : KeyRange) (p : Bytes → Bool)
    : (map.within range).filter (fun q => p q.1)
        =
      (map.filter fun key => p key && range.contains key).pairs := by
  unfold within filter
  rw [List.filter_filter]

theorem filter_within_congr
    (h : ∀ key, p key = true → range.contains key = true → map.get? key = map'.get? key)
    : (map.within range).filter (fun q => p q.1) = (map'.within range).filter (fun q => p q.1) := by
  rw [filter_within, filter_within]
  congr 1
  apply filter_congr
  intro key hkey
  rw [Bool.and_eq_true] at hkey
  exact h key hkey.1 hkey.2

theorem within_sorted (map : KeyMap) (range : KeyRange)
    : (map.within range).Pairwise (fun a b => a.1 < b.1) :=
  map.sorted.filter _

end KeyMap

namespace TransactionView

variable {f : List Pair → Option Pair} {p q : Pair} {l l' A B : List Pair}
  {near : Pair → Bool} {view after : TransactionView} {base : KeyMap} {range : KeyRange}

structure Seeks (f : List Pair → Option Pair) : Prop where
  nil : f [] = none
  cons : ∀ p, (∀ rest, f (p :: rest) = some p) ∨ (∀ rest, f (p :: rest) = none) ∨
    ∃ skip : Pair → Bool, ∀ rest, f (p :: rest) = f (rest.dropWhile skip)

theorem seekUp_seeks (removes : KeyRanges) : Seeks (seekUp removes) where
  nil := by
    unfold seekUp
    rfl
  cons p := by
    obtain ⟨key, value⟩ := p
    cases hremoved : removes.containing? key with
    | none =>
      refine .inl fun rest => ?_
      rw [seekUp, hremoved]
    | some removed =>
      cases hmax : removed.max with
      | none =>
        refine .inr (.inl fun rest => ?_)
        rw [seekUp, hremoved]
        dsimp only
        rw [hmax]
      | some stop =>
        refine .inr (.inr ⟨(·.1 < stop), fun rest => ?_⟩)
        rw [seekUp, hremoved]
        dsimp only
        rw [hmax]

theorem seekDown_seeks (removes : KeyRanges) : Seeks (seekDown removes) where
  nil := by
    unfold seekDown
    rfl
  cons p := by
    obtain ⟨key, value⟩ := p
    cases hremoved : removes.containing? key with
    | none =>
      refine .inl fun rest => ?_
      rw [seekDown, hremoved]
    | some removed =>
      refine .inr (.inr ⟨(removed.min ≤ ·.1), fun rest => ?_⟩)
      rw [seekDown, hremoved]

theorem Seeks.mem (hf : Seeks f) (h : f l = some q) : q ∈ l := by
  induction hlength : l.length using Nat.strongRecOn generalizing l with
  | ind length ih =>
    cases l with
    | nil =>
      rw [hf.nil] at h
      cases h
    | cons p rest =>
      rcases hf.cons p with htake | hnone | ⟨skip, hskip⟩
      . rw [htake] at h
        cases h
        exact List.mem_cons_self
      . rw [hnone] at h
        cases h
      . rw [hskip] at h
        have hsub := List.dropWhile_sublist skip (l := rest)
        have hle := hsub.length_le
        rw [List.length_cons] at hlength
        exact List.mem_cons_of_mem _ (hsub.subset (ih _ (by omega) h rfl))

theorem Seeks.append (hf : Seeks f) (h : f (A ++ B) = some q) (hq : q ∉ B) (B' : List Pair)
    : f (A ++ B') = some q := by
  -- one step may skip several pairs, so the induction is on the length
  induction hlength : A.length using Nat.strongRecOn generalizing A with
  | ind length ih =>
    cases A with
    | nil => exact absurd (hf.mem h) hq
    | cons p rest =>
      rw [List.cons_append] at h ⊢
      rcases hf.cons p with htake | hnone | ⟨skip, hskip⟩
      . rw [htake] at h ⊢
        exact h
      . rw [hnone] at h
        cases h
      . rw [hskip] at h ⊢
        have hle := (List.dropWhile_sublist skip (l := rest)).length_le
        rw [List.length_cons] at hlength
        rw [List.dropWhile_append] at h ⊢
        split at h
        . next hempty =>
          exact absurd ((List.dropWhile_sublist skip).subset (hf.mem h)) hq
        . next hempty =>
          rw [if_neg hempty]
          exact ih _ (by omega) h rfl

theorem eq_filter_append {R : Pair → Pair → Prop} (hl : l.Pairwise R)
    (hnear : ∀ a b, R a b → near b = true → near a = true)
    : l = l.filter near ++ l.filter (fun a => !near a) := by
  induction l with
  | nil => rfl
  | cons a rest ih =>
    obtain ⟨ha, hrest⟩ := List.pairwise_cons.1 hl
    by_cases hnow : near a = true
    . rw [List.filter_cons_of_pos hnow, List.filter_cons_of_neg (by simpa using hnow),
        List.cons_append, ← ih hrest]
    . have hnone : rest.filter near = [] := by
        rw [List.filter_eq_nil_iff]
        intro b hb hlater
        exact hnow (hnear a b (ha b hb) hlater)
      have hall : rest.filter (fun a => !near a) = rest := by
        have := ih hrest
        rw [hnone, List.nil_append] at this
        exact this.symm
      rw [List.filter_cons_of_neg hnow, hnone, List.nil_append,
        List.filter_cons_of_pos (by simpa using hnow), hall]

theorem Seeks.iff (hf : Seeks f) {R : Pair → Pair → Prop} (hl : l.Pairwise R) (hl' : l'.Pairwise R)
    (hnear : ∀ a b, R a b → near b = true → near a = true)
    (hsame : l.filter near = l'.filter near) (hq : near q = true)
    : f l = some q ↔ f l' = some q := by
  have hfar : ∀ m : List Pair, q ∉ m.filter (fun a => !near a) := by
    intro m hmem
    have := (List.mem_filter.1 hmem).2
    rw [hq] at this
    cases this
  rw [eq_filter_append hl hnear, eq_filter_append hl' hnear, hsame]
  exact ⟨fun h => hf.append h (hfar l) _, fun h => hf.append h (hfar l') _⟩

def nearer (better : Pair → Pair → Bool) (below put : Option Pair) : Option Pair :=
  match below, put with
  | some below, some put => if better below put then some below else some put
  | _, some put => some put
  | below, none => below

theorem nearer_congr {better : Pair → Pair → Bool} {below below' put : Option Pair}
    (h : nearer better below put = some p)
    (hbelow : ∀ q, q = p ∨ better q p = true → (below = some q ↔ below' = some q))
    : nearer better below' put = some p := by
  cases put with
  | none =>
    have hfound : below = some p := by
      cases below <;> exact h
    rw [(hbelow p (.inl rfl)).1 hfound]
    rfl
  | some put =>
    have hput : ∀ q, below = some q → better q put = true → q = p := by
      rintro q rfl hq
      unfold nearer at h
      simpa [hq] using h
    -- the pair that was put wins unless one below comes before it
    by_cases hfound : ∃ q, below = some q ∧ better q put = true
    . obtain ⟨q, hq, hbetter⟩ := hfound
      have := hput q hq hbetter
      subst this
      rw [(hbelow q (.inl rfl)).1 hq]
      unfold nearer
      simp [hbetter]
    . have hp : put = p := by
        unfold nearer at h
        cases below with
        | none => simpa using h
        | some q =>
          have : ¬ better q put = true := fun hq => hfound ⟨q, rfl, hq⟩
          simpa [this] using h
      subst hp
      cases below' with
      | none => rfl
      | some q =>
        have : ¬ better q put = true := by
          intro hq
          exact hfound ⟨q, (hbelow q (.inr hq)).2 rfl, hq⟩
        unfold nearer
        simp [this]

theorem lookupFirst_eq (h : range.isEmpty = false)
    : view.lookupFirst range
        =
      nearer (fun below put => below.1 < put.1) (seekUp view.writes.removes (view.base.within range))
        (view.writes.puts.within range).head? := by
  unfold lookupFirst nearer
  rw [h]
  cases seekUp view.writes.removes (view.base.within range) <;>
    cases (view.writes.puts.within range).head? <;> simp

theorem lookupLast_eq (h : range.isEmpty = false)
    : view.lookupLast range
        =
      nearer (fun below put => put.1 < below.1)
        (seekDown view.writes.removes (view.base.within range).reverse)
        (view.writes.puts.within range).getLast? := by
  unfold lookupLast nearer
  rw [h]
  cases seekDown view.writes.removes (view.base.within range).reverse <;>
    cases (view.writes.puts.within range).getLast? <;> simp

def rebase (view : TransactionView) (base : KeyMap) : TransactionView :=
  { view with base }

theorem lookup_rebase {key : Bytes} (h : view.base.get? key = base.get? key)
    : (view.rebase base).lookup key = view.lookup key := by
  unfold lookup rebase
  dsimp only
  rw [h]

theorem lookupFirst_rebase (range : KeyRange)
    (h : ∀ key, (readUpTo range.min range.max (view.lookupFirst range)).contains key = true →
      view.base.get? key = base.get? key)
    : (view.rebase base).lookupFirst range = view.lookupFirst range := by
  cases hempty : range.isEmpty with
  | true =>
    unfold lookupFirst
    rw [if_pos hempty, if_pos hempty]
  | false =>
    cases hfound : view.lookupFirst range with
    | none =>
      have hwithin : base.within range = view.base.within range := by
        rw [KeyMap.within_eq, KeyMap.within_eq]
        congr 1
        apply KeyMap.filter_congr
        intro key hkey
        apply (h key _).symm
        rw [hfound]
        exact hkey
      rw [lookupFirst_eq hempty] at hfound ⊢
      unfold rebase
      dsimp only
      rw [hwithin]
      exact hfound
    | some p =>
      -- the search looks no further than the key it finds, and up to there the bases agree
      have hsame : (view.base.within range).filter (fun a => decide (a.1 ≤ p.1))
          = (base.within range).filter (fun a => decide (a.1 ≤ p.1)) := by
        apply KeyMap.filter_within_congr (p := fun key => decide (key ≤ p.1))
        intro key hle hkey
        apply h key
        obtain ⟨hmin, -⟩ := KeyRange.contains_iff.1 hkey
        rw [hfound, KeyRange.contains_iff]
        refine ⟨hmin, ?_⟩
        intro stop hstop
        cases hstop
        exact Std.lt_of_le_of_lt (of_decide_eq_true hle) (KeyRange.lt_successor p.1)
      rw [lookupFirst_eq hempty] at hfound ⊢
      apply nearer_congr hfound
      intro q hq
      apply (seekUp_seeks view.writes.removes).iff (view.base.within_sorted range)
        (base.within_sorted range) _ hsame
      . rcases hq with rfl | hlt
        . exact decide_eq_true (Std.le_refl _)
        . exact decide_eq_true (Std.le_of_lt (of_decide_eq_true hlt))
      . intro a b hlt hle
        exact decide_eq_true (Std.le_trans (Std.le_of_lt hlt) (of_decide_eq_true hle))

theorem lookupLast_rebase {max : Bytes} {min : Option Bytes}
    (h : ∀ key, (readDownTo max min (view.lookupLast ⟨min.getD [], some max⟩)).contains key = true →
      view.base.get? key = base.get? key)
    : (view.rebase base).lookupLast ⟨min.getD [], some max⟩
        = view.lookupLast ⟨min.getD [], some max⟩ := by
  generalize hrange : (⟨min.getD [], some max⟩ : KeyRange) = range at h ⊢
  cases hempty : range.isEmpty with
  | true =>
    unfold lookupLast
    rw [if_pos hempty, if_pos hempty]
  | false =>
    cases hfound : view.lookupLast range with
    | none =>
      have hwithin : base.within range = view.base.within range := by
        rw [KeyMap.within_eq, KeyMap.within_eq]
        congr 1
        apply KeyMap.filter_congr
        intro key hkey
        apply (h key _).symm
        rw [hfound]
        rw [← hrange] at hkey
        exact hkey
      rw [lookupLast_eq hempty] at hfound ⊢
      unfold rebase
      dsimp only
      rw [hwithin]
      exact hfound
    | some p =>
      -- the search looks no further than the key it finds, and from there on the bases agree
      have hsame : (view.base.within range).reverse.filter (fun a => decide (p.1 ≤ a.1))
          = (base.within range).reverse.filter (fun a => decide (p.1 ≤ a.1)) := by
        rw [List.filter_reverse, List.filter_reverse]
        congr 1
        apply KeyMap.filter_within_congr (p := fun key => decide (p.1 ≤ key))
        intro key hle hkey
        apply h key
        rw [← hrange, KeyRange.contains_iff] at hkey
        rw [hfound, KeyRange.contains_iff]
        exact ⟨of_decide_eq_true hle, hkey.2⟩
      rw [lookupLast_eq hempty] at hfound ⊢
      apply nearer_congr hfound
      intro q hq
      apply (seekDown_seeks view.writes.removes).iff
        (List.pairwise_reverse.2 (view.base.within_sorted range))
        (List.pairwise_reverse.2 (base.within_sorted range)) _ hsame
      . rcases hq with rfl | hlt
        . exact decide_eq_true (Std.le_refl _)
        . exact decide_eq_true (Std.le_of_lt (of_decide_eq_true hlt))
      . intro a b hlt hle
        exact decide_eq_true (Std.le_trans (of_decide_eq_true hle) (Std.le_of_lt hlt))

theorem lookupRange_rebase
    (h : ∀ key, range.contains key = true → view.base.get? key = base.get? key)
    : (view.rebase base).lookupRange range = view.lookupRange range := by
  unfold lookupRange rebase
  dsimp only
  rw [KeyMap.filter_congr fun key hkey => (h key hkey).symm]

/-- The maps of two views agree on what is noted. -/
def Agrees (reads : KeyRanges) (map map' : KeyMap) : Prop :=
  ∀ key, reads.Covers key → map.get? key = map'.get? key

theorem Agrees.noting {reads : KeyRanges} {map map' : KeyMap} (h : Agrees (reads.add range) map map')
    : ∀ key, range.contains key = true → map.get? key = map'.get? key := by
  intro key hkey
  exact h key (KeyRanges.covers_add (.inr hkey))

def permission (view : TransactionView) : Operation → Except Error Unit
  | .put .. | .remove _ | .removeRange _ => view.ensureWritable
  | _ => view.ensureOpen

def effect (view : TransactionView) : Operation → Answer × TransactionView
  | .get key => (.value (view.lookup key), view.noting (.single key))
  | .atLeast min max =>
    (.pair (view.lookupFirst ⟨min, max⟩),
      view.noting (readUpTo min max (view.lookupFirst ⟨min, max⟩)))
  | .atMost max min =>
    (.pair (view.lookupLast ⟨min.getD [], some max⟩),
      view.noting (readDownTo max min (view.lookupLast ⟨min.getD [], some max⟩)))
  | .range range reverse =>
    let pairs := if range.isEmpty then [] else view.lookupRange range
    (.pairs (if reverse then pairs.reverse else pairs), view.noting range)
  | .put key value => (.done, { view with writes := view.writes.put key value })
  | .remove key => (.done, { view with writes := view.writes.remove key })
  | .removeRange range => (.done, { view with writes := view.writes.removeRange range })

theorem perform_eq (view : TransactionView) (operation : Operation)
    : view.perform operation = (view.permission operation).map fun _ => view.effect operation := by
  unfold perform permission
  cases operation with
  | put | remove | removeRange => cases view.ensureWritable <;> rfl
  | get | atLeast | atMost | range => cases view.ensureOpen <;> rfl

theorem effect_rebase {operation : Operation}
    (h : Agrees (view.effect operation).2.reads view.base base)
    : (view.rebase base).effect operation
        = ((view.effect operation).1, (view.effect operation).2.rebase base) := by
  cases operation with
  | get key =>
    have hsame := lookup_rebase (h.noting key (KeyRange.contains_single key))
    unfold effect
    dsimp only
    rw [hsame]
    rfl
  | atLeast min max =>
    have hsame := lookupFirst_rebase ⟨min, max⟩ h.noting
    unfold effect
    dsimp only
    rw [hsame]
    rfl
  | atMost max min =>
    have hsame := lookupLast_rebase h.noting
    unfold effect
    dsimp only
    rw [hsame]
    rfl
  | range range reverse =>
    have hsame := lookupRange_rebase h.noting
    unfold effect
    dsimp only
    rw [hsame]
    rfl
  | put | remove | removeRange => rfl

theorem effect_reads (view : TransactionView) (operation : Operation)
    : (view.effect operation).2.reads = view.reads ∨
        ∃ range, (view.effect operation).2.reads = view.reads.add range := by
  cases operation with
  | get | atLeast | atMost | range => exact .inr ⟨_, rfl⟩
  | put | remove | removeRange => exact .inl rfl

theorem effect_writes (view : TransactionView) (operation : Operation)
    : (view.effect operation).2.writes = view.writes.record operation := by
  cases operation <;> rfl

theorem effect_removes_ordered (h : view.writes.removes.Ordered) (operation : Operation)
    : (view.effect operation).2.writes.removes.Ordered := by
  rw [effect_writes]
  exact WriteSet.removes_ordered_record h operation

theorem effect_base (view : TransactionView) (operation : Operation)
    : (view.effect operation).2.base = view.base := by
  cases operation <;> rfl

def performAll (view : TransactionView) :
    List Operation → List (Except Error Answer) × TransactionView
  | [] => ([], view)
  | operation :: rest =>
    match view.perform operation with
    | .ok (answer, view) =>
      let (answers, view) := view.performAll rest
      (.ok answer :: answers, view)
    | .error e =>
      let (answers, view) := view.performAll rest
      (.error e :: answers, view)

theorem performAll_cons (view : TransactionView) (operation : Operation) (rest : List Operation)
    : view.performAll (operation :: rest)
        =
      match view.permission operation with
      | .ok _ =>
        (.ok (view.effect operation).1 :: ((view.effect operation).2.performAll rest).1,
          ((view.effect operation).2.performAll rest).2)
      | .error e => (.error e :: (view.performAll rest).1, (view.performAll rest).2) := by
  rw [performAll, perform_eq]
  cases view.permission operation <;> rfl

theorem performAll_keeps {P : TransactionView → Prop} {operations : List Operation} (h : P view)
    (heffect : ∀ view operation, view.permission operation = .ok () → P view →
      P (view.effect operation).2)
    : P (view.performAll operations).2 := by
  induction operations generalizing view with
  | nil => exact h
  | cons operation rest ih =>
    rw [performAll_cons]
    cases hpermission : view.permission operation with
    | error e => exact ih h
    | ok _ => exact ih (heffect view operation hpermission h)

theorem performAll_reads_ordered {operations : List Operation} (h : view.reads.Ordered)
    : (view.performAll operations).2.reads.Ordered := by
  apply performAll_keeps (P := fun view => view.reads.Ordered) h
  intro view operation _ h
  rcases effect_reads view operation with heq | ⟨range, heq⟩
  . rw [heq]
    exact h
  . rw [heq]
    exact h.add range

theorem performAll_covers {operations : List Operation} {key : Bytes} (h : view.reads.Covers key)
    : (view.performAll operations).2.reads.Covers key := by
  apply performAll_keeps (P := fun view => view.reads.Covers key) h
  intro view operation _ h
  rcases effect_reads view operation with heq | ⟨range, heq⟩
  . rw [heq]
    exact h
  . rw [heq]
    exact KeyRanges.covers_add (.inl h)

theorem performAll_removes_ordered {operations : List Operation} (h : view.writes.removes.Ordered)
    : (view.performAll operations).2.writes.removes.Ordered := by
  apply performAll_keeps (P := fun view => view.writes.removes.Ordered) h
  intro view operation _ h
  exact effect_removes_ordered h operation

theorem performAll_writes {operations : List Operation} (hreadOnly : view.readOnly = true)
    : (view.performAll operations).2.writes = view.writes := by
  let P (after : TransactionView) : Prop := after.readOnly = true ∧ after.writes = view.writes
  have hkeeps : P (view.performAll operations).2 := by
    apply performAll_keeps (P := P) ⟨hreadOnly, rfl⟩
    intro view operation hpermission h
    have hrefused : view.ensureWritable ≠ .ok () := by
      unfold ensureWritable
      rw [h.1]
      cases view.ensureOpen <;> exact nofun
    cases operation with
    | put | remove | removeRange => exact absurd hpermission hrefused
    | get | atLeast | atMost | range => exact h
  exact hkeeps.2

theorem performAll_rebase {operations : List Operation}
    (h : Agrees (view.performAll operations).2.reads view.base base)
    : (view.rebase base).performAll operations
        = ((view.performAll operations).1, (view.performAll operations).2.rebase base) := by
  induction operations generalizing view with
  | nil => rfl
  | cons operation rest ih =>
    have hpermission : (view.rebase base).permission operation = view.permission operation := by
      cases operation <;> rfl
    rw [performAll_cons] at h ⊢
    rw [performAll_cons, hpermission]
    cases hok : view.permission operation with
    | error e =>
      rw [hok] at h
      dsimp only
      rw [ih h]
    | ok _ =>
      rw [hok] at h
      dsimp only at h ⊢
      -- what the operation reads is among what all of them read
      have hnow : Agrees (view.effect operation).2.reads view.base base := by
        intro key hkey
        exact h key (performAll_covers hkey)
      rw [effect_rebase hnow]
      dsimp only
      rw [ih]
      rw [effect_base]
      exact h

/-- The maps of two transactions may differ in what the one has not noted: the other gets the same answers, and
notes and writes the same. -/
theorem performAll_eq_of_agree {base base' : KeyMap} {readOnly : Bool} {operations : List Operation}
    (h : ∀ key, (performAll { base, readOnly } operations).2.reads.contains key = true →
      base.get? key = base'.get? key)
    : (performAll { base := base', readOnly } operations).1 = (performAll { base, readOnly } operations).1 ∧
        (performAll { base := base', readOnly } operations).2.reads
          = (performAll { base, readOnly } operations).2.reads ∧
        (performAll { base := base', readOnly } operations).2.writes
          = (performAll { base, readOnly } operations).2.writes := by
  have hordered : (performAll { base, readOnly } operations).2.reads.Ordered :=
    performAll_reads_ordered KeyRanges.ordered_empty
  have hagrees : Agrees (performAll { base, readOnly } operations).2.reads base base' := by
    intro key hkey
    exact h key (hordered.contains_iff.2 hkey)
  have hrebase := performAll_rebase hagrees
  unfold rebase at hrebase
  dsimp only at hrebase
  rw [hrebase]
  exact ⟨rfl, rfl, rfl⟩

namespace Agreeing

-- One transaction on two maps that differ beside what it searches, also in a key that it removes unseen.

def one : KeyMap :=
  .ofList [([1], [1]), ([2], [2]), ([4], [4]), ([6], [6]), ([7], [7])]

def other : KeyMap :=
  ((one.insert [1] []).insert [6] []).insert [8] []

-- Searches upwards and downwards past removals, reads of absent keys, and bounds the wrong way round.
def operations : List Operation :=
  [.removeRange ⟨[2], some [3]⟩, .atLeast [2] none, .get [3], .put [5] [0], .removeRange ⟨[3], some [4, 0]⟩,
    .atMost [5] (some [2]), .remove [6], .range ⟨[9], some [8]⟩ true, .atMost [6] none]

end Agreeing

theorem performAll_eq_of_agree_removals
    : (∀ key, (performAll { base := Agreeing.one } Agreeing.operations).2.reads.contains key = true →
        Agreeing.one.get? key = Agreeing.other.get? key) ∧
      (performAll { base := Agreeing.other } Agreeing.operations).1
        = (performAll { base := Agreeing.one } Agreeing.operations).1 ∧
      (performAll { base := Agreeing.other } Agreeing.operations).2.reads
        = (performAll { base := Agreeing.one } Agreeing.operations).2.reads ∧
      (performAll { base := Agreeing.other } Agreeing.operations).2.writes
        = (performAll { base := Agreeing.one } Agreeing.operations).2.writes := by
  have hagree : ∀ key, (performAll { base := Agreeing.one } Agreeing.operations).2.reads.contains key = true →
      Agreeing.one.get? key = Agreeing.other.get? key := by
    have hunread : ∀ key ∈ [[1], [6], [8]],
        ¬ (performAll { base := Agreeing.one } Agreeing.operations).2.reads.contains key = true := by
      decide +kernel
    intro key hkey
    have hne : ∀ k ∈ [[1], [6], [8]], key ≠ k := by
      rintro k hk rfl
      exact hunread key hk hkey
    unfold Agreeing.other
    rw [KeyMap.get?_insert (hne [8] (by decide)), KeyMap.get?_insert (hne [6] (by decide)),
      KeyMap.get?_insert (hne [1] (by decide))]
  exact ⟨hagree, performAll_eq_of_agree hagree⟩

end TransactionView

end ReplicatedStore
