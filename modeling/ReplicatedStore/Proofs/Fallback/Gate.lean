import Mathlib.Data.List.Nodup
import ReplicatedStore.Fallback.Gate

/-!
The gate lets at most one in alone, and then nobody else.
-/

namespace ReplicatedStore

namespace Gate

def known (gate : Gate) : List (Nat × Bool) :=
  gate.waiting ++ gate.admitted

def pending (gate : Gate) (alone : Bool) : Nat :=
  gate.admitted.countP (·.2 == alone)

def place (flag alone : Bool) : Nat :=
  if alone = flag then 1 else 0

structure Fits (gate : Gate) (inside alone : Nat) : Prop where
  shared : inside + gate.pending false ≤ gate.shared
  exclusive : alone + gate.pending true ≤ gate.exclusive.toNat
  apart : gate.exclusive = true → gate.shared = 0
  nodup : (gate.known.map Prod.fst).Nodup

variable {gate gate' : Gate} {inside alone who : Nat} {flag : Bool}

theorem fits_empty : ({} : Gate).Fits 0 0 where
  shared := Nat.le_refl _
  exclusive := Nat.le_refl _
  apart := nofun
  nodup := List.nodup_nil

theorem Fits.alone_eq_zero (h : gate.Fits inside alone) (hinside : 0 < inside) : alone = 0 := by
  have hshared := h.shared
  have halone := h.exclusive
  cases hexclusive : gate.exclusive with
  | false =>
    rw [hexclusive, Bool.toNat_false] at halone
    omega
  | true =>
    have := h.apart hexclusive
    omega

theorem Fits.alone_le_one (h : gate.Fits inside alone) : alone ≤ 1 := by
  have halone := h.exclusive
  have := gate.exclusive.toNat_le
  omega

theorem Fits.mono {inside' alone' : Nat} (h : gate.Fits inside alone) (hinside : inside' ≤ inside)
    (halone : alone' ≤ alone)
    : gate.Fits inside' alone' where
  shared := Nat.le_trans (Nat.add_le_add_right hinside _) h.shared
  exclusive := Nat.le_trans (Nat.add_le_add_right halone _) h.exclusive
  apart := h.apart
  nodup := h.nodup

theorem Fits.occupy (h : gate.Fits inside alone) (hadmits : gate.admits flag = true)
    : (gate.occupy flag).Fits (inside + place flag false) (alone + place flag true) := by
  unfold admits at hadmits
  rw [Bool.and_eq_true, Bool.not_eq_true', Bool.or_eq_true, Bool.not_eq_true', decide_eq_true_eq] at hadmits
  obtain ⟨hopen, hshared⟩ := hadmits
  have hinside := h.shared
  have halone := h.exclusive
  cases flag with
  | false =>
    refine ⟨?_, halone, ?_, h.nodup⟩
    . show inside + 1 + gate.pending false ≤ gate.shared + 1
      omega
    . intro hexclusive
      exact absurd (hopen.symm.trans hexclusive) nofun
  | true =>
    refine ⟨hinside, ?_, fun _ => hshared.resolve_left nofun, h.nodup⟩
    show alone + 1 + gate.pending true ≤ 1
    rw [hopen, Bool.toNat_false] at halone
    omega

theorem Fits.admitted {waiting : List (Nat × Bool)}
    (h : gate.Fits (inside + place flag false) (alone + place flag true))
    (hnodup : ((waiting ++ (gate.admitted ++ [(who, flag)])).map Prod.fst).Nodup)
    : { gate with waiting, admitted := gate.admitted ++ [(who, flag)] }.Fits inside alone := by
  have hpending : ∀ b, { gate with waiting, admitted := gate.admitted ++ [(who, flag)] }.pending b
      = gate.pending b + place flag b := by
    intro b
    unfold pending
    rw [List.countP_append, List.countP_singleton]
    cases b <;> cases flag <;> rfl
  have hinside := h.shared
  have halone := h.exclusive
  refine ⟨?_, ?_, h.apart, hnodup⟩
  . rw [hpending]
    show _ ≤ gate.shared
    omega
  . rw [hpending]
    show _ ≤ gate.exclusive.toNat
    omega

theorem Fits.letIn {queue : List (Nat × Bool)} (h : { gate with waiting := queue }.Fits inside alone)
    : (gate.letIn queue).Fits inside alone ∧
        (gate.letIn queue).known.Perm { gate with waiting := queue }.known := by
  induction queue generalizing gate with
  | nil => exact ⟨h, .refl _⟩
  | cons entry queue ih =>
    obtain ⟨who, flag⟩ := entry
    unfold Gate.letIn
    split
    . next hadmits =>
      -- whoever is let in leaves the queue for the admitted, so nobody is lost
      have hperm : (queue ++ (gate.admitted ++ [(who, flag)])).Perm ((who, flag) :: queue ++ gate.admitted) := by
        rw [← List.append_assoc, List.cons_append]
        exact List.perm_append_singleton _ _
      have hsame : ({ gate with waiting := (who, flag) :: queue }.occupy flag).admitted = gate.admitted := by
        cases flag <;> rfl
      have hnodup : ((queue ++ ((({ gate with waiting := (who, flag) :: queue }.occupy flag).admitted) ++
          [(who, flag)])).map Prod.fst).Nodup := by
        rw [hsame]
        exact (hperm.map Prod.fst).nodup_iff.2 h.nodup
      have hadmitted := (h.occupy hadmits).admitted hnodup
      have hnext : { gate.occupy flag with
          waiting := queue
          admitted := (gate.occupy flag).admitted ++ [(who, flag)] }.Fits inside alone := by
        cases flag <;> exact hadmitted
      obtain ⟨hfits, hknown⟩ := @ih { gate.occupy flag with
          admitted := (gate.occupy flag).admitted ++ [(who, flag)] } hnext
      refine ⟨hfits, hknown.trans ?_⟩
      cases flag <;> exact hperm
    . exact ⟨h, .refl _⟩

theorem Fits.enter_now (h : gate.Fits inside alone) (henter : gate.enter who flag = (true, gate'))
    : gate'.Fits (inside + place flag false) (alone + place flag true) ∧ gate'.known = gate.known := by
  unfold enter at henter
  split at henter
  . next hadmits =>
    cases henter
    refine ⟨h.occupy (Bool.and_eq_true_iff.1 hadmits).2, ?_⟩
    cases flag <;> rfl
  . cases henter

theorem Fits.enter_later (h : gate.Fits inside alone) (hnew : ∀ entry ∈ gate.known, entry.1 ≠ who)
    (henter : gate.enter who flag = (false, gate'))
    : gate'.Fits inside alone ∧ gate'.known.Perm ((who, flag) :: gate.known) := by
  unfold enter at henter
  split at henter
  . cases henter
  . cases henter
    have hperm : (gate.waiting ++ [(who, flag)] ++ gate.admitted).Perm ((who, flag) :: gate.known) := by
      rw [List.append_assoc]
      exact List.perm_middle
    refine ⟨⟨h.shared, h.exclusive, h.apart, ?_⟩, hperm⟩
    apply (hperm.map Prod.fst).nodup_iff.2
    rw [List.map_cons, List.nodup_cons]
    refine ⟨?_, h.nodup⟩
    intro hmem
    obtain ⟨entry, hentry, hwho⟩ := List.mem_map.1 hmem
    exact hnew entry hentry hwho

theorem countP_filter_ne {entries : List (Nat × Bool)} (hnodup : (entries.map Prod.fst).Nodup)
    (h : (who, flag) ∈ entries) (b : Bool)
    : (entries.filter (·.1 ≠ who)).countP (·.2 == b) + place flag b
        =
      entries.countP (·.2 == b) := by
  induction entries with
  | nil => cases h
  | cons entry entries ih =>
    rw [List.map_cons, List.nodup_cons] at hnodup
    obtain ⟨hnew, hnodup⟩ := hnodup
    rcases List.mem_cons.1 h with rfl | h
    . have hall : entries.filter (·.1 ≠ who) = entries := by
        apply List.filter_eq_self.2
        intro other hother
        rw [decide_eq_true_eq]
        intro heq
        exact hnew (List.mem_map.2 ⟨other, hother, heq⟩)
      rw [List.filter_cons_of_neg (by simp), hall, List.countP_cons]
      cases b <;> cases flag <;> rfl
    . have hne : entry.1 ≠ who := by
        intro heq
        exact hnew (List.mem_map.2 ⟨_, h, heq.symm⟩)
      rw [List.filter_cons_of_pos (by simpa using hne), List.countP_cons, List.countP_cons, ← ih hnodup h]
      omega

theorem Fits.told (h : gate.Fits inside alone) (hadmitted : (who, flag) ∈ gate.admitted)
    : { gate with admitted := gate.admitted.filter (·.1 ≠ who) }.Fits (inside + place flag false)
        (alone + place flag true) := by
  have hnodup := h.nodup
  unfold known at hnodup
  rw [List.map_append] at hnodup
  have hcount := countP_filter_ne (List.nodup_append.1 hnodup).2.1 hadmitted
  have hinside := h.shared
  have halone := h.exclusive
  refine ⟨?_, ?_, h.apart, ?_⟩
  . show inside + _ + (gate.admitted.filter (·.1 ≠ who)).countP (·.2 == false) ≤ gate.shared
    have := hcount false
    unfold pending at hinside
    omega
  . show alone + _ + (gate.admitted.filter (·.1 ≠ who)).countP (·.2 == true) ≤ gate.exclusive.toNat
    have := hcount true
    unfold pending at halone
    omega
  . show ((gate.waiting ++ gate.admitted.filter (·.1 ≠ who)).map Prod.fst).Nodup
    exact h.nodup.sublist (((List.Sublist.refl _).append List.filter_sublist).map Prod.fst)

theorem Fits.ne_of_mem_waiting (h : gate.Fits inside alone) (hadmitted : (who, flag) ∈ gate.admitted)
    : ∀ entry ∈ gate.waiting, entry.1 ≠ who := by
  intro entry hentry hwho
  have hnodup := h.nodup
  unfold known at hnodup
  rw [List.map_append] at hnodup
  exact (List.nodup_append.1 hnodup).2.2 _ (List.mem_map_of_mem hentry) _ (List.mem_map_of_mem hadmitted) hwho

theorem Fits.notice_true (h : gate.Fits inside alone) (hnotice : gate.notice who = (true, gate'))
    (hflag : ∀ other, (who, other) ∈ gate.known → other = flag)
    : gate'.Fits (inside + place flag false) (alone + place flag true) ∧
        ∀ entry ∈ gate'.known, entry ∈ gate.known ∧ entry.1 ≠ who := by
  unfold notice at hnotice
  split at hnotice
  . next hany =>
    cases hnotice
    obtain ⟨⟨name, other⟩, hentry, hname⟩ := List.any_eq_true.1 hany
    cases of_decide_eq_true hname
    cases hflag other (List.mem_append_right _ hentry)
    refine ⟨h.told hentry, ?_⟩
    intro entry hmem
    rcases List.mem_append.1 hmem with hmem | hmem
    . exact ⟨List.mem_append_left _ hmem, h.ne_of_mem_waiting hentry entry hmem⟩
    . obtain ⟨hmem, hne⟩ := List.mem_filter.1 hmem
      exact ⟨List.mem_append_right _ hmem, of_decide_eq_true hne⟩
  . cases hnotice

theorem notice_false (hnotice : gate.notice who = (false, gate')) : gate' = gate := by
  unfold notice at hnotice
  split at hnotice
  . cases hnotice
  . cases hnotice
    rfl

theorem Fits.leave (h : gate.Fits (inside + place flag false) (alone + place flag true))
    : (gate.leave flag).Fits inside alone ∧ (gate.leave flag).known.Perm gate.known := by
  have hinside := h.shared
  have halone := h.exclusive
  cases flag with
  | false =>
    have hfits : { gate with shared := gate.shared - 1 }.Fits inside alone := by
      refine ⟨?_, halone, ?_, h.nodup⟩
      . have hplace : place false false = 1 := rfl
        show inside + gate.pending false ≤ gate.shared - 1
        omega
      . intro hexclusive
        show gate.shared - 1 = 0
        rw [h.apart hexclusive]
    exact hfits.letIn
  | true =>
    have hfits : { gate with exclusive := false }.Fits inside alone := by
      refine ⟨hinside, ?_, nofun, h.nodup⟩
      have hplace : place true true = 1 := rfl
      have := gate.exclusive.toNat_le
      show alone + gate.pending true ≤ 0
      omega
    exact hfits.letIn

theorem Fits.giveUp (h : gate.Fits inside alone)
    : (gate.giveUp who).Fits inside alone ∧
        ∀ entry ∈ (gate.giveUp who).known, entry ∈ gate.known ∧ entry.1 ≠ who := by
  unfold Gate.giveUp
  split
  . next name flag hfound =>
    have hentry := List.mem_of_find?_eq_some hfound
    have hname : name = who := by
      simpa using List.find?_some hfound
    cases hname
    obtain ⟨hfits, hperm⟩ := (h.told hentry).leave
    refine ⟨hfits, ?_⟩
    intro entry hmem
    rcases List.mem_append.1 (hperm.mem_iff.1 hmem) with hmem | hmem
    . exact ⟨List.mem_append_left _ hmem, h.ne_of_mem_waiting hentry entry hmem⟩
    . obtain ⟨hmem, hne⟩ := List.mem_filter.1 hmem
      exact ⟨List.mem_append_right _ hmem, of_decide_eq_true hne⟩
  . next hfound =>
    have hsub : (gate.waiting.filter (·.1 ≠ who) ++ gate.admitted).Sublist gate.known :=
      List.filter_sublist.append (List.Sublist.refl _)
    have hfits : { gate with waiting := gate.waiting.filter (·.1 ≠ who) }.Fits inside alone :=
      ⟨h.shared, h.exclusive, h.apart, h.nodup.sublist (hsub.map Prod.fst)⟩
    obtain ⟨hfits, hperm⟩ := hfits.letIn
    refine ⟨hfits, ?_⟩
    intro entry hmem
    have hmem := hperm.mem_iff.1 hmem
    refine ⟨hsub.subset hmem, ?_⟩
    rcases List.mem_append.1 hmem with hmem | hmem
    . exact of_decide_eq_true (List.mem_filter.1 hmem).2
    . intro hwho
      exact List.find?_eq_none.1 hfound entry hmem (decide_eq_true hwho)

end Gate

end ReplicatedStore
