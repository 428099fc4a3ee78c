import Mathlib.Data.List.Nodup
import Mathlib.Data.List.Perm.Subperm
import Mathlib.Logic.Function.Basic
import ReplicatedStore.Proofs.History

/-!
What a cluster has done so far, as it would be told afterwards: who voted for whom, who led which term
and with which entries, and how much of that each member confirmed. Nothing here is ever forgotten.
-/

namespace ReplicatedStore

structure Chronicle where
  term : NodeId → Nat
  held : NodeId → History
  vote : NodeId → Nat → Option NodeId
  ballot : Nat → NodeId → History
  leader : Nat → Option NodeId
  opening : Nat → History
  log : Nat → History
  acked : NodeId → Nat → Nat

structure IsQuorum (ids quorum : List NodeId) : Prop where
  nodup : quorum.Nodup
  subset : quorum ⊆ ids
  size : ids.length / 2 + 1 ≤ quorum.length

theorem IsQuorum.meet {ids a b : List NodeId} (ha : IsQuorum ids a) (hb : IsQuorum ids b)
    : ∃ id, id ∈ a ∧ id ∈ b := by
  by_contra hnone
  have hdisjoint : a.Disjoint b := by
    intro id hia hib
    exact hnone ⟨id, hia, hib⟩
  have hnodup : (a ++ b).Nodup := ha.nodup.append hb.nodup hdisjoint
  have hsub : (a ++ b).Subperm ids := by
    apply hnodup.subperm
    exact List.append_subset.2 ⟨ha.subset, hb.subset⟩
  have hlength := hsub.length_le
  have := ha.size
  have := hb.size
  rw [List.length_append] at hlength
  omega

namespace Chronicle

def blank : Chronicle where
  term _ := 0
  held _ := []
  vote _ _ := none
  ballot _ _ := []
  leader _ := none
  opening _ := []
  log _ := []
  acked _ _ := 0

structure Sound (c : Chronicle) (h : History) : Prop where
  numbered : History.Numbered h
  led : ∀ (k : Nat) (hk : k < h.length), c.leader h[k].term ≠ none
  grown : ∀ (k : Nat) (hk : k < h.length), h.take (k + 1) <+: c.log h[k].term

def Lost (c : Chronicle) (t₀ i t : Nat) : Prop :=
  ∃ u, t₀ < u ∧ u ≤ t ∧ c.leader u ≠ none ∧ ¬ (c.log t₀).take i <+: c.opening u

def Retains (c : Chronicle) (id : NodeId) (t : Nat) (h : History) (upTo : Nat) : Prop :=
  ∀ t₀ i, t₀ < t → 1 ≤ i → i ≤ c.acked id t₀ → History.termAt (c.log t₀) i = t₀ →
    (c.log t₀).take i <+: h ∨ c.Lost t₀ i upTo

/-- The state of affairs that the rules of elections and of replication keep up. -/
structure Lawful (ids : List NodeId) (c : Chronicle) : Prop where
  held_sound : ∀ id, c.Sound (c.held id)
  held_term : ∀ id, ∀ e ∈ c.held id, e.term ≤ c.term id
  log_sound : ∀ t, c.Sound (c.log t)
  log_none : ∀ t, c.leader t = none → c.log t = []
  opening_isPrefix : ∀ t, c.opening t <+: c.log t
  opening_term : ∀ t, ∀ e ∈ c.opening t, e.term < t
  log_term : ∀ t, ∀ e ∈ (c.log t).drop (c.opening t).length, e.term = t
  leads : ∀ t id, c.leader t = some id → t ≤ c.term id
  leader_held : ∀ t id, c.leader t = some id → c.term id = t → c.held id = c.log t
  vote_term : ∀ id t x, c.vote id t = some x → t ≤ c.term id
  stands : ∀ id t x, c.vote id t = some x → c.vote x t = some x
  ballot_sound : ∀ id t x, c.vote id t = some x → c.Sound (c.ballot t x)
  ballot_term : ∀ id t x, c.vote id t = some x → ∀ e ∈ c.ballot t x, e.term < t
  granted : ∀ id t x, c.vote id t = some x → c.Retains id t (c.ballot t x) t
  elected : ∀ t x, c.leader t = some x →
    ∃ quorum, IsQuorum ids quorum ∧
      ∀ id ∈ quorum, c.vote id t = some x ∧ c.Retains id t (c.opening t) (t - 1)
  acked_leader : ∀ id t, 0 < c.acked id t → c.leader t ≠ none
  acked_term : ∀ id t, 0 < c.acked id t → t ≤ c.term id
  acked_le : ∀ id t, c.acked id t ≤ (c.log t).length
  kept : ∀ id t i, 1 ≤ i → i ≤ c.acked id t →
    (c.log t).take i <+: c.held id ∨ c.Lost t i (c.term id)

structure Extends (c c' : Chronicle) : Prop where
  term : ∀ id, c.term id ≤ c'.term id
  vote : ∀ id t x, c.vote id t = some x → c'.vote id t = some x
  ballot : ∀ t x, c.vote x t = some x → c'.ballot t x = c.ballot t x
  leader : ∀ t x, c.leader t = some x → c'.leader t = some x
  opening : ∀ t, c.leader t ≠ none → c'.opening t = c.opening t
  log : ∀ t, c.log t <+: c'.log t
  acked : ∀ id t, c.acked id t ≤ c'.acked id t

variable {ids : List NodeId} {c c' c'' : Chronicle} {h g : History}
  {id : NodeId} {t t' t₀ u u' i : Nat}

theorem Extends.refl (c : Chronicle) : c.Extends c where
  term _ := Nat.le_refl _
  vote _ _ _ h := h
  ballot _ _ _ := rfl
  leader _ _ h := h
  opening _ _ := rfl
  log _ := List.prefix_refl _
  acked _ _ := Nat.le_refl _

theorem Extends.leader_ne (h : c.Extends c') {t : Nat} (ht : c.leader t ≠ none)
    : c'.leader t ≠ none := by
  cases hx : c.leader t with
  | none => contradiction
  | some x =>
    rw [h.leader t x hx]
    simp

theorem Extends.trans (h : c.Extends c') (h' : c'.Extends c'') : c.Extends c'' where
  term id := Nat.le_trans (h.term id) (h'.term id)
  vote id t x hv := h'.vote id t x (h.vote id t x hv)
  ballot t x hv := by
    rw [h'.ballot t x (h.vote x t x hv)]
    rw [h.ballot t x hv]
  leader t x hl := h'.leader t x (h.leader t x hl)
  opening t hl := by
    rw [h'.opening t (h.leader_ne hl)]
    rw [h.opening t hl]
  log t := (h.log t).trans (h'.log t)
  acked id t := Nat.le_trans (h.acked id t) (h'.acked id t)

theorem Extends.log_take (h : c.Extends c') {t i : Nat} (hi : i ≤ (c.log t).length)
    : (c'.log t).take i = (c.log t).take i := by
  obtain ⟨rest, hrest⟩ := h.log t
  rw [← hrest]
  rw [List.take_append_of_le_length hi]

theorem Extends.log_termAt (h : c.Extends c') {t i : Nat} (hi : i ≤ (c.log t).length)
    : History.termAt (c'.log t) i = History.termAt (c.log t) i := by
  apply History.termAt_of_isPrefix
  . apply h.log
  . exact hi

theorem sound_nil (c : Chronicle) : c.Sound [] where
  numbered := by simp
  led k hk := by simp at hk
  grown k hk := by simp at hk

theorem Sound.of_isPrefix (hs : c.Sound h) (hp : g <+: h) : c.Sound g where
  numbered := hs.numbered.of_isPrefix hp
  led k hk := by
    have := hp.length_le
    rw [hp.getElem]
    apply hs.led
  grown k hk := by
    have := hp.length_le
    have htake : g.take (k + 1) = h.take (k + 1) := by
      rw [List.prefix_iff_eq_take.1 hp]
      rw [List.take_take]
      congr
      omega
    rw [htake, hp.getElem]
    apply hs.grown

theorem Sound.mono (hs : c.Sound h) (he : c.Extends c') : c'.Sound h where
  numbered := hs.numbered
  led k hk := he.leader_ne (hs.led k hk)
  grown k hk := (hs.grown k hk).trans (he.log _)

theorem Sound.take_eq (hs : c.Sound h) (hs' : c.Sound g) {i : Nat} (hi : i ≤ h.length)
    (hi' : i ≤ g.length) (ht : History.termAt h i = History.termAt g i)
    : h.take i = g.take i := by
  cases i with
  | zero => simp
  | succ k =>
    rw [History.termAt_succ (show k < h.length by omega)] at ht
    rw [History.termAt_succ (show k < g.length by omega)] at ht
    have hlog := hs.grown k (by omega)
    have hlog' := hs'.grown k (by omega)
    rw [← ht] at hlog'
    apply (List.prefix_of_prefix_length_le hlog hlog' ?_).eq_of_length
    . simp [hi, hi']
    . simp [hi, hi']

theorem Sound.isPrefix_log (hs : c.Sound h) (hne : 0 < h.length)
    : h <+: c.log (History.lastTerm h) := by
  have := hs.grown (h.length - 1) (by omega)
  rw [← History.lastTerm_eq hne] at this
  rw [Nat.sub_add_cancel hne, List.take_length] at this
  exact this

theorem Sound.led_lastTerm (hs : c.Sound h) (hne : 0 < h.length)
    : c.leader (History.lastTerm h) ≠ none := by
  rw [History.lastTerm_eq hne]
  apply hs.led

theorem Sound.concat (hs : c.Sound h) {e : LogEntry} (hindex : e.index = h.length + 1)
    (hled : c.leader e.term ≠ none) (hlog : h ++ [e] <+: c.log e.term)
    : c.Sound (h ++ [e]) where
  numbered := hs.numbered.append hindex
  led k hk := by
    rw [List.getElem_append]
    split
    . apply hs.led
    . simpa using hled
  grown k hk := by
    rw [List.getElem_append]
    split
    . next hlt =>
      rw [List.take_append_of_le_length (by omega)]
      apply hs.grown
    . simp only [List.getElem_singleton]
      exact (List.take_prefix _ _).trans hlog

theorem Lost.mono (hl : c.Lost t₀ i t) (he : c.Extends c') (hi : i ≤ (c.log t₀).length)
    (ht : t ≤ t') : c'.Lost t₀ i t' := by
  obtain ⟨u, hu, hut, hleader, hmissing⟩ := hl
  refine ⟨u, hu, by omega, he.leader_ne hleader, ?_⟩
  rw [he.log_take hi, he.opening u hleader]
  exact hmissing

theorem Retains.mono (hr : c.Retains id t h u) (he : c.Extends c')
    (hacked : ∀ t₀ < t, c'.acked id t₀ = c.acked id t₀)
    (hle : ∀ t₀, c.acked id t₀ ≤ (c.log t₀).length) (hu : u ≤ u')
    : c'.Retains id t h u' := by
  intro t₀ i ht hi hia hterm
  rw [hacked t₀ ht] at hia
  have hlen : i ≤ (c.log t₀).length := Nat.le_trans hia (hle t₀)
  rw [he.log_take hlen]
  rw [he.log_termAt hlen] at hterm
  cases hr t₀ i ht hi hia hterm with
  | inl hp => exact .inl hp
  | inr hl => exact .inr (hl.mono he hlen hu)

end Chronicle

end ReplicatedStore
