import Mathlib.Order.Lattice.Nat
import ReplicatedStore.Proofs.Runs.Safety

/-!
The entries that are ever committed in a run, in one list.
-/

namespace ReplicatedStore

open Chronicle

/-- All entries that are committed in a run: what any node ever commits and applies is a first part of
them, and some node commits them all. -/
structure CommittedLog (K : Cluster) (events : List Event) (log : History) : Prop where
  committed : ∀ k n x, (K.moment events k).node? n = some x →
    x.commitIndex ≤ log.length ∧ x.Includes (log.take x.commitIndex)
  applied : ∀ k n x, (K.moment events k).node? n = some x →
    x.lastApplied ≤ x.commitIndex ∧ History.replay (log.take x.lastApplied) = .ok x.map
  reached : log = [] ∨ ∃ k n x, (K.moment events k).node? n = some x ∧ x.commitIndex = log.length

theorem exists_greatest {p : Nat → Prop} {i bound : Nat} (hi : p i) (hbound : ∀ j, p j → j ≤ bound)
    : ∃ j, p j ∧ ∀ k, p k → k ≤ j := by
  have hbdd : BddAbove {j | p j} := ⟨bound, hbound⟩
  exact ⟨sSup {j | p j}, Nat.sSup_mem ⟨i, hi⟩ hbdd, fun k hk => le_csSup hbdd hk⟩

theorem moment_min (K : Cluster) (events : List Event) (k : Nat)
    : K.moment events (min k events.length) = K.moment events k := by
  unfold Cluster.moment
  congr 1
  exact List.take_eq_take_min.symm

namespace Chronicle

variable {K : Cluster} {events : List Event} {chronicle : Nat → Chronicle} {n : NodeId} {x : Node}
  {log g : History} {k t u : Nat}

theorem Mirror.commitIndex_lt {c : Chronicle} (hm : Mirror K c n x) : x.commitIndex < 2 ^ 64 := by
  obtain ⟨snapshot, hi, -⟩ := hm.files
  have := hi.lastIndex_lt
  have := hm.committed
  have := hm.lastIndex
  omega

namespace Chronicled

theorem commits (hc : Chronicled K events chronicle) (hx : (K.moment events k).node? n = some x)
    : ∃ g t, g.length = x.commitIndex ∧ Settled K.ids (chronicle events.length) t g ∧ x.Includes g ∧
        x.lastApplied ≤ x.commitIndex ∧ History.replay (g.take x.lastApplied) = .ok x.map := by
  rw [← moment_min] at hx
  have hm := hc.mirror hx
  have hcommitted := hm.committed
  refine ⟨((chronicle (min k events.length)).held n).take x.commitIndex, _, ?_,
    hm.settled.mono (hc.lawful _) (hc.later (Nat.min_le_right _ _)),
    hm.includes (List.take_prefix _ _), hm.applied, ?_⟩
  . rw [List.length_take]
    omega
  . rw [List.take_take, Nat.min_eq_left hm.applied]
    exact hm.map

theorem isPrefix_of_length_le (hc : Chronicled K events chronicle) {i j : Nat}
    (hlog : Settled K.ids (chronicle i) t log) (hg : Settled K.ids (chronicle j) u g)
    (hle : g.length ≤ log.length)
    : g <+: log := by
  have hlog' := hlog.mono (hc.lawful i) (hc.later (Nat.le_max_left i j))
  have hg' := hg.mono (hc.lawful j) (hc.later (Nat.le_max_right i j))
  rcases hg'.prefix_or_prefix hlog' (hc.lawful _) with hp | hp
  . exact hp
  . rw [hp.eq_of_length (Nat.le_antisymm hp.length_le hle)]

theorem committedLog_of_greatest (hc : Chronicled K events chronicle)
    (hlog : Settled K.ids (chronicle events.length) t log)
    (hgreatest : ∀ k n x, (K.moment events k).node? n = some x → x.commitIndex ≤ log.length)
    (hreached : log = [] ∨
      ∃ k n x, (K.moment events k).node? n = some x ∧ x.commitIndex = log.length)
    : CommittedLog K events log := by
  have htake : ∀ k n x, (K.moment events k).node? n = some x →
      x.Includes (log.take x.commitIndex) ∧ x.lastApplied ≤ x.commitIndex ∧
        History.replay (log.take x.lastApplied) = .ok x.map := by
    intro k n x hx
    obtain ⟨g, u, hlength, hg, hincludes, happlied, hmap⟩ := hc.commits hx
    have hp : g <+: log := hc.isPrefix_of_length_le hlog hg (hlength ▸ hgreatest k n x hx)
    have heq : log.take x.commitIndex = g := by
      rw [← hlength]
      exact (List.prefix_iff_eq_take.1 hp).symm
    rw [← heq, List.take_take, Nat.min_eq_left happlied] at hmap
    rw [heq]
    exact ⟨hincludes, happlied, hmap⟩
  exact {
    committed := fun k n x hx => ⟨hgreatest k n x hx, (htake k n x hx).1⟩
    applied := fun k n x hx => (htake k n x hx).2
    reached := hreached }

theorem exists_committedLog (hc : Chronicled K events chronicle)
    : ∃ log t, CommittedLog K events log ∧ Settled K.ids (chronicle events.length) t log := by
  by_cases hany : ∃ k n x, (K.moment events k).node? n = some x
  . obtain ⟨k₀, n₀, x₀, hx₀⟩ := hany
    let p (i : Nat) : Prop := ∃ k n x, (K.moment events k).node? n = some x ∧ x.commitIndex = i
    have hbound : ∀ i, p i → i ≤ 2 ^ 64 := by
      rintro i ⟨k, n, x, hx, rfl⟩
      exact Nat.le_of_lt (hc.mirror hx).commitIndex_lt
    obtain ⟨i, ⟨k, n, x, hx, rfl⟩, hgreatest⟩ := exists_greatest (p := p) ⟨k₀, n₀, x₀, hx₀, rfl⟩ hbound
    obtain ⟨g, t, hlength, hg, -⟩ := hc.commits hx
    refine ⟨g, t, hc.committedLog_of_greatest hg ?_ (.inr ⟨k, n, x, hx, hlength.symm⟩), hg⟩
    intro k' n' x' hx'
    rw [hlength]
    exact hgreatest _ ⟨k', n', x', hx', rfl⟩
  . refine ⟨[], 0, hc.committedLog_of_greatest (settled_nil _ _ 0) ?_ (.inl rfl), settled_nil _ _ 0⟩
    intro k n x hx
    exact absurd ⟨k, n, x, hx⟩ hany

end Chronicled

end Chronicle

theorem CommittedLog.length_le_of_all {K : Cluster} {events : List Event} {log : History} {bound : Nat}
    (hlog : CommittedLog K events log)
    (h : ∀ k ≤ events.length, ∀ n ∈ K.ids,
      ((K.moment events k).node? n).all (fun x => decide (x.commitIndex ≤ bound)) = true)
    : log.length ≤ bound := by
  rcases hlog.reached with rfl | ⟨k, n, x, hx, hlength⟩
  . exact Nat.zero_le _
  . obtain ⟨chronicle, hc⟩ := exists_chronicled K events
    rw [← moment_min] at hx
    have hall := h _ (Nat.min_le_right k _) n (hc.mirror hx).member
    rw [hx] at hall
    rw [← hlength]
    exact of_decide_eq_true hall

end ReplicatedStore
