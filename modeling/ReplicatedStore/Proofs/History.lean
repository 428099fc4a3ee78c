import Mathlib.Algebra.Group.Nat.Defs
import Mathlib.Data.List.Basic
import ReplicatedStore.Consensus.Application

/-!
Whole histories of the replicated log, from the first entry on and past every snapshot, and the map
that a history leads to.
-/

namespace ReplicatedStore

abbrev History := List LogEntry

namespace History

def Numbered (h : History) : Prop :=
  ∀ (k : Nat) (hk : k < h.length), h[k].index = k + 1

def termAt (h : History) : Nat → Nat
  | 0 => 0
  | k + 1 => (h[k]?.map (·.term)).getD 0

def lastTerm (h : History) : Nat := termAt h h.length

def replay (h : History) : Except EncodingError KeyMap :=
  h.foldlM (fun map entry => NodeM.change entry map) .empty

variable {h g : History} {i k t : Nat}

@[simp]
theorem termAt_zero (h : History) : termAt h 0 = 0 := by
  rfl

theorem termAt_succ (hk : k < h.length) : termAt h (k + 1) = h[k].term := by
  simp [termAt, hk]

theorem termAt_of_isPrefix (hp : g <+: h) (hi : i ≤ g.length) : termAt h i = termAt g i := by
  cases i with
  | zero => rfl
  | succ k =>
    have := hp.length_le
    rw [termAt_succ (show k < g.length by omega)]
    rw [termAt_succ (show k < h.length by omega)]
    rw [hp.getElem]

theorem termAt_take (hk : k ≤ i) : termAt (h.take i) k = termAt h k := by
  cases k with
  | zero => rfl
  | succ k => simp [termAt, show k < i by omega]

theorem lastTerm_take (hi : i ≤ h.length) : lastTerm (h.take i) = termAt h i := by
  unfold lastTerm
  rw [List.length_take, Nat.min_eq_left hi]
  apply termAt_take
  omega

theorem lastTerm_eq (hne : 0 < h.length) : lastTerm h = h[h.length - 1].term := by
  have := termAt_succ (show h.length - 1 < h.length by omega)
  rw [← this]
  unfold lastTerm
  congr
  omega

theorem lastTerm_mem (hne : 0 < h.length) : ∃ e ∈ h, e.term = lastTerm h := by
  rw [lastTerm_eq hne]
  exact ⟨_, List.getElem_mem _, rfl⟩

@[simp]
theorem numbered_nil : Numbered [] := by
  intro k hk
  simp at hk

theorem Numbered.take (hn : Numbered h) (i : Nat) : Numbered (h.take i) := by
  intro k hk
  rw [List.getElem_take]
  apply hn

theorem Numbered.of_isPrefix (hn : Numbered h) (hp : g <+: h) : Numbered g := by
  rw [List.prefix_iff_eq_take.1 hp]
  apply hn.take

theorem Numbered.append (hn : Numbered h) {e : LogEntry} (he : e.index = h.length + 1)
    : Numbered (h ++ [e]) := by
  intro k hk
  rw [List.getElem_append]
  split
  . apply hn
  . have : k = h.length := by
      simp at hk
      omega
    simp [he, this]

theorem Numbered.termAt_index (hn : Numbered h) {e : LogEntry} (he : e ∈ h)
    : e.index ≤ h.length ∧ termAt h e.index = e.term := by
  obtain ⟨k, hk, rfl⟩ := List.getElem_of_mem he
  rw [hn k hk]
  exact ⟨hk, termAt_succ hk⟩

theorem replay_concat (h : History) (e : LogEntry)
    : replay (h ++ [e]) = (replay h).bind (NodeM.change e) := by
  unfold replay
  rw [List.foldlM_append]
  simp only [List.foldlM_cons, List.foldlM_nil]
  cases List.foldlM (fun map entry => NodeM.change entry map) KeyMap.empty h with
  | error e => rfl
  | ok map =>
    simp only [bind, Except.bind]
    cases NodeM.change e map <;> rfl

theorem replay_take_succ (hk : k < h.length) {map : KeyMap} (hm : replay (h.take k) = .ok map)
    : replay (h.take (k + 1)) = NodeM.change h[k] map := by
  rw [List.take_succ_eq_append_getElem hk]
  rw [replay_concat, hm]
  rfl

end History

end ReplicatedStore
