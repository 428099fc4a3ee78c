import ReplicatedStore.Proofs.History
import ReplicatedStore.Proofs.Storage.LogStore

/-!
A log as the part of a history that its snapshot does not cover, and what can be read off it.
-/

namespace ReplicatedStore

namespace History

theorem Numbered.follows {h : History} (hn : Numbered h) {i : Nat} : Follows i (h.drop i) := by
  apply Follows.of_forall
  intro k hk
  rw [List.getElem_drop, hn]

end History

namespace LogStore

structure Shows (log : LogStore) (h : History) : Prop where
  numbered : h.Numbered
  covered : log.snapshotIndex ≤ h.length
  entries : log.entries = h.drop log.snapshotIndex
  term : log.snapshotTerm = h.termAt log.snapshotIndex

variable {log : LogStore} {h : History} {i t : Nat}

namespace Shows

theorem follows (hs : log.Shows h) : Follows log.snapshotIndex log.entries := by
  rw [hs.entries]
  exact hs.numbered.follows

theorem length_entries (hs : log.Shows h)
    : log.snapshotIndex + log.entries.length = h.length := by
  have := hs.covered
  rw [hs.entries, List.length_drop]
  omega

theorem lastIndex (hs : log.Shows h) : log.lastIndex = h.length := by
  rw [lastIndex_eq hs.follows, hs.length_entries]

theorem get? (hs : log.Shows h) (hi : log.snapshotIndex < i) : log.get? i = h[i - 1]? := by
  unfold LogStore.get? position
  rw [if_neg (by omega), hs.entries, List.getElem?_drop]
  congr 1
  omega

theorem termAt? (hs : log.Shows h) (hlow : log.snapshotIndex ≤ i) (hi : i ≤ h.length)
    : log.termAt? i = some (h.termAt i) := by
  unfold LogStore.termAt?
  split
  . next hzero =>
    rw [hzero]
    rfl
  . next hne =>
    split
    . next heq => rw [hs.term, heq]
    . next hne' =>
      obtain ⟨k, rfl⟩ : ∃ k, i = k + 1 := ⟨i - 1, by omega⟩
      have hk : k < h.length := by omega
      rw [hs.get? (by omega), Nat.add_sub_cancel]
      rw [List.getElem?_eq_getElem hk, History.termAt_succ hk]
      rfl

theorem termAt?_none (hs : log.Shows h) (hi : h.length < i) : log.termAt? i = none := by
  have := hs.covered
  unfold LogStore.termAt?
  rw [if_neg (by omega), if_neg (by omega), hs.get? (by omega)]
  rw [List.getElem?_eq_none (by omega)]
  rfl

theorem of_termAt? (hs : log.Shows h) (ht : log.termAt? i = some t)
    : i ≤ h.length ∧ h.termAt i = t := by
  by_cases hzero : i = 0
  . unfold LogStore.termAt? at ht
    rw [if_pos hzero] at ht
    cases ht
    rw [hzero]
    exact ⟨Nat.zero_le _, rfl⟩
  . by_cases hhigh : h.length < i
    . rw [hs.termAt?_none hhigh] at ht
      cases ht
    . by_cases hlow : log.snapshotIndex ≤ i
      . rw [hs.termAt? hlow (by omega)] at ht
        cases ht
        exact ⟨by omega, rfl⟩
      . unfold LogStore.termAt? LogStore.get? at ht
        rw [if_neg hzero, if_neg (by omega), if_pos (by omega)] at ht
        cases ht

theorem lastTerm (hs : log.Shows h) : log.lastTerm = h.lastTerm := by
  have hcovered := hs.covered
  unfold LogStore.lastTerm
  rw [hs.entries, List.getLast?_drop]
  split
  . next hle =>
    rw [hs.term, show log.snapshotIndex = h.length by omega]
    rfl
  . next hlt =>
    rw [List.getLast?_eq_getElem?, List.getElem?_eq_getElem (by omega)]
    rw [History.lastTerm_eq (by omega)]
    rfl

theorem takeFrom (hs : log.Shows h) (hi : log.snapshotIndex < i) (most : Nat)
    : log.takeFrom i most = (h.drop (i - 1)).take most := by
  unfold LogStore.takeFrom position
  rw [if_neg (by omega), hs.entries, List.drop_drop]
  congr 2
  omega

end Shows

end LogStore

end ReplicatedStore
