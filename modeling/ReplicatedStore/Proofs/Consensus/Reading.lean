import ReplicatedStore.Consensus.Proposal
import ReplicatedStore.Proofs.Consensus.View
import ReplicatedStore.Proofs.KeySpace.Conflicts
import ReplicatedStore.Proofs.KeySpace.TransactionView

/-!
Reads that a leader found valid: no entry after the base of the transaction changes what was read.
-/

namespace ReplicatedStore

open TransactionView (Agrees)

namespace History

variable {h : History}

theorem replay_append (h g : History)
    : replay (h ++ g) = (replay h).bind fun map => g.foldlM (fun map e => NodeM.change e map) map := by
  unfold replay
  rw [List.foldlM_append]
  rfl

end History

namespace NodeM

variable {reads : KeyRanges} {g g' : History} {entry : LogEntry} {map map' : KeyMap}

theorem checkEntries_of_isPrefix (hp : g <+: g') (h : checkEntries reads g' = .ok ())
    : checkEntries reads g = .ok () := by
  obtain ⟨rest, rfl⟩ := hp
  induction g with
  | nil => rfl
  | cons entry g ih =>
    rw [List.cons_append] at h
    unfold checkEntries at h ⊢
    split at h
    . next hnoop =>
      rw [if_pos hnoop]
      exact ih h
    . next hnoop =>
      rw [if_neg hnoop]
      cases hdecode : WriteSet.decode entry.command with
      | error e =>
        rw [hdecode] at h
        cases h
      | ok writes =>
        rw [hdecode] at h
        dsimp only at h ⊢
        split at h
        . cases h
        . next hundisturbed =>
          rw [if_neg hundisturbed]
          exact ih h

theorem agrees_change (hreads : reads.Ordered) (h : checkEntries reads [entry] = .ok ())
    (hchange : change entry map = .ok map')
    : Agrees reads map map' := by
  intro key hkey
  unfold checkEntries at h
  unfold change at hchange
  split at h
  . next hnoop =>
    rw [if_pos hnoop] at hchange
    cases hchange
    rfl
  . next hnoop =>
    rw [if_neg hnoop] at hchange
    cases hdecode : WriteSet.decode entry.command with
    | error e =>
      rw [hdecode] at h
      cases h
    | ok writes =>
      rw [hdecode] at h hchange
      cases hchange
      dsimp only at h
      split at h
      . cases h
      . next hundisturbed =>
        exact (WriteSet.get?_performOn hreads hkey (Bool.eq_false_iff.2 hundisturbed)).symm

theorem checkEntries_cons (h : checkEntries reads (entry :: g) = .ok ())
    : checkEntries reads [entry] = .ok () ∧ checkEntries reads g = .ok () := by
  refine ⟨checkEntries_of_isPrefix ⟨g, rfl⟩ h, ?_⟩
  unfold checkEntries at h
  split at h
  . exact h
  . cases hdecode : WriteSet.decode entry.command with
    | error e =>
      rw [hdecode] at h
      cases h
    | ok writes =>
      rw [hdecode] at h
      dsimp only at h
      split at h
      . cases h
      . exact h

theorem agrees_of_checkEntries (hreads : reads.Ordered) (h : checkEntries reads g = .ok ())
    (hmap : g.foldlM (fun map e => change e map) map = .ok map')
    : Agrees reads map map' := by
  induction g generalizing map with
  | nil =>
    cases hmap
    exact fun _ _ => rfl
  | cons entry g ih =>
    obtain ⟨hentry, hrest⟩ := checkEntries_cons h
    rw [List.foldlM_cons] at hmap
    cases hchange : change entry map with
    | error e =>
      rw [hchange] at hmap
      cases hmap
    | ok next =>
      rw [hchange] at hmap
      intro key hkey
      exact (agrees_change hreads hentry hchange key hkey).trans (ih hrest hmap key hkey)

end NodeM

namespace LogStore.Shows

variable {log : LogStore} {h : History} {i : Nat}

theorem between (hs : log.Shows h) (hlow : log.snapshotIndex ≤ i)
    : log.between i log.lastIndex = h.drop i := by
  have hdrop : log.entries.filter (i < ·.index) = h.drop i := by
    rw [filter_index hs.follows hlow, hs.entries, List.drop_drop]
    congr 1
    omega
  unfold LogStore.between
  rw [← hdrop]
  apply List.filter_congr
  intro e he
  obtain ⟨k, hk, rfl⟩ := List.getElem_of_mem he
  have hindex := hs.follows.index_eq hk
  have hlength := hs.length_entries
  have hlast := hs.lastIndex
  simp only [Bool.and_eq_left_iff_imp, decide_eq_true_eq]
  omega

theorem of_validateReads {proposal : Proposal} (hs : log.Shows h)
    (hreads : proposal.reads.isEmpty = false)
    (hok : NodeM.validateReads log proposal = .ok ())
    : proposal.baseIndex ≤ h.length ∧ h.termAt proposal.baseIndex = proposal.baseTerm ∧
        NodeM.checkEntries proposal.reads (h.drop proposal.baseIndex) = .ok () := by
  unfold NodeM.validateReads at hok
  rw [hreads] at hok
  dsimp only at hok
  rw [if_neg (by simp)] at hok
  split at hok
  . cases hok
  . next hlow =>
    split at hok
    . cases hok
    . next hterm =>
      obtain ⟨hle, hbase⟩ := hs.of_termAt? (not_not.1 hterm)
      rw [hs.between (Nat.le_of_not_lt hlow)] at hok
      exact ⟨hle, hbase, hok⟩

end LogStore.Shows

end ReplicatedStore
