import ReplicatedStore.Cluster.World
import ReplicatedStore.Proofs.Consensus.Reaches

/-!
Rounds that confirm a leader: whoever acknowledges a message has been in no later term than the one that
the message was sent in.
-/

namespace ReplicatedStore

namespace NodeM

variable {α β : Type} {clock : Clock} {node node' : Node} {x : NodeM α} {f : α → NodeM β} {b : β}

theorem of_map {g : α → β} (h : (g <$> x) clock node = .ok b node')
    : ∃ a, x clock node = .ok a node' ∧ g a = b := by
  rw [← bind_pure_comp] at h
  obtain ⟨a, mid, hx, hpure⟩ := of_bind h
  cases hpure
  exact ⟨a, hx, rfl⟩

theorem onLog_hard {operation : LogM α} {a : α} (h : onLog operation clock node = .ok a node')
    : node'.hard = node.hard := by
  unfold onLog at h
  split at h
  . cases h
    rfl
  . cases h

theorem term_le_of_adoptTerm {term : Nat} {leader : Option NodeId}
    (h : adoptTerm term leader clock node = .ok () node')
    : node.term ≤ node'.term := by
  unfold adoptTerm at h
  rw [bind_get] at h
  split at h
  . next hlt =>
    rw [bind_modify] at h
    obtain ⟨_, mid, hsave, hrest⟩ := of_bind h
    unfold saveHardState at hsave
    rw [bind_get] at hsave
    have hhard := onLog_hard hsave
    cases hrest
    change _ ≤ mid.hard.term
    rw [hhard]
    exact Nat.le_of_lt hlt
  . cases h
    exact Nat.le_refl _

theorem term_le_of_follow {term : Nat} {leader : NodeId}
    (h : follow term leader clock node = .ok () node')
    : node.term ≤ node'.term := by
  unfold follow at h
  obtain ⟨_, mid, hadopt, hrest⟩ := of_bind h
  rw [bind_read] at hrest
  cases hrest
  have hle := term_le_of_adoptTerm hadopt
  exact hle

theorem of_ensureRunning (h : ensureRunning clock node = .ok () node') : node = node' := by
  unfold ensureRunning at h
  rw [bind_get] at h
  split at h
  . cases h
  . cases h
    rfl

theorem term_le_of_onAppendRequest {q : AppendRequest} {r : AppendResponse}
    (h : onAppendRequest q clock node = .ok r node')
    : node.term ≤ r.term := by
  unfold onAppendRequest at h
  obtain ⟨_, mid, hrunning, h⟩ := of_bind h
  cases of_ensureRunning hrunning
  rw [bind_get] at h
  split at h
  . cases h
    exact Nat.le_refl _
  . obtain ⟨_, next, hfollow, h⟩ := of_bind h
    have hle := term_le_of_follow hfollow
    rw [bind_get] at h
    dsimp only at h
    split at h
    . cases h
      exact hle
    . obtain ⟨_, _, -, h⟩ := of_bind h
      obtain ⟨_, _, -, h⟩ := of_bind h
      obtain ⟨_, _, -, h⟩ := of_bind h
      cases h
      exact hle

theorem term_le_of_onSnapshotRequest {q : SnapshotRequest} {r : SnapshotResponse}
    (h : onSnapshotRequest q clock node = .ok r node')
    : node.term ≤ r.term := by
  unfold onSnapshotRequest at h
  obtain ⟨_, mid, hrunning, h⟩ := of_bind h
  cases of_ensureRunning hrunning
  rw [bind_get] at h
  split at h
  . cases h
    exact Nat.le_refl _
  . obtain ⟨_, next, hfollow, h⟩ := of_bind h
    have hle := term_le_of_follow hfollow
    rw [bind_get] at h
    split at h
    . cases h
      exact hle
    . cases hmap : KeyMap.decode q.data with
      | error e =>
        rw [hmap] at h
        cases h
      | ok map =>
        rw [hmap] at h
        obtain ⟨_, _, -, h⟩ := of_bind h
        obtain ⟨_, _, -, h⟩ := of_bind h
        obtain ⟨_, _, -, h⟩ := of_bind h
        obtain ⟨_, _, -, h⟩ := of_bind h
        cases h
        exact hle

theorem of_acknowledged {peer : NodeId} {sentTerm responseTerm : Nat}
    (h : acknowledged peer sentTerm responseTerm clock node = .ok true node')
    : node.term = sentTerm ∧ responseTerm ≤ node.term := by
  unfold acknowledged at h
  rw [bind_get] at h
  split at h
  . cases h
  . split at h
    . obtain ⟨_, _, -, h⟩ := of_bind h
      cases h
    . next hle =>
      split at h
      . cases h
      . next hleads =>
        simp only [Bool.or_eq_true, Bool.not_eq_true', decide_eq_true_eq, not_or, ne_eq, not_not]
          at hleads
        exact ⟨hleads.2, Nat.le_of_not_lt hle⟩

theorem of_onAppendResponse {peer : NodeId} {sentTerm : Nat} {carried : Bool} {r : AppendResponse}
    {orders : List Order}
    (h : onAppendResponse peer sentTerm carried r clock node = .ok (true, orders) node')
    : node.term = sentTerm ∧ r.term ≤ node.term := by
  unfold onAppendResponse at h
  obtain ⟨acked, mid, hacked, h⟩ := of_bind h
  cases acked with
  | true => exact of_acknowledged hacked
  | false => cases h

theorem of_onSnapshotResponse {peer : NodeId} {sentTerm index : Nat} {r : SnapshotResponse}
    {orders : List Order}
    (h : onSnapshotResponse peer sentTerm index r clock node = .ok (true, orders) node')
    : node.term = sentTerm ∧ r.term ≤ node.term := by
  unfold onSnapshotResponse at h
  obtain ⟨acked, mid, hacked, h⟩ := of_bind h
  cases acked with
  | true => exact of_acknowledged hacked
  | false => cases h

end NodeM

end ReplicatedStore
