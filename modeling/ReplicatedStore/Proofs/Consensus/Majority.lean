import ReplicatedStore.Proofs.Consensus.Mirror

/-!
The index that a leader takes for held by a majority: a quorum has confirmed the log of the leader up
to there.
-/

namespace ReplicatedStore

namespace List

theorem lt_countP_of_pairwise {l : List Nat} (h : l.Pairwise (fun a b => b ≤ a)) {k : Nat}
    (hk : k < l.length)
    : k < l.countP (fun a => decide (l[k] ≤ a)) := by
  have hall : ∀ a ∈ l.take (k + 1), decide (l[k] ≤ a) = true := by
    intro a ha
    obtain ⟨j, hj, rfl⟩ := List.mem_take_iff_getElem.1 ha
    apply decide_eq_true
    cases Nat.eq_or_lt_of_le (show j ≤ k by omega) with
    | inl heq =>
      subst heq
      exact Nat.le_refl _
    | inr hlt => exact List.pairwise_iff_getElem.1 h j k (by omega) hk hlt
  have hcount := List.countP_eq_length.2 hall
  have hle := (List.take_sublist (k + 1) l).countP_le (p := fun a => decide (l[k] ≤ a))
  rw [hcount, List.length_take] at hle
  omega

end List

namespace NodeM

theorem insertFalling_perm (index : Nat) (l : List Nat)
    : (insertFalling index l).Perm (index :: l) := by
  induction l with
  | nil => exact .refl _
  | cons other rest ih =>
    unfold insertFalling
    split
    . exact .refl _
    . exact (ih.cons other).trans (.swap index other rest)

theorem insertFalling_pairwise (index : Nat) {l : List Nat} (h : l.Pairwise (fun a b => b ≤ a))
    : (insertFalling index l).Pairwise (fun a b => b ≤ a) := by
  induction l with
  | nil => exact List.pairwise_singleton _ _
  | cons other rest ih =>
    obtain ⟨hother, hrest⟩ := List.pairwise_cons.1 h
    unfold insertFalling
    split
    . next hle =>
      refine List.pairwise_cons.2 ⟨?_, h⟩
      intro a ha
      rcases List.mem_cons.1 ha with rfl | ha
      . exact hle
      . exact Nat.le_trans (hother a ha) hle
    . next hlt =>
      refine List.pairwise_cons.2 ⟨?_, ih hrest⟩
      intro a ha
      rcases List.mem_cons.1 ((insertFalling_perm index rest).subset ha) with rfl | ha
      . exact Nat.le_of_not_le hlt
      . exact hother a ha

theorem foldr_insertFalling (l : List Nat)
    : (l.foldr insertFalling []).Perm l ∧
        (l.foldr insertFalling []).Pairwise (fun a b => b ≤ a) := by
  induction l with
  | nil => exact ⟨.refl _, List.Pairwise.nil⟩
  | cons index rest ih =>
    obtain ⟨hperm, hfalling⟩ := ih
    exact ⟨(insertFalling_perm index _).trans (hperm.cons index),
      insertFalling_pairwise index hfalling⟩

end NodeM

namespace Cluster

variable {K : Cluster} {n : NodeId}

theorem cons_others_perm (hn : n ∈ K.ids) : (n :: K.others n).Perm K.ids := by
  have hcons : n :: K.others n = n :: K.ids.erase n := by
    unfold others
    rw [K.distinct.erase_eq_filter]
    congr 1
    apply List.filter_congr
    intro a _
    by_cases ha : a = n <;> simp [ha]
  rw [hcons]
  exact (List.perm_cons_erase hn).symm

theorem length_others (hn : n ∈ K.ids) : (K.others n).length + 1 = K.ids.length := by
  rw [← (cons_others_perm hn).length_eq]
  rfl

end Cluster

namespace Chronicle

variable {K : Cluster} {c : Chronicle} {n : NodeId} {node : Node}

theorem Mirror.quorum_eq (hm : Mirror K c n node) : node.quorum = K.ids.length / 2 + 1 := by
  unfold Node.quorum
  rw [hm.peers, Cluster.length_others hm.member]

def knownMatch (node : Node) (n id : NodeId) : Nat :=
  if id = n then node.log.lastIndex else ((node.progress? id).map (·.matched)).getD 0

def holders (node : Node) (n : NodeId) (i : Nat) : List NodeId :=
  (n :: node.peers).filter fun id => i ≤ knownMatch node n id

theorem Mirror.knownMatches (hm : Mirror K c n node)
    : (n :: node.peers).map (knownMatch node n)
        =
      node.log.lastIndex :: node.peers.map fun peer => ((node.progress? peer).map (·.matched)).getD 0 := by
  rw [List.map_cons]
  congr 1
  . unfold knownMatch
    rw [if_pos rfl]
  . apply List.map_congr_left
    intro peer hpeer
    rw [hm.peers] at hpeer
    have hne : peer ≠ n := by
      simpa using (List.mem_filter.1 hpeer).2
    unfold knownMatch
    rw [if_neg hne]

theorem Mirror.holders_majorityIndex (hm : Mirror K c n node)
    (hpos : 0 < NodeM.majorityIndex node)
    : IsQuorum K.ids (holders node n (NodeM.majorityIndex node)) := by
  have hperm : (n :: node.peers).Perm K.ids := by
    rw [hm.peers]
    exact Cluster.cons_others_perm hm.member
  have hnodup : (n :: node.peers).Nodup := hperm.nodup_iff.2 K.distinct
  refine ⟨hnodup.filter _, ?_, ?_⟩
  . intro id hid
    exact hperm.subset (List.mem_filter.1 hid).1
  . let known := (n :: node.peers).map (knownMatch node n)
    let sorted := known.foldr NodeM.insertFalling []
    obtain ⟨hperm', hsorted⟩ : sorted.Perm known ∧ sorted.Pairwise (fun a b => b ≤ a) :=
      NodeM.foldr_insertFalling known
    have hindex : NodeM.majorityIndex node = sorted.getD (node.quorum - 1) 0 := by
      unfold NodeM.majorityIndex sorted known
      rw [hm.knownMatches]
    -- a list that is too short would show 0 there
    have hlt : node.quorum - 1 < sorted.length := by
      by_contra hge
      rw [hindex, List.getD_eq_getElem?_getD, List.getElem?_eq_none (by omega)] at hpos
      exact absurd hpos (Nat.lt_irrefl 0)
    have hvalue : NodeM.majorityIndex node = sorted[node.quorum - 1] := by
      rw [hindex, List.getD_eq_getElem?_getD, List.getElem?_eq_getElem hlt]
      rfl
    have hcount := List.lt_countP_of_pairwise hsorted hlt
    rw [← hvalue, hperm'.countP_eq, List.countP_map] at hcount
    have hlength : (holders node n (NodeM.majorityIndex node)).length
        = (n :: node.peers).countP
          ((fun a => decide (NodeM.majorityIndex node ≤ a)) ∘ knownMatch node n) := by
      unfold holders
      rw [← List.countP_eq_length_filter]
      rfl
    rw [hlength, ← hm.quorum_eq]
    unfold Node.quorum at hcount ⊢
    omega

theorem Mirror.matched_le_acked {leadership : Leadership} (hm : Mirror K c n node)
    (hrole : node.role = .leader leadership) (peer : NodeId)
    : ((node.progress? peer).map (·.matched)).getD 0 ≤ c.acked peer (c.term n) := by
  have hplays := hm.plays
  rw [hrole] at hplays
  obtain ⟨-, -, hmatched⟩ := hplays
  unfold Node.progress?
  rw [hrole]
  dsimp only
  cases hp : leadership.peers.lookup peer with
  | none => exact Nat.zero_le _
  | some p =>
    obtain ⟨before, after, hsplit, -⟩ := List.lookup_eq_some_iff.1 hp
    apply hmatched (peer, p)
    rw [hsplit]
    exact List.mem_append_right _ List.mem_cons_self

theorem Mirror.committed_majorityIndex {leadership : Leadership} (hm : Mirror K c n node)
    (hrole : node.role = .leader leadership) (hown : (c.held n).length ≤ c.acked n (c.term n))
    (hpos : 0 < NodeM.majorityIndex node)
    (hterm : node.log.termAt? (NodeM.majorityIndex node) = some node.term)
    : Committed K.ids c (c.term n) (NodeM.majorityIndex node) where
  pos := hpos
  term := by
    have hplays := hm.plays
    rw [hrole] at hplays
    rw [← hm.held_eq_log hplays.1]
    rw [(hm.shows.of_termAt? hterm).2]
    exact hm.term
  quorum := by
    refine ⟨_, hm.holders_majorityIndex hpos, ?_⟩
    intro id hid
    have hknown := (List.mem_filter.1 hid).2
    unfold knownMatch at hknown
    by_cases hself : id = n
    . rw [if_pos hself] at hknown
      have hlast := hm.lastIndex
      rw [hself]
      simp at hknown
      omega
    . rw [if_neg hself] at hknown
      exact Nat.le_trans (by simpa using hknown) (hm.matched_le_acked hrole id)

end Chronicle

end ReplicatedStore
