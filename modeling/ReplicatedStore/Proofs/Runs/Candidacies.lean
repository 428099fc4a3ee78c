import ReplicatedStore.Proofs.Consensus.Majority
import ReplicatedStore.Proofs.Runs.Trials

/-!
Steps of a running member, whatever fails in them: a candidate has the votes that it counts, and a leader
was elected, or led before it learned of a term that it could not save.
-/

namespace ReplicatedStore

variable {K : Cluster} {trials : List Trial} {trial : Trial} {i j k T : Nat} {m n v : NodeId}
  {x y : Node} {s s' : HardState} {clock : Clock} {move : Move} {plan : List (Option Fault)}
  {votes : List NodeId} {peer : NodeId}

theorem Role.Alike.candidate {r r' : Role} (h : r.Alike r') (hr : r' = .candidate votes)
    : r = .candidate votes := by
  rcases h with rfl | ⟨-, hleader⟩
  . exact hr
  . rw [hr] at hleader
    cases hleader

theorem Role.Alike.leader {r r' : Role} (h : r.Alike r') (hr : r'.isLeader = true)
    : r.isLeader = true := by
  rcases h with rfl | ⟨hleader, -⟩
  . exact hr
  . exact hleader

theorem Voted.of_guards (h : ((K.ordeal trials k).hosts v).Guards ⟨T, some n⟩)
    : Voted K trials k v T n :=
  ⟨k, Nat.le_refl k, h.saved⟩

theorem Polled.withVote (h : Polled K trials k n T votes) (hvoted : Voted K trials k peer T n)
    (hcollected : Collected K trials k n T peer)
    : Polled K trials k n T (withVote votes peer) := by
  intro v hv
  rcases mem_withVote hv with hv | rfl
  . exact h v hv
  . exact ⟨hvoted, .inr hcollected⟩

theorem Candidacy.mono (h : Candidacy K trials j n T s votes) (hle : j ≤ k)
    : Candidacy K trials k n T s votes where
  nodup := h.nodup
  subset := h.subset
  polled hs := (h.polled hs).mono hle

theorem Office.isQuorum (hx : Office K trials k n x s) (hnodup : votes.Nodup) (hsub : votes ⊆ K.ids)
    (hquorum : x.quorum ≤ votes.length)
    : IsQuorum K.ids votes := by
  refine ⟨hnodup, hsub, ?_⟩
  unfold Node.quorum at hquorum
  rwa [hx.peers, Cluster.length_others hx.member] at hquorum

theorem Office.planned (hx : Office K trials k n x s) (plan : List (Option Fault))
    : Office K trials k n (x.planned plan) s :=
  have hguards : (Host.running x).Guards s := hx.safe
  { hx with safe := hguards.planned plan }

theorem Office.next (hx : Office K trials k n x s) (hnode : (K.ordeal trials (k + 1)).node? n = some x)
    : Office K trials (k + 1) n x s where
  member := hx.member
  id := hx.id
  peers := hx.peers
  fits := hx.fits
  safe := hx.safe
  saved := hx.saved
  candidate votes hrole := (hx.candidate votes hrole).mono (Nat.le_succ k)
  leader hleader := by
    rcases hx.leader hleader with helected | hovertaken
    . exact .inl (helected.mono (Nat.le_succ k))
    . exact .inr (hovertaken.next hnode hleader rfl)

structure Passage (K : Cluster) (trials : List Trial) (k : Nat) (n : NodeId) (plan : List (Option Fault))
    (x y : Node) (s s' : HardState) : Prop where
  office : Office K trials k n (x.planned plan) s
  before : (K.ordeal trials k).node? n = some x
  after : (K.ordeal trials (k + 1)).node? n = some y
  shifts : Shifts (Asked K trials k) (Granted K trials k n) s (x.planned plan) y
  safe : y.log.Safe s'
  saved : s'.Precedes y.hard
  own : Voted K trials k n x.term n → s = ⟨x.term, some n⟩

namespace Passage

variable (h : Passage K trials k n plan x y s s')

include h

theorem saved_eq {hard : HardState} (hsafe : y.log.Safe hard) : s' = hard := by
  have hguards : (Host.running y).Guards s' := h.safe
  exact hguards.unique hsafe

theorem guards : ((K.ordeal trials (k + 1)).hosts n).Guards s' := by
  rw [Deployment.node?_eq_some.1 h.after]
  exact h.safe

theorem polled_withVote (hvote : Granted K trials k n peer x.term) (hrole : x.role = .candidate votes)
    : Candidacy K trials (k + 1) n x.term s (withVote votes peer) ∧
        Polled K trials (k + 1) n x.term (withVote votes peer) := by
  have hcandidacy := h.office.candidate votes hrole
  have hpolled := (hcandidacy.polled (h.own hvote.own)).mono (Nat.le_succ k)
  have hvotes := hpolled.withVote (hvote.voted.mono (Nat.le_succ k))
    (hvote.collected x votes h.before rfl hrole)
  refine ⟨⟨nodup_withVote hcandidacy.nodup, ?_, fun _ => hvotes⟩, hvotes⟩
  intro v hv
  rcases mem_withVote hv with hv | rfl
  . exact hcandidacy.subset hv
  . exact hvote.member

theorem candidate_of_alike (hterm : y.term = x.term) (hrole : x.role.Alike y.role)
    (hs : s' = ⟨y.term, some n⟩ → s = ⟨x.term, some n⟩) (hy : y.role = .candidate votes)
    : Candidacy K trials (k + 1) n y.term s' votes := by
  have hcandidacy := (h.office.candidate votes (hrole.candidate hy)).mono (Nat.le_succ k)
  refine ⟨hcandidacy.nodup, hcandidacy.subset, ?_⟩
  intro hs'
  rw [hterm]
  exact hcandidacy.polled (hs hs')

theorem candidate (hy : y.role = .candidate votes)
    : Candidacy K trials (k + 1) n y.term s' votes := by
  cases h.shifts.shift with
  | stays hard role safe =>
    have hterm : y.term = x.term := congrArg HardState.term hard
    apply h.candidate_of_alike hterm role _ hy
    rw [h.saved_eq safe, hterm]
    exact id
  | yields _ role =>
    rw [hy] at role
    cases role
  | raised newer _ hard role safe =>
    -- what the files hold is of an older term
    have hcandidacy := h.office.candidate votes (role.candidate hy)
    refine ⟨hcandidacy.nodup, hcandidacy.subset, ?_⟩
    intro hs
    have hle := h.office.saved.term_le
    rw [← h.saved_eq safe, hs] at hle
    rw [show y.term = _ from congrArg HardState.term hard] at hle
    exact absurd newer (Nat.not_lt.2 hle)
  | adopts _ _ _ role =>
    rw [hy] at role
    cases role
  | @votes c request _ hard role safe =>
    have hterm : y.term = x.term := by
      unfold Node.term
      rw [hard]
      rfl
    apply h.candidate_of_alike hterm role _ hy
    intro hs
    rcases safe with hold | hnew
    . rw [← h.saved_eq hold, hs, hterm]
    . have hvoter := h.saved_eq hnew
      rw [hard, hs] at hvoter
      have hc : n = c := Option.some.inj (congrArg HardState.votedFor hvoter)
      rw [← hc] at request
      exact h.own request.2
  | switches _ _ _ _ role =>
    rw [hy] at role
    cases role
  | stands _ hard role safe =>
    rcases role with role | ⟨-, role⟩
    . rw [hy] at role
      cases role
      have hid : (x.planned plan).id = n := h.office.id
      rw [hid] at hard ⊢
      refine ⟨List.nodup_singleton n, ?_, ?_⟩
      . exact List.cons_subset.2 ⟨h.office.member, List.nil_subset _⟩
      . intro hs v hv
        rw [List.mem_singleton.1 hv]
        exact ⟨.of_guards (hs ▸ h.guards), .inl rfl⟩
    . rw [hy] at role
      cases role
  | counts vote candidate hard role safe =>
    have hterm : y.term = x.term := congrArg HardState.term hard
    rcases role with role | ⟨-, role⟩
    . rw [hy] at role
      cases role
      rw [hterm, h.saved_eq safe]
      exact (h.polled_withVote vote candidate).1
    . rw [hy] at role
      cases role

theorem leader_of_alike (hterm : y.term = x.term) (hrole : x.role.Alike y.role)
    (hy : y.role.isLeader = true)
    : Elected K trials (k + 1) n y.term ∨ Overtaken K trials (k + 1) n y.term := by
  have hleader := h.office.leader (hrole.leader hy)
  rw [hterm]
  rcases hleader with helected | hovertaken
  . exact .inl (helected.mono (Nat.le_succ k))
  . exact .inr (hovertaken.next h.after hy hterm)

theorem leader (hy : y.role.isLeader = true)
    : Elected K trials (k + 1) n y.term ∨ Overtaken K trials (k + 1) n y.term := by
  cases h.shifts.shift with
  | stays hard role => exact h.leader_of_alike (congrArg HardState.term hard) role hy
  | yields _ role =>
    rw [role] at hy
    cases hy
  | raised newer _ hard role safe =>
    have hterm : y.term = _ := congrArg HardState.term hard
    have hguards := h.guards
    rw [h.saved_eq safe] at hguards
    have hlt : s.term < y.term := by
      rw [hterm]
      exact Nat.lt_of_le_of_lt h.office.saved.term_le newer
    refine .inr ⟨k, Nat.lt_succ_self k, x, s, h.before, role.leader hy, ?_, hguards.saved, hlt, ?_⟩
    . rw [hterm]
      exact newer
    . intro i hlt hle
      rw [Nat.le_antisymm hle hlt]
      exact ⟨y, h.after, hy, rfl⟩
  | adopts _ _ _ role =>
    rw [role] at hy
    cases hy
  | votes _ _ hard role =>
    have hterm : y.term = x.term := by
      unfold Node.term
      rw [hard]
      rfl
    exact h.leader_of_alike hterm role hy
  | switches _ _ _ _ role =>
    rw [role] at hy
    cases hy
  | stands _ hard role safe =>
    rcases role with role | ⟨hquorum, -⟩
    . rw [role] at hy
      cases hy
    . have hid : (x.planned plan).id = n := h.office.id
      have hguards := h.guards
      rw [h.saved_eq safe, hard, hid] at hguards
      have hmember := List.cons_subset.2 ⟨h.office.member, List.nil_subset _⟩
      refine .inl ⟨[n], h.office.isQuorum (List.nodup_singleton n) hmember hquorum, ?_⟩
      intro v hv
      rw [List.mem_singleton.1 hv]
      refine ⟨?_, .inl rfl⟩
      rw [show y.term = _ from congrArg HardState.term hard]
      exact .of_guards hguards
  | counts vote candidate hard role =>
    rcases role with role | ⟨hquorum, -⟩
    . rw [role] at hy
      cases hy
    . obtain ⟨hcandidacy, hpolled⟩ := h.polled_withVote vote candidate
      rw [show y.term = x.term from congrArg HardState.term hard]
      exact .inl ⟨_, h.office.isQuorum hcandidacy.nodup hcandidacy.subset hquorum, hpolled⟩

theorem next : Office K trials (k + 1) n y s' where
  member := h.office.member
  id := h.shifts.id.trans h.office.id
  peers := h.shifts.peers.trans h.office.peers
  fits := by
    have hname := K.short n h.office.member
    rw [← h.office.id] at hname
    apply h.shifts.shift.fits h.office.fits hname
    exact fun c _ hasked => K.short c hasked.1
  safe := h.safe
  saved := h.saved
  candidate _ hy := h.candidate hy
  leader hy := h.leader hy

end Passage

end ReplicatedStore
