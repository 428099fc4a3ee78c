import ReplicatedStore.Consensus.Proposal
import ReplicatedStore.Proofs.Consensus.Elections

/-!
What a leader sends its peers, and what it makes of their answers.
-/

namespace ReplicatedStore

structure CallsRound (messages : List (NodeId × CatchUp)) (peers : List NodeId) (term : Nat) : Prop where
  peers : (messages.map (·.1)).Sublist peers
  term : ∀ m ∈ messages, m.2.term = term

namespace Chronicle

variable {K : Cluster} {c c' : Chronicle} {n : NodeId} {node : Node} {clock : Clock}
  {excepted : Nat → Prop}

theorem Mirror.offers {next most prevTerm : Nat} (hm : Mirror K c n node)
    (hl : c.leader (c.term n) = some n) (hlow : node.log.snapshotIndex < next)
    (hprev : node.log.termAt? (next - 1) = some prevTerm)
    : Offers K c n {
        term := node.term
        leader := node.id
        prevIndex := next - 1
        prevTerm
        entries := node.log.takeFrom next most
        commit := node.commitIndex } := by
  have hterm : node.term = c.term n := hm.term
  have hheld := hm.held_eq_log hl
  obtain ⟨hle, hprevTerm⟩ := hm.shows.of_termAt? hprev
  constructor
  case term_lt => exact hm.term_lt
  case leader =>
    rw [hterm]
    exact hl
  case prev_le =>
    rw [hterm, ← hheld]
    exact hle
  case prevTerm =>
    rw [hterm, ← hheld]
    exact hprevTerm.symm
  case entries =>
    rw [hterm, ← hheld]
    dsimp only
    rw [hm.shows.takeFrom hlow]
    have hsplit := List.take_append_drop (next - 1) (c.held n)
    conv => rhs; rw [← hsplit]
    exact (List.prefix_append_right_inj _).2 (List.take_prefix _ _)
  case fits =>
    obtain ⟨snapshot, hi, hk⟩ := hm.files
    intro e he
    apply hi.stores.entriesFit
    dsimp only at he
    unfold LogStore.takeFrom at he
    rw [if_neg (by omega)] at he
    exact List.mem_of_mem_drop (List.mem_of_mem_take he)
  case commit_le =>
    rw [hterm, ← hheld]
    exact hm.committed
  case settled =>
    rw [hterm, ← hheld]
    exact hm.settled

theorem Mirror.ships {s : Snapshot} {snapshot : Option Snapshot} (hm : Mirror K c n node)
    (hl : c.leader (c.term n) = some n) (hi : node.log.Intact snapshot node.hard)
    (hk : Kept K c n snapshot node.log.entries) (hs : s ∈ snapshot)
    (hshort : s.data.length < 2 ^ 64)
    : Ships K c n {
        term := node.term
        leader := node.id
        index := s.index
        indexTerm := s.term
        data := s.data } := by
  have hterm : node.term = c.term n := hm.term
  have hheld := hm.held_eq_log hl
  have hreach : Snapshot.reach snapshot = s.index := by
    rw [hs]
    rfl
  constructor
  case term_lt => exact hm.term_lt
  case leader =>
    rw [hterm]
    exact hl
  case index_le =>
    rw [hterm, ← hheld, ← hreach]
    exact hk.covered
  case captures =>
    rw [hterm, ← hheld]
    exact hk.captures s hs
  case fits => exact hi.stores.snapshotFits s hs
  case short => exact hshort
  case settled =>
    rw [hterm, ← hheld]
    dsimp only
    rw [← hreach]
    exact hk.settled

theorem Mirror.nextMessage (hm : Mirror K c n node) (hl : c.leader (c.term n) = some n)
    (peer : NodeId) (clock : Clock)
    : ∃ message, NodeM.nextMessage peer clock node = .ok message node ∧
        ∀ m ∈ message, Says K c n m.request ∧ m.term = node.term := by
  obtain ⟨snapshot, hi, hk⟩ := hm.files
  unfold NodeM.nextMessage
  rw [NodeM.bind_get]
  split
  . have hread := hi.storedSnapshot
    by_cases hshort : ∀ s ∈ snapshot, s.data.length < 2 ^ 64
    . rw [if_pos hshort] at hread
      have hstored : NodeM.onLog LogStore.storedSnapshot clock node = .ok snapshot node :=
        NodeM.onLog_ok hread
      rw [NodeM.bind_of_ok (NodeM.attempt_ok hstored)]
      cases hs : snapshot with
      | none =>
        refine ⟨none, rfl, ?_⟩
        intro m hmem
        cases hmem
      | some s =>
        refine ⟨_, rfl, ?_⟩
        intro m hmem
        cases hmem
        exact ⟨hm.ships hl hi hk hs (hshort s hs), rfl⟩
    . rw [if_neg hshort] at hread
      have hstored : NodeM.onLog LogStore.storedSnapshot clock node
          = .error (.corrupted "snapshot length mismatch") node := NodeM.onLog_error hread
      rw [NodeM.bind_of_ok (NodeM.attempt_error hstored)]
      refine ⟨none, rfl, ?_⟩
      intro m hmem
      cases hmem
  . next hlow =>
    cases hprev : node.log.termAt? _ with
    | none =>
      refine ⟨none, rfl, ?_⟩
      intro m hmem
      cases hmem
    | some prevTerm =>
      refine ⟨_, rfl, ?_⟩
      intro m hmem
      cases hmem
      exact ⟨hm.offers hl (Nat.lt_of_not_le hlow) hprev, rfl⟩

theorem Mirror.messageFor (hm : Mirror K c n node) (peer : NodeId) (clock : Clock)
    : ∃ message, NodeM.messageFor peer clock node = .ok message node ∧
        ∀ m ∈ message, Says K c n m.request := by
  unfold NodeM.messageFor
  rw [NodeM.bind_get]
  cases hrole : node.role with
  | leader leadership =>
    have hplays := hm.plays
    rw [hrole] at hplays
    split
    . refine ⟨none, rfl, ?_⟩
      intro m hmem
      cases hmem
    . obtain ⟨message, hmessage, htrue⟩ := hm.nextMessage hplays.1 peer clock
      exact ⟨message, hmessage, fun m hmem => (htrue m hmem).1⟩
  | follower =>
    rw [if_pos (by simp [Role.isLeader])]
    refine ⟨none, rfl, ?_⟩
    intro m hmem
    cases hmem
  | candidate votes =>
    rw [if_pos (by simp [Role.isLeader])]
    refine ⟨none, rfl, ?_⟩
    intro m hmem
    cases hmem

theorem Mirror.leads (hm : Mirror K c n node) (hrole : node.role.isLeader = true)
    : c.leader (c.term n) = some n := by
  have hplays := hm.plays
  cases hr : node.role with
  | leader leadership =>
    rw [hr] at hplays
    exact hplays.1
  | follower =>
    rw [hr] at hrole
    cases hrole
  | candidate votes =>
    rw [hr] at hrole
    cases hrole

theorem Mirror.roundMessages (hm : Mirror K c n node) (hl : c.leader (c.term n) = some n)
    (peers : List NodeId) (clock : Clock)
    : ∃ messages,
        (peers.mapM fun peer => do
            return (← NodeM.nextMessage peer).map (peer, ·) :
          NodeM (List (Option (NodeId × CatchUp)))) clock node
          = .ok messages node ∧
        CallsRound (messages.filterMap fun m => m) peers node.term ∧
        ∀ m ∈ messages.filterMap fun m => m, Says K c n m.2.request := by
  induction peers with
  | nil => exact ⟨[], rfl, ⟨List.Sublist.refl _, by simp⟩, by simp⟩
  | cons peer rest ih =>
    obtain ⟨messages, hrest, hround, htrue⟩ := ih
    obtain ⟨message, hnext, htrue'⟩ := hm.nextMessage hl peer clock
    refine ⟨message.map (peer, ·) :: messages, ?_, ?_⟩
    . rw [List.mapM_cons, bind_assoc, NodeM.bind_of_ok hnext, pure_bind]
      rw [NodeM.bind_of_ok hrest]
      rfl
    . cases message with
      | none => exact ⟨⟨hround.peers.cons peer, hround.term⟩, htrue⟩
      | some m =>
        obtain ⟨htold, hterm⟩ := htrue' m rfl
        exact ⟨⟨hround.peers.cons_cons peer, List.forall_mem_cons.2 ⟨hterm, hround.term⟩⟩,
          List.forall_mem_cons.2 ⟨htold, htrue⟩⟩

theorem Mirror.ensureLeader (hm : Mirror K c n node)
    : Reaches K n c (fun node' c' => node = node' ∧ c = c')
        (fun _ _ _ => node.role.isLeader = true)
        (NodeM.ensureLeader clock node) := by
  unfold NodeM.ensureLeader
  rw [NodeM.bind_get]
  split
  . exact .of_error hm ⟨rfl, rfl⟩
  . next hleads =>
    refine .of_mirror hm ⟨rfl, rfl⟩ ?_
    simp only [Bool.or_eq_true, Bool.not_eq_true', not_or, Bool.not_eq_false] at hleads
    exact hleads.2

theorem Mirror.openRound (hm : Mirror K c n node)
    : Reaches K n c (fun node' c' => node = node' ∧ c = c')
        (fun messages _ _ => node.role.isLeader = true ∧ CallsRound messages node.peers node.term ∧
          ∀ m ∈ messages, Says K c n m.2.request)
        (NodeM.openRound clock node) := by
  unfold NodeM.openRound
  apply hm.ensureLeader.bind
  rintro _ _ _ - - ⟨rfl, rfl⟩ hrole
  rw [NodeM.bind_get]
  obtain ⟨messages, hround, htrue⟩ := hm.roundMessages (hm.leads hrole) node.peers clock
  rw [NodeM.bind_of_ok hround]
  exact .of_mirror hm ⟨rfl, rfl⟩ ⟨hrole, htrue⟩

theorem Mirror.updateProgress {f : Progress → Progress} (hm : Mirror K c n node) (peer : NodeId)
    (hf : ∀ p, (f p).matched ≤ max p.matched (c.acked peer (c.term n)))
    : ∃ role, node.updateProgress peer f = { node with role } ∧
        Mirror K c n { node with role } := by
  have hplays := hm.plays
  unfold Node.updateProgress
  cases hrole : node.role with
  | follower => exact ⟨node.role, rfl, hm⟩
  | candidate votes => exact ⟨node.role, rfl, hm⟩
  | leader leadership =>
    rw [hrole] at hplays
    obtain ⟨hleader, hpeers, hmatched⟩ := hplays
    refine ⟨_, rfl, { hm with plays := ⟨hleader, ?_, ?_⟩ }⟩
    . rw [List.map_map]
      exact hpeers
    . intro p hp
      obtain ⟨⟨id, old⟩, hold, rfl⟩ := List.mem_map.1 hp
      have hle := hmatched _ hold
      dsimp only at hle ⊢
      split
      . next heq =>
        have := hf old
        rw [heq] at hle
        rw [heq]
        omega
      . exact hle

theorem Mirror.acknowledged {peer : NodeId} {sentTerm responseTerm : Nat} (hm : Mirror K c n node)
    (hlt : responseTerm < 2 ^ 64)
    : Reaches K n c (Told K excepted node)
        (fun counts _ c' => counts = true → c'.term n = sentTerm ∧ responseTerm ≤ sentTerm)
        (NodeM.acknowledged peer sentTerm responseTerm clock node) := by
  unfold NodeM.acknowledged
  rw [NodeM.bind_get]
  split
  . exact .of_mirror hm (.of_eq rfl) (by simp)
  . split
    . apply (hm.adoptTerm hlt none).attempt.bind
      intro _ node' c' _ hm' htold _
      exact .of_mirror hm' htold (by simp)
    . next holder =>
      split
      . exact .of_mirror hm (.of_eq rfl) (by simp)
      . next hcounts =>
        simp only [Bool.or_eq_true, Bool.not_eq_true', decide_eq_true_eq, not_or,
          Bool.not_eq_false, Decidable.not_not] at hcounts
        have hterm : node.term = c.term n := hm.term
        rw [NodeM.bind_read, NodeM.bind_modify]
        obtain ⟨role, hupdate, hm'⟩ := hm.updateProgress peer
          (f := fun p => { p with ackedAt := some clock.now }) (fun p => Nat.le_max_left _ _)
        rw [hupdate]
        refine .of_mirror hm' (.of_eq rfl) ?_
        intro _
        omega

theorem Mirror.agreed {α : Type} {peer : NodeId} {i : Nat} {f : Progress → Progress}
    (hm : Mirror K c n node) (hf : ∀ p, (f p).matched = max p.matched i)
    (hi : i ≤ c.acked peer (c.term n)) (result : Bool → α)
    : Reaches K n c (Told K excepted node) (fun a _ _ => ∃ behind, a = result behind)
        ((do
          modify (·.updateProgress peer f)
          let behind := NodeM.isBehind (← get) peer
          NodeM.commitByMajority
          return result behind : NodeM α) clock node) := by
  have hle : ∀ p, (f p).matched ≤ max p.matched (c.acked peer (c.term n)) := by
    intro p
    rw [hf]
    omega
  obtain ⟨role, hupdate, hm₁⟩ := hm.updateProgress peer hle
  have htold₁ : Told K excepted node { node with role } c := .of_eq rfl
  rw [NodeM.bind_modify, hupdate, NodeM.bind_get]
  apply Reaches.since _ htold₁ hm₁.lawful
  apply hm₁.commitByMajority.bind
  intro _ node₂ c₂ _ hm₂ htold₂ _
  exact .of_mirror hm₂ htold₂ ⟨_, rfl⟩

theorem Mirror.onAppendResponse {peer : NodeId} {sentTerm : Nat} {carried : Bool}
    {r : AppendResponse} (hm : Mirror K c n node) (hlt : r.term < 2 ^ 64)
    (hr : r.success → r.agreesThrough ≤ c.acked peer sentTerm)
    : Reaches K n c (Told K excepted node) (fun result _ _ => OnlyReplicate result.2)
        (NodeM.onAppendResponse peer sentTerm carried r clock node) := by
  unfold NodeM.onAppendResponse
  apply (hm.acknowledged hlt).bind
  intro counts node₁ c₁ hev₁ hm₁ htold₁ hcounts
  cases counts with
  | false => exact .of_mirror hm₁ htold₁ onlyReplicate_nil
  | true =>
    obtain ⟨hterm, -⟩ := hcounts rfl
    apply Reaches.since _ htold₁ hm₁.lawful
    cases hsuccess : r.success with
    | true =>
      have hacked : r.agreesThrough ≤ c₁.acked peer (c₁.term n) := by
        rw [hterm]
        exact Nat.le_trans (hr hsuccess) ((hev₁.extends hm.lawful).acked _ _)
      rw [if_pos rfl, if_pos rfl]
      apply (hm₁.agreed (fun _ => rfl) hacked
        (fun behind => (true, if carried && behind then [Order.replicate peer] else []))).imp
      . intro node₂ c₂ _ htold₂
        exact htold₂
      . rintro _ node₂ c₂ _ _ ⟨behind, rfl⟩
        exact onlyReplicate_ite
    | false =>
      rw [if_pos rfl, if_neg Bool.false_ne_true]
      rw [NodeM.bind_get]
      cases node₁.progress? peer with
      | none => exact .of_mirror hm₁ (.of_eq rfl) onlyReplicate_nil
      | some p =>
        obtain ⟨role, hupdate, hm₂⟩ := hm₁.updateProgress peer
          (f := fun old => { old with next := NodeM.backOff p r.resumeAt })
          (fun old => Nat.le_max_left _ _)
        dsimp only
        rw [NodeM.bind_modify, hupdate]
        exact .of_mirror hm₂ (.of_eq rfl) onlyReplicate_ite

theorem Mirror.onSnapshotResponse {peer : NodeId} {sentTerm i : Nat} {r : SnapshotResponse}
    (hm : Mirror K c n node) (hlt : r.term < 2 ^ 64)
    (hr : r.term ≤ sentTerm → i ≤ c.acked peer sentTerm)
    : Reaches K n c (Told K excepted node) (fun result _ _ => OnlyReplicate result.2)
        (NodeM.onSnapshotResponse peer sentTerm i r clock node) := by
  unfold NodeM.onSnapshotResponse
  apply (hm.acknowledged hlt).bind
  intro counts node₁ c₁ hev₁ hm₁ htold₁ hcounts
  cases counts with
  | false => exact .of_mirror hm₁ htold₁ onlyReplicate_nil
  | true =>
    obtain ⟨hterm, hle⟩ := hcounts rfl
    have hacked : i ≤ c₁.acked peer (c₁.term n) := by
      rw [hterm]
      exact Nat.le_trans (hr hle) ((hev₁.extends hm.lawful).acked _ _)
    apply Reaches.since _ htold₁ hm₁.lawful
    rw [if_pos rfl]
    apply (hm₁.agreed (fun _ => rfl) hacked
      (fun behind => (true, if behind then [Order.replicate peer] else []))).imp
    . intro node₂ c₂ _ htold₂
      exact htold₂
    . rintro _ node₂ c₂ _ _ ⟨behind, rfl⟩
      exact onlyReplicate_ite

end Chronicle

end ReplicatedStore
