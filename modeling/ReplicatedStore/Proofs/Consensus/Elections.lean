import ReplicatedStore.Proofs.Consensus.Entries
import ReplicatedStore.Proofs.Consensus.Terms

/-!
Standing for election, counting votes and taking the leadership.
-/

namespace ReplicatedStore

def withVote (votes : List NodeId) (peer : NodeId) : List NodeId :=
  if votes.contains peer then votes else votes ++ [peer]

section

variable {votes : List NodeId} {peer v : NodeId}

theorem nodup_withVote (h : votes.Nodup) : (withVote votes peer).Nodup := by
  unfold withVote
  split
  . exact h
  . next hnew =>
    apply h.append (List.nodup_singleton peer)
    simpa using hnew

theorem mem_withVote (h : v ∈ withVote votes peer) : v ∈ votes ∨ v = peer := by
  unfold withVote at h
  split at h
  . exact .inl h
  . exact (List.mem_append.1 h).imp id List.mem_singleton.1

end

namespace Chronicle

variable {K : Cluster} {c c' : Chronicle} {n : NodeId} {node : Node} {clock : Clock}
  {excepted : Nat → Prop}

theorem Mirror.extended {e : LogEntry} (hm : Mirror K c n node)
    (hl : c.leader (c.term n) = some n) (hterm : e.term = c.term n)
    (hindex : e.index = node.log.lastIndex + 1) (hfit : e.Fits)
    : ∃ log, LogStore.append [e] node.log = .ok () log ∧ Step K.ids n c (c.extend n e) ∧
        ∀ role, Plays K (c.extend n e) n role →
          Mirror K (c.extend n e) n { node with log, role } := by
  rw [hm.lastIndex] at hindex
  have hstep : Step K.ids n c (c.extend n e) := .extend e hl hterm hindex
  have hfollows : Follows (c.held n).length [e] := ⟨hindex, trivial⟩
  obtain ⟨log, happend, hm'⟩ := hm.appended hfollows (by simpa using hfit)
  refine ⟨log, happend, hstep, ?_⟩
  intro role hplays
  apply hm' _ role (hstep.lawful hm.lawful) (hstep.extends hm.lawful) rfl rfl _ hplays
  simp [Chronicle.extend]

def OnlyReplicate (orders : List Order) : Prop :=
  ∀ peer request, Order.askVote peer request ∉ orders

theorem onlyReplicate_nil : OnlyReplicate [] := by
  intro peer request hmem
  cases hmem

theorem onlyReplicate_ite {p : Prop} [Decidable p] {peer : NodeId}
    : OnlyReplicate (if p then [.replicate peer] else []) := by
  intro peer' request hmem
  split at hmem
  . simp at hmem
  . cases hmem

theorem onlyReplicate_broadcast (node : Node) : OnlyReplicate node.broadcast := by
  intro peer request hmem
  simp [Node.broadcast] at hmem

theorem Mirror.takeLeadership {votes : List NodeId} (hm : Mirror K c n node)
    (hrole : node.role = .candidate votes) (hquorum : node.quorum ≤ votes.length)
    (hroom : node.log.lastIndex + 1 < 2 ^ 64)
    : Reaches K n c (Told K excepted node) (fun _ _ _ => True)
        (NodeM.takeLeadership clock node) := by
  have hplays := hm.plays
  rw [hrole] at hplays
  obtain ⟨hballot, hleader, hnodup, hsub, -, hvotes⟩ := hplays
  rw [hm.quorum_eq] at hquorum
  have hq : IsQuorum K.ids votes := ⟨hnodup, hsub, hquorum⟩
  have hwin : Step K.ids n c (c.win n) := .win votes hq hvotes hballot.symm hleader
  have hl : (c.win n).leader ((c.win n).term n) = some n := by simp [Chronicle.win]
  have hm₁ : Mirror K (c.win n) n { node with role := .follower } :=
    hm.following.carry (hwin.lawful hm.lawful) (hwin.extends hm.lawful) rfl rfl rfl trivial
  let e : LogEntry := { term := node.term, index := node.log.lastIndex + 1, command := [] }
  obtain ⟨log, happend, hextend, hm₂⟩ := hm₁.extended (e := e) hl hm.term rfl
    ⟨hm.term_lt, hroom, Nat.zero_le _⟩
  have hopen : NodeM.onLog (LogStore.append [e]) clock node = .ok () { node with log } :=
    NodeM.onLog_ok happend
  apply Reaches.before ((Relation.ReflTransGen.single hwin).tail hextend)
  unfold NodeM.takeLeadership
  rw [NodeM.bind_get]
  dsimp only
  rw [NodeM.bind_of_ok (NodeM.attempt_ok hopen)]
  dsimp only
  rw [NodeM.bind_read, NodeM.bind_modify]
  -- nothing is known of the peers yet
  let leadership : Leadership := {
    since := clock.now
    heartbeatDue := clock.now + node.heartbeatInterval
    peers := node.peers.map fun peer => (peer, { next := node.log.lastIndex + 1 }) }
  have hplays : Plays K ((c.win n).extend n e) n (.leader leadership) := by
    refine ⟨hl, ?_, ?_⟩
    . rw [← hm.peers, List.map_map]
      exact List.map_id _
    . intro p hp
      obtain ⟨peer, -, rfl⟩ := List.mem_map.1 hp
      exact Nat.zero_le _
  have hm₃ := hm₂ _ hplays
  have hm₄ : Mirror K ((c.win n).extend n e) n { node with
      log
      role := .leader leadership
      leader := some node.id } := { hm₃ with }
  apply Reaches.bind
  . apply hm₄.commitByMajority.since
    . exact .of_eq rfl
    . exact hm₄.lawful
  . intro _ node' c' hev hm' htold _
    exact .of_mirror hm' htold trivial

theorem Mirror.countVotes {votes : List NodeId} (hm : Mirror K c n node)
    (hrole : node.role = .candidate votes) (hroom : node.log.lastIndex + 1 < 2 ^ 64)
    : Reaches K n c (Told K excepted node) (fun orders _ _ => OnlyReplicate orders)
        (NodeM.countVotes votes clock node) := by
  unfold NodeM.countVotes
  rw [NodeM.bind_get]
  split
  . next hquorum =>
    apply (hm.takeLeadership hrole hquorum hroom).bind
    intro won node' c' hev hm' htold _
    split
    . rw [NodeM.bind_get]
      exact .of_mirror hm' htold (onlyReplicate_broadcast node')
    . exact .of_mirror hm' htold onlyReplicate_nil
  . exact .of_mirror hm (.of_eq rfl) onlyReplicate_nil

theorem Mirror.candidate (hm : Mirror K c n node) (hroom : node.hard.term + 1 < 2 ^ 64)
    (clock : Clock)
    : ∃ disk,
        NodeM.saveHardState clock
            { node with hard := { term := node.term + 1, votedFor := some node.id } }
          = .ok () { node with
              log := { node.log with disk }
              hard := { term := node.term + 1, votedFor := some node.id } } ∧
        Mirror K (c.campaign n) n { node with
          log := { node.log with disk }
          hard := { term := node.term + 1, votedFor := some node.id }
          role := .candidate [node.id] } := by
  obtain ⟨snapshot, hi, hk⟩ := hm.files
  have hstep : Step K.ids n c (c.campaign n) := .campaign
  have hfit : HardState.Fits { term := node.term + 1, votedFor := some node.id } := {
    term := hroom
    voter := by
      intro name hname
      cases hname
      rw [hm.id]
      exact K.short n hm.member }
  obtain ⟨disk, hsave, hi'⟩ := NodeM.saveHardState_ok clock
    { node with hard := { term := node.term + 1, votedFor := some node.id } } hi hfit
  refine ⟨disk, hsave, ?_⟩
  have hnow : (c.campaign n).term n = c.term n + 1 := by simp [Chronicle.campaign]
  have hvote : (c.campaign n).vote n (c.term n + 1) = some n := by simp [Chronicle.campaign]
  have hterm : node.term = c.term n := hm.term
  apply hm.saved (hstep.lawful hm.lawful) (hstep.extends hm.lawful) rfl hi' hk
  . rw [hnow, hterm]
  . rw [hnow, hvote, hm.id]
  . rw [hm.id]
    unfold Plays
    rw [hnow]
    refine ⟨?_, ?_, ?_, ?_, hvote, ?_⟩
    . simp [Chronicle.campaign]
    . exact hm.lawful.leader_ne (Nat.lt_succ_self _)
    . simp
    . simpa using hm.member
    . simpa using hvote

def AsksVotes (K : Cluster) (n : NodeId) (c : Chronicle) (orders : List Order) : Prop :=
  ∀ peer request, Order.askVote peer request ∈ orders → Stands K c n request

theorem OnlyReplicate.asksVotes {orders : List Order} (h : OnlyReplicate orders)
    : AsksVotes K n c orders := by
  intro peer request hmem
  exact absurd hmem (h peer request)

theorem asksVotes_nil : AsksVotes K n c [] := by
  intro peer request hmem
  cases hmem

theorem Mirror.campaign (hm : Mirror K c n node) (hroom : node.hasRoom = true)
    : Reaches K n c (Told K excepted node) (fun orders _ c' => AsksVotes K n c' orders)
        (NodeM.campaign clock node) := by
  obtain ⟨hterm, hindex⟩ := Node.hasRoom_iff.1 hroom
  unfold NodeM.campaign
  rw [NodeM.bind_get, NodeM.bind_read]
  split
  . exact .of_mirror hm (.of_eq rfl) asksVotes_nil
  . obtain ⟨disk, hsave, hm'⟩ := hm.candidate hterm clock
    have hstep : Step K.ids n c (c.campaign n) := .campaign
    have hm'' : Mirror K (c.campaign n) n { node with
        log := { node.log with disk }
        hard := { term := node.term + 1, votedFor := some node.id }
        role := .candidate [node.id]
        leader := none
        electionDue := clock.now + clock.electionTimeout } := { hm' with }
    -- the step comes before the count, since a lone member wins with its own vote
    apply Reaches.before (.single hstep)
    rw [NodeM.bind_modify, NodeM.bind_of_ok (NodeM.attempt_ok hsave)]
    dsimp only
    rw [NodeM.bind_modify]
    rw [NodeM.bind_of_ok (show NodeM.resetTimer clock _ = .ok () _ from rfl)]
    split
    . apply Reaches.since (y := { node with
        log := { node.log with disk }
        hard := { term := node.term + 1, votedFor := some node.id }
        role := .candidate [node.id]
        leader := none
        electionDue := clock.now + clock.electionTimeout })
      . apply (hm''.countVotes rfl hindex).imp
        . intro node' c' _ htold
          exact htold
        . intro orders node' c' _ _ honly
          exact honly.asksVotes
      . exact .of_eq rfl
      . exact hm''.lawful
    . refine .of_mirror hm'' (.of_eq rfl) ?_
      intro peer request hmem
      obtain ⟨p, -, hp⟩ := List.mem_map.1 hmem
      cases hp
      have hnode : node.term = c.term n := hm.term
      have hvote : (c.campaign n).vote n (c.term n + 1) = some n := by simp [Chronicle.campaign]
      have hballot : (c.campaign n).ballot (c.term n + 1) n = c.held n := by
        simp [Chronicle.campaign]
      exact {
        member := hm.member
        candidate := hm.id
        term_lt := hterm
        vote := by
          rw [hnode]
          exact hvote
        lastIndex := by
          rw [hnode, hballot]
          exact hm.lastIndex
        lastTerm := by
          rw [hnode, hballot]
          exact hm.shows.lastTerm }

theorem Plays.addVote {votes : List NodeId} {peer : NodeId} (hp : Plays K c n (.candidate votes))
    (hpeer : peer ∈ K.ids) (hvote : c.vote peer (c.term n) = some n)
    : Plays K c n (.candidate (withVote votes peer)) := by
  obtain ⟨hballot, hleader, hnodup, hsub, hown, hvotes⟩ := hp
  refine ⟨hballot, hleader, nodup_withVote hnodup, ?_, hown, ?_⟩
  . intro id hid
    rcases mem_withVote hid with hid | rfl
    . exact hsub hid
    . exact hpeer
  . intro id hid
    rcases mem_withVote hid with hid | rfl
    . exact hvotes id hid
    . exact hvote

theorem Mirror.onVoteResponse {peer : NodeId} {electionTerm : Nat} {r : VoteResponse}
    (hm : Mirror K c n node) (hroom : node.hasRoom = true) (hpeer : peer ∈ K.ids)
    (hlt : r.term < 2 ^ 64) (hr : r.granted → c.vote peer electionTerm = some n)
    : Reaches K n c (Told K excepted node) (fun orders _ _ => OnlyReplicate orders)
        (NodeM.onVoteResponse peer electionTerm r clock node) := by
  unfold NodeM.onVoteResponse
  rw [NodeM.bind_get]
  split
  . exact .of_mirror hm (.of_eq rfl) onlyReplicate_nil
  . split
    . apply (hm.adoptTerm hlt none).attempt.bind
      intro _ node' c' _ hm' htold _
      exact .of_mirror hm' htold onlyReplicate_nil
    . cases hrole : node.role with
      | follower => exact .of_mirror hm (.of_eq rfl) onlyReplicate_nil
      | leader leadership => exact .of_mirror hm (.of_eq rfl) onlyReplicate_nil
      | candidate votes =>
        dsimp only
        split
        . next hcounts =>
          simp only [Bool.and_eq_true, decide_eq_true_eq] at hcounts
          obtain ⟨hterm, hgranted⟩ := hcounts
          have hplays := hm.plays
          rw [hrole] at hplays
          have hvote : c.vote peer (c.term n) = some n := by
            rw [← hm.term, show node.hard.term = electionTerm from hterm]
            exact hr hgranted
          rw [NodeM.bind_modify]
          have hm' : Mirror K c n { node with
              role := .candidate (withVote votes peer) } :=
            { hm with plays := hplays.addVote hpeer hvote }
          have hcount : Reaches K n c (Told K excepted _) _ (NodeM.countVotes _ clock _) :=
            hm'.countVotes rfl (Node.hasRoom_iff.1 hroom).2
          apply hcount.imp
          . intro node' c' _ htold
            exact { htold with }
          . intro orders node' c' _ _ honly
            exact honly
        . exact .of_mirror hm (.of_eq rfl) onlyReplicate_nil

theorem Mirror.tick (hm : Mirror K c n node) (hroom : node.hasRoom = true)
    : Reaches K n c (Told K excepted node) (fun orders _ c' => AsksVotes K n c' orders)
        (NodeM.tick clock node) := by
  unfold NodeM.tick
  rw [NodeM.bind_get, NodeM.bind_read]
  split
  . exact .of_mirror hm (.of_eq rfl) asksVotes_nil
  . cases hrole : node.role with
    | follower =>
      dsimp only
      split
      . exact hm.campaign hroom
      . exact .of_mirror hm (.of_eq rfl) asksVotes_nil
    | candidate votes =>
      dsimp only
      split
      . exact hm.campaign hroom
      . exact .of_mirror hm (.of_eq rfl) asksVotes_nil
    | leader leadership =>
      dsimp only
      split
      . apply (hm.adoptTerm hm.term_lt none).attempt.bind
        intro _ node' c' _ hm' htold _
        exact .of_mirror hm' htold asksVotes_nil
      . split
        . rw [NodeM.bind_modify]
          have hplays := hm.plays
          rw [hrole] at hplays
          have hm' : Mirror K c n { node with role := .leader { leadership with
              heartbeatDue := clock.now + node.heartbeatInterval } } :=
            { hm with plays := hplays }
          exact .of_mirror hm' (.of_eq rfl) (onlyReplicate_broadcast node).asksVotes
        . exact .of_mirror hm (.of_eq rfl) asksVotes_nil

end Chronicle

end ReplicatedStore
