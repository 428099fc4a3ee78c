import ReplicatedStore.Proofs.Consensus.Leading
import ReplicatedStore.Proofs.KeySpace.WriteSet

/-!
Proposals: a leader makes one entry of the writes of a client and remembers who waits for it, or fails
without a trace.
-/

namespace ReplicatedStore

namespace LogStore

theorem append_tooLarge (log : LogStore) (entry : LogEntry)
    (hindex : entry.index = log.lastIndex + 1) (hlarge : greatestCommand < entry.command.length)
    : ∃ e, LogStore.append [entry] log = .error e log := by
  refine ⟨.log s!"entry {entry.index} command too large ({entry.command.length} bytes)", ?_⟩
  have hone : appendOne entry log
      = .error (.log s!"entry {entry.index} command too large ({entry.command.length} bytes)")
          log := by
    unfold appendOne
    rw [EStateM.bind_get]
    dsimp only
    rw [if_neg (by simpa using hindex), if_pos hlarge]
    rfl
  unfold LogStore.append
  rw [if_neg (by simp)]
  unfold List.forM
  rw [EStateM.bind_of_error (EStateM.bind_of_error hone)]

end LogStore

namespace Proposal

variable {proposal : Proposal}

theorem ofRequest_toRequest (hordered : proposal.writes.removes.Ordered)
    (h : proposal.writes.encode.length < 2 ^ 64)
    : ofRequest proposal.toRequest = .ok proposal := by
  unfold ofRequest toRequest
  dsimp only
  cases hempty : proposal.writes.isEmpty with
  | true =>
    rw [← WriteSet.eq_of_isEmpty hempty]
    rfl
  | false =>
    have hencoded : proposal.writes.encode.isEmpty = false := by
      rw [Bool.eq_false_iff, ne_eq, List.isEmpty_iff]
      exact proposal.writes.encode_ne_nil
    rw [if_neg Bool.false_ne_true, hencoded, if_neg Bool.false_ne_true]
    rw [WriteSet.decode_encode hordered (WriteSet.fits_of_length h)]
    rfl

end Proposal

namespace NodeM

variable (clock : Clock) (node : Node)

theorem attempt_total {α : Type} (x : NodeM α)
    : ∃ result node', attempt x clock node = .ok result node' := by
  cases h : x clock node with
  | ok a node' => exact ⟨_, _, attempt_ok h⟩
  | error e node' => exact ⟨_, _, attempt_error h⟩

theorem compact_total : ∃ node', compact clock node = .ok () node' := by
  unfold compact
  rw [bind_get]
  split
  . exact ⟨node, rfl⟩
  . cases node.log.termAt? node.lastApplied with
    | none => exact ⟨node, rfl⟩
    | some term =>
      obtain ⟨result, node', h⟩ := attempt_total clock node
        (onLog (LogStore.putSnapshot node.lastApplied term node.map.encode))
      dsimp only
      rw [bind_of_ok h]
      exact ⟨node', rfl⟩

theorem resolve_total (index term : Nat) : ∃ node', resolve index term clock node = .ok () node' := by
  rw [resolve_eq]
  cases node.pending.lookup index with
  | none => exact ⟨node, rfl⟩
  | some waiter => exact ⟨_, rfl⟩

theorem applyNext_total (count : Nat)
    : ∃ done node', applyNext count clock node = .ok done node' := by
  induction count generalizing node with
  | zero => exact ⟨true, node, rfl⟩
  | succ count ih =>
    unfold applyNext
    rw [bind_get]
    cases node.log.get? (node.lastApplied + 1) with
    | none => exact ⟨false, _, rfl⟩
    | some entry =>
      dsimp only
      cases change entry node.map with
      | error e => exact ⟨false, _, rfl⟩
      | ok map =>
        dsimp only
        rw [bind_modify]
        obtain ⟨node', h⟩ := resolve_total clock { node with
          map, lastApplied := node.lastApplied + 1 } (node.lastApplied + 1) entry.term
        rw [bind_of_ok h]
        exact ih node'

theorem applyBacklog_total : ∃ node', applyBacklog clock node = .ok () node' := by
  unfold applyBacklog
  rw [bind_get]
  split
  . exact ⟨node, rfl⟩
  . obtain ⟨done, node', h⟩ := applyNext_total clock node (node.commitIndex - node.lastApplied)
    rw [bind_of_ok h]
    cases done with
    | false => exact ⟨node', rfl⟩
    | true =>
      rw [if_pos rfl, bind_modify]
      exact compact_total clock _

theorem commitThrough_total (index : Nat) : ∃ node', commitThrough index clock node = .ok () node' := by
  unfold commitThrough
  rw [bind_get]
  split
  . rw [bind_modify]
    exact applyBacklog_total clock _
  . exact ⟨node, rfl⟩

theorem commitByMajority_total : ∃ node', commitByMajority clock node = .ok () node' := by
  unfold commitByMajority
  rw [bind_get]
  split
  . dsimp only
    split
    . exact commitThrough_total clock node _
    . exact ⟨node, rfl⟩
  . exact ⟨node, rfl⟩

theorem of_propose {clock : Clock} {node : Node} {proposal : Proposal} {node' : Node} {accepted : Accepted}
    (h : propose proposal clock node = .ok accepted node')
    : node.role.isLeader = true ∧ validateReads node.log proposal = .ok () ∧
        (accepted = .readOnly ↔ proposal.writes.isEmpty = true) := by
  unfold propose ensureLeader at h
  rw [bind_assoc, bind_get] at h
  split at h
  . cases h
  . next hleads =>
    simp only [Bool.or_eq_true, Bool.not_eq_true', not_or, Bool.not_eq_false] at hleads
    rw [pure_bind, bind_get] at h
    cases hvalid : validateReads node.log proposal with
    | error e =>
      rw [hvalid] at h
      cases h
    | ok _ =>
      rw [hvalid] at h
      refine ⟨hleads.2, rfl, ?_⟩
      dsimp only at h
      split at h
      . next hempty =>
        cases h
        exact iff_of_true rfl hempty
      . next hwrites =>
        obtain ⟨_, _, -, h⟩ := of_bind h
        obtain ⟨_, _, -, h⟩ := of_bind h
        obtain ⟨_, _, -, h⟩ := of_bind h
        cases h
        exact iff_of_false nofun hwrites

end NodeM

namespace Chronicle

variable {K : Cluster} {c c' : Chronicle} {n : NodeId} {node : Node} {clock : Clock}
  {excepted : Nat → Prop}

structure Enlists (x y : Node) (index term : Nat) : Prop where
  next : y.nextTicket = x.nextTicket + 1
  waits : ∀ w ∈ y.pending, w ∈ x.pending ∨ w = (index, ⟨x.nextTicket, term⟩)
  news : ∀ o ∈ y.settled, Definite o.2 → o ∈ x.settled
  wins : ∀ o ∈ y.settled, o.2 = .ok () → o ∈ x.settled
  applied : y.lastApplied = x.lastApplied
  announced : y.announced = x.announced

def Proposed (K : Cluster) (excepted : Nat → Prop) (n : NodeId) (c : Chronicle) (node : Node)
    (proposal : Proposal) : EStateM.Result Error Node Accepted → Prop
  | .error _ node' =>
    Mirror K c n node' ∧ node'.log.entries = node.log.entries ∧ Told K excepted node node' c
  | .ok .readOnly node' => node = node'
  | .ok (.appended term index ticket) node' =>
    ∃ c' waiting, Evolves K.ids n c c' ∧ Mirror K c' n node' ∧ term = c.term n ∧
      index = (c.held n).length + 1 ∧
      c.held n ++ [{ term, index, command := proposal.writes.encode }] <+: c'.log term ∧
      ticket = node.nextTicket ∧ Enlists node waiting index term ∧
      Told K excepted waiting node' c'

theorem Enlists.of_enlist (clock : Clock) (node : Node) (index term : Nat)
    : ∃ pending settled,
        NodeM.enlist index term clock node = .ok node.nextTicket { node with
          pending
          nextTicket := node.nextTicket + 1
          settled } ∧
        Enlists node { node with pending, nextTicket := node.nextTicket + 1, settled } index
          term := by
  refine ⟨_, _, NodeM.enlist_eq index term, rfl, ?_, ?_, ?_, rfl, rfl⟩
  . intro w hw
    rcases List.mem_append.1 hw with hw | hw
    . exact .inl (List.mem_of_mem_filter hw)
    . rcases List.mem_cons.1 hw with hw | hw
      . exact .inr hw
      . exact .inl (List.mem_of_mem_filter hw)
  . intro o ho hdefinite
    rcases List.mem_append.1 ho with ho | ho
    . exact ho
    . obtain ⟨w, -, rfl⟩ := List.mem_map.1 ho
      exact absurd hdefinite id
  . intro o ho hok
    rcases List.mem_append.1 ho with ho | ho
    . exact ho
    . exact absurd hok (NodeM.ne_ok_of_mem_outcomes ho)

theorem Plays.extend {e : LogEntry} {role : Role} (hp : Plays K c n role)
    (hrole : role.isLeader = true)
    : Plays K (c.extend n e) n role := by
  cases role with
  | follower => cases hrole
  | candidate votes => cases hrole
  | leader leadership => exact hp

theorem Mirror.proposeWrites {proposal : Proposal} (hm : Mirror K c n node)
    (hrole : node.role.isLeader = true) (hroom : node.log.lastIndex + 1 < 2 ^ 64)
    : Proposed K excepted n c node proposal
        ((do
          NodeM.onLog (LogStore.append [{
            term := node.term
            index := node.log.lastIndex + 1
            command := proposal.writes.encode }])
          let ticket ← NodeM.enlist (node.log.lastIndex + 1) node.term
          NodeM.commitByMajority
          return .appended node.term (node.log.lastIndex + 1) ticket : NodeM Accepted)
            clock node) := by
  let e : LogEntry := {
    term := node.term
    index := node.log.lastIndex + 1
    command := proposal.writes.encode }
  have hterm : node.term = c.term n := hm.term
  have hl := hm.leads hrole
  -- with the files intact, only a command that is too long fails to be logged
  by_cases hlarge : LogStore.greatestCommand < e.command.length
  . obtain ⟨fault, happend⟩ := LogStore.append_tooLarge node.log e rfl hlarge
    have hfail : NodeM.onLog (LogStore.append [e]) clock node = .error fault node :=
      NodeM.onLog_error happend
    rw [NodeM.bind_of_error hfail]
    exact ⟨hm, rfl, .of_eq rfl⟩
  . obtain ⟨log, happend, hstep, hm'⟩ := hm.extended (e := e) hl hterm rfl
      ⟨hm.term_lt, hroom, Nat.le_of_not_lt hlarge⟩
    have hopen : NodeM.onLog (LogStore.append [e]) clock node = .ok () { node with log } :=
      NodeM.onLog_ok happend
    have hm₁ := hm' _ (hm.plays.extend hrole)
    obtain ⟨pending, settled, henlist, henlists⟩ := Enlists.of_enlist clock { node with log }
      (node.log.lastIndex + 1) node.term
    have hm₂ : Mirror K (c.extend n e) n { node with
        log
        pending
        nextTicket := node.nextTicket + 1
        settled } := { hm₁ with }
    have henlists' : Enlists node { node with
        log
        pending
        nextTicket := node.nextTicket + 1
        settled } (node.log.lastIndex + 1) node.term := { henlists with }
    rw [NodeM.bind_of_ok hopen, NodeM.bind_of_ok henlist]
    dsimp only
    have hcommit : Reaches K n _ (Told K excepted _) _ (NodeM.commitByMajority clock _) :=
      hm₂.commitByMajority
    obtain ⟨node', hdone⟩ := NodeM.commitByMajority_total clock { node with
      log
      pending
      nextTicket := node.nextTicket + 1
      settled }
    rw [hdone] at hcommit
    obtain ⟨c', hev, hm₃, htold, -⟩ := hcommit
    rw [NodeM.bind_of_ok hdone]
    refine ⟨c', _, (Relation.ReflTransGen.single hstep).trans hev, hm₃, hterm, ?_, ?_, rfl,
      henlists', htold⟩
    . rw [hm.lastIndex]
    . have hgrown := (hev.extends hm₂.lawful).log node.term
      rw [hterm] at hgrown ⊢
      simpa [Chronicle.extend, e, hterm] using hgrown

theorem Mirror.propose {proposal : Proposal} (hm : Mirror K c n node)
    (hroom : node.log.lastIndex + 1 < 2 ^ 64)
    : Proposed K excepted n c node proposal (NodeM.propose proposal clock node) := by
  unfold NodeM.propose NodeM.ensureLeader
  rw [bind_assoc, NodeM.bind_get]
  split
  . exact ⟨hm, rfl, .of_eq rfl⟩
  . next hleads =>
    simp only [Bool.or_eq_true, Bool.not_eq_true', not_or, Bool.not_eq_false] at hleads
    rw [pure_bind, NodeM.bind_get]
    cases NodeM.validateReads node.log proposal with
    | error e => exact ⟨hm, rfl, .of_eq rfl⟩
    | ok _ =>
      dsimp only
      split
      . rfl
      . exact hm.proposeWrites hleads.2 hroom

end Chronicle

end ReplicatedStore
