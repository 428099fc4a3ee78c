import ReplicatedStore.Proofs.Consensus.Invariance
import ReplicatedStore.Proofs.Consensus.Terms
import ReplicatedStore.Proofs.Runs.Deployment
import ReplicatedStore.Proofs.Storage.Recovery

/-!
Properties of a node that no handler makes false, because none of the steps does that handlers are made of.
-/

namespace ReplicatedStore

def Role.Ahead : Role → Prop
  | .leader leadership => ∀ peer p, leadership.peers.lookup peer = some p → p.matched < p.next
  | _ => True

namespace Progress

theorem appendedThrough_lt (p : Progress) (index : Nat)
    : (p.appendedThrough index).matched < (p.appendedThrough index).next := by
  unfold appendedThrough
  dsimp only
  omega

theorem installedThrough_eq (p : Progress) (hp : p.matched < p.next) (index : Nat)
    : p.installedThrough index = p.appendedThrough index := by
  have hnext : max p.next (index + 1) = max p.next (max p.matched index + 1) := by omega
  unfold installedThrough appendedThrough
  rw [hnext]

end Progress

namespace NodeM

open LogStore (onDisk_of_ok onDisk_of_error)

variable {clock : Clock} {x : Node} {P : Node → Prop} {accepts : Request → Prop}

structure Outlasts (P : Node → Prop) : Prop where
  aside : ∀ {x : Node} (leader announced electionDue leaderSeen pending nextTicket settled), P x →
    P { x with leader, announced, electionDue, leaderSeen, pending, nextTicket, settled }
  role : ∀ {x : Node} (role : Role), (x.role.Ahead → role.Ahead) → P x → P { x with role }
  raised : ∀ {x : Node} {hard : HardState}, x.hard.term < hard.term → P x → P { x with hard }
  saved : ∀ {x : Node} (hard : HardState), P x →
    EStateM.Ends (fun disk => P { x with log := { x.log with disk } }) (fun _ _ => True)
      (HardState.save hard x.log.disk)

/-- A property that the steps which handlers are made of leave alone, if the requests are of a kind. -/
structure Maintains (accepts : Request → Prop) (P : Node → Prop) : Prop extends Outlasts P where
  halted : ∀ {x : Node}, P x → P { x with halted := true }
  voted : ∀ {x : Node} {votedFor : Option NodeId}, P x → P { x with hard := { x.hard with votedFor } }
  appended : ∀ {clock : Clock} {x : Node} (command : Bytes), x.hard.term < 2 ^ 64 →
    x.log.lastIndex + 1 < 2 ^ 64 → P x →
    EStateM.Ends P (fun _ _ => True)
      (onLog (LogStore.append [⟨x.term, x.log.lastIndex + 1, command⟩]) clock x)
  committed : ∀ {clock : Clock} {x : Node} {index term : Nat}, x.log.termAt? index = some term → P x →
    EStateM.Ends P (fun _ _ => True) (commitThrough index clock x)
  taken : ∀ (clock : Clock) {x : Node} {request : AppendRequest}, accepts (.append request) →
    (x.log.snapshotIndex ≤ request.prevIndex → x.log.termAt? request.prevIndex = some request.prevTerm) →
    P x →
    EStateM.Ends P (fun _ _ => True)
      ((do
        onLog (LogStore.append (← reconcile x.log.snapshotIndex request.entries))
        commitThrough (min request.commit (request.prevIndex + request.entries.length)) : NodeM Unit) clock x)
  installed : ∀ {x : Node} {request : SnapshotRequest} {map : KeyMap}, accepts (.snapshot request) →
    x.halted = false → x.lastApplied < request.index → KeyMap.decode request.data = .ok map → P x →
    EStateM.Yields
      (fun _ log => P { x with
        log
        map
        commitIndex := max x.commitIndex request.index
        lastApplied := request.index })
      (fun log => P { x with log })
      (LogStore.putSnapshot request.index request.indexTerm request.data x.log)

theorem saveHardState_eq (clock : Clock) (x : Node)
    : saveHardState clock x
        =
      match HardState.save x.hard x.log.disk with
      | .ok _ disk => .ok () { x with log := { x.log with disk } }
      | .error e disk => .error e { x with log := { x.log with disk } } := by
  unfold saveHardState
  rw [bind_get]
  cases hr : HardState.save x.hard x.log.disk with
  | ok _ disk => exact onLog_ok (onDisk_of_ok hr)
  | error e disk => exact onLog_error (onDisk_of_error hr)

namespace Outlasts

theorem saveHardState (h : Outlasts P) : Preserves P saveHardState := by
  intro clock x hx
  have hsaved := h.saved x.hard hx
  rw [saveHardState_eq]
  cases hr : HardState.save x.hard x.log.disk with
  | ok _ disk =>
    rw [hr] at hsaved
    exact ⟨hsaved.1, trivial⟩
  | error e disk =>
    rw [hr] at hsaved
    exact hsaved

theorem resetTimer (h : Outlasts P) : Preserves P resetTimer :=
  fun _ _ hx => ⟨h.aside _ _ _ _ _ _ _ hx, trivial⟩

theorem adoptTerm (h : Outlasts P) (term : Nat) (leader : Option NodeId)
    : Preserves P (adoptTerm term leader) := by
  have hfollow : Preserves P (do
      modify fun node => { node with role := .follower, leader }
      NodeM.resetTimer) := by
    apply preserves_modify_bind
    . exact fun _ hx => h.aside _ _ _ _ _ _ _ (h.role .follower (fun _ => trivial) hx)
    . exact fun _ => h.resetTimer
  intro clock x hx
  unfold NodeM.adoptTerm
  rw [bind_get]
  split
  . next hlt =>
    rw [bind_modify]
    apply h.saveHardState.ends_bind
    . exact h.raised hlt hx
    . exact fun _ => hfollow clock
  . exact hfollow clock x hx

theorem follow (h : Outlasts P) (term : Nat) (leader : NodeId) : Preserves P (follow term leader) := by
  unfold NodeM.follow
  apply (h.adoptTerm term (some leader)).bind
  exact fun _ _ _ hx => ⟨h.aside _ _ _ _ _ _ _ hx, trivial⟩

end Outlasts

theorem outlasts_running : Outlasts (·.halted = false) where
  aside _ _ _ _ _ _ _ hx := hx
  role _ _ hx := hx
  raised _ hx := hx
  saved {x} hard hx := by
    cases HardState.save hard x.log.disk with
    | ok _ disk => exact ⟨hx, trivial⟩
    | error e disk => exact hx

namespace Maintains

theorem ensureRunning : Preserves P ensureRunning := by
  unfold NodeM.ensureRunning
  apply preserves_get.bind
  intro node
  split
  . exact preserves_throw _
  . exact preserves_pure _

theorem castVote (h : Maintains accepts P) (request : VoteRequest) : Preserves P (castVote request) := by
  unfold NodeM.castVote
  apply preserves_get.bind
  intro node
  split
  . exact preserves_pure _
  dsimp only
  split
  . apply preserves_modify_bind
    . exact fun _ hx => h.voted hx
    . exact fun _ => h.saveHardState.bind fun _ => h.resetTimer.bind fun _ => preserves_pure _
  . exact preserves_pure _

theorem onVoteRequest (h : Maintains accepts P) (request : VoteRequest) : Preserves P (onVoteRequest request) := by
  rw [onVoteRequest_eq]
  apply ensureRunning.bind
  intro _
  apply preserves_get.bind
  intro node
  split
  . apply (h.adoptTerm _ _).bind
    intro _
    split
    . exact h.castVote request
    . apply preserves_modify_bind
      . exact fun _ hx => h.aside _ _ _ _ _ _ _ hx
      . exact fun _ => h.castVote request
  . exact h.castVote request

theorem onAppendRequest (h : Maintains accepts P) {request : AppendRequest} (haccepts : accepts (.append request))
    : Preserves P (onAppendRequest request) := by
  unfold NodeM.onAppendRequest
  apply ensureRunning.bind
  intro _
  apply preserves_get.bind
  intro node
  split
  . exact preserves_pure _
  apply (h.follow _ _).bind
  intro _ clock x hx
  rw [bind_get]
  dsimp only
  split
  . exact ⟨hx, trivial⟩
  next hmatches =>
  have hprev : x.log.snapshotIndex ≤ request.prevIndex →
      x.log.termAt? request.prevIndex = some request.prevTerm := by
    intro hle
    by_contra hne
    exact hmatches ⟨hle, hne⟩
  have htaken := h.taken clock haccepts hprev hx
  -- the answer comes after the entries were taken in
  have hanswered := ends_return htaken fun _ => ({
    term := x.term
    success := true
    agreesThrough := max (request.prevIndex + request.entries.length) x.log.snapshotIndex
    resumeAt := 0 } : AppendResponse)
  simp only [bind_assoc] at hanswered
  exact hanswered

theorem onSnapshotRequest (h : Maintains accepts P) {request : SnapshotRequest}
    (haccepts : accepts (.snapshot request))
    : Preserves P (onSnapshotRequest request) := by
  intro clock x hx
  unfold NodeM.onSnapshotRequest NodeM.ensureRunning
  rw [bind_assoc, bind_get]
  split
  . exact hx
  next hrunning =>
  rw [pure_bind, bind_get]
  split
  . exact ⟨hx, trivial⟩
  have hfollows := (h.follow request.term request.leader).and
    (outlasts_running.follow request.term request.leader) clock x ⟨hx, by simpa using hrunning⟩
  apply EStateM.Ends.bind (x := NodeM.follow _ _ clock)
    (hfollows.imp (fun _ hy => hy.1) fun _ _ hy _ => hy.2)
  intro _ x hx hrunning
  beta_reduce
  rw [bind_get]
  split
  . exact ⟨hx, trivial⟩
  next hnew =>
  cases hdecode : KeyMap.decode request.data with
  | error e => exact hx
  | ok map =>
    have hinstalled := h.installed haccepts hrunning (Nat.not_le.1 hnew) hdecode hx
    dsimp only
    cases hput : LogStore.putSnapshot request.index request.indexTerm request.data x.log with
    | error e log =>
      rw [hput] at hinstalled
      rw [bind_of_error (onLog_error hput)]
      exact hinstalled
    | ok _ log =>
      rw [hput] at hinstalled
      rw [bind_of_ok (onLog_ok hput), bind_modify, bind_of_ok (settleWhere_eq _ _)]
      have hinstalled : P { x with
          log
          map
          commitIndex := max x.commitIndex request.index
          lastApplied := request.index } := hinstalled
      have htold := h.aside x.leader request.index x.electionDue x.leaderSeen
        (x.pending.filter fun entry => !decide (entry.1 ≤ request.index)) x.nextTicket
        (x.settled ++ outcomes (· ≤ request.index) (fun index =>
          .indeterminate s!"entry {index} was superseded by a snapshot") x.pending) hinstalled
      exact ⟨htold, trivial⟩

theorem rpc (h : Maintains accepts P) {request : Request} (haccepts : accepts request)
    : Preserves P (World.rpc request) := by
  cases request with
  | vote request => exact (h.onVoteRequest request).map _
  | append request => exact (h.onAppendRequest haccepts).map _
  | snapshot request => exact (h.onSnapshotRequest haccepts).map _
  | commit request => exact preserves_throw _

theorem ahead_updateProgress {leadership : Leadership} (hrole : x.role = .leader leadership) (peer : NodeId)
    (f : Progress → Progress)
    (hf : ∀ p, leadership.peers.lookup peer = some p → p.matched < p.next → (f p).matched < (f p).next)
    : x.role.Ahead → (x.updateProgress peer f).role.Ahead := by
  unfold Node.updateProgress
  rw [hrole]
  intro hahead other p hp
  rw [lookup_map_snd _ fun id p => if id = peer then f p else p] at hp
  obtain ⟨q, hq, rfl⟩ := Option.map_eq_some_iff.1 hp
  have hlt := hahead other q hq
  split
  . next hsame =>
    rw [hsame] at hq
    exact hf q hq hlt
  . exact hlt

theorem updateProgress (h : Maintains accepts P) (hx : P x) (peer : NodeId) (f : Progress → Progress)
    (hf : ∀ p, x.progress? peer = some p → p.matched < p.next → (f p).matched < (f p).next)
    : P (x.updateProgress peer f) := by
  cases hrole : x.role with
  | leader leadership =>
    have hprogress : ∀ p, leadership.peers.lookup peer = some p → p.matched < p.next →
        (f p).matched < (f p).next := by
      intro p hp
      apply hf
      unfold Node.progress?
      rw [hrole]
      exact hp
    have hahead := ahead_updateProgress hrole peer f hprogress
    unfold Node.updateProgress at hahead ⊢
    rw [hrole] at hahead ⊢
    apply h.role _ _ hx
    rw [hrole]
    exact hahead
  | _ =>
    unfold Node.updateProgress
    rw [hrole]
    exact hx

theorem acknowledged (h : Maintains accepts P) (peer : NodeId) (sentTerm responseTerm : Nat)
    : Preserves P (acknowledged peer sentTerm responseTerm) := by
  unfold NodeM.acknowledged
  apply preserves_get.bind
  intro node
  split
  . exact preserves_pure _
  split
  . exact (h.adoptTerm _ _).attempt.bind fun _ => preserves_pure _
  split
  . exact preserves_pure _
  intro clock x hx
  exact ⟨h.updateProgress hx peer _ fun _ _ hlt => hlt, trivial⟩

theorem commitByMajority (h : Maintains accepts P) : Preserves P commitByMajority := by
  intro clock x hx
  unfold NodeM.commitByMajority
  rw [bind_get]
  split
  . dsimp only
    split
    . next hterm => exact h.committed hterm hx
    . exact ⟨hx, trivial⟩
  . exact ⟨hx, trivial⟩

theorem agreed (h : Maintains accepts P) (peer : NodeId) {f : Progress → Progress}
    (hf : ∀ p, p.matched < p.next → (f p).matched < (f p).next) (orders : Node → List Order)
    : Preserves P (do
        modify (·.updateProgress peer f)
        let orders := orders (← get)
        NodeM.commitByMajority
        return (true, orders)) := by
  apply preserves_modify_bind
  . exact fun x hx => h.updateProgress hx peer f fun p _ => hf p
  . intro _
    apply preserves_get.bind
    intro node
    exact h.commitByMajority.bind fun _ => preserves_pure _

theorem onAppendResponse (h : Maintains accepts P) (peer : NodeId) (sentTerm : Nat) (carried : Bool)
    (response : AppendResponse)
    : Preserves P (onAppendResponse peer sentTerm carried response) := by
  unfold NodeM.onAppendResponse
  apply (h.acknowledged _ _ _).bind
  intro leads
  split
  . split
    . exact h.agreed peer (fun p _ => p.appendedThrough_lt _) _
    . intro clock x hx
      rw [bind_get]
      cases hprogress : x.progress? peer with
      | none => exact ⟨hx, trivial⟩
      | some p =>
        dsimp only
        rw [bind_modify]
        refine ⟨h.updateProgress hx peer _ ?_, trivial⟩
        intro q hq _
        rw [hprogress] at hq
        cases hq
        show p.matched < backOff p response.resumeAt
        unfold backOff
        omega
  . exact preserves_pure _

theorem onSnapshotResponse (h : Maintains accepts P) (peer : NodeId) (sentTerm index : Nat)
    (response : SnapshotResponse)
    : Preserves P (onSnapshotResponse peer sentTerm index response) := by
  unfold NodeM.onSnapshotResponse
  apply (h.acknowledged _ _ _).bind
  intro leads
  split
  . apply h.agreed peer
    intro p hp
    rw [p.installedThrough_eq hp]
    exact p.appendedThrough_lt _
  . exact preserves_pure _

theorem storedSnapshot : Preserves P (onLog LogStore.storedSnapshot) := by
  intro clock x hx
  rcases LogStore.readSnapshot_cases x.log.disk with ⟨snapshot, hread⟩ | ⟨e, hread⟩
  . have hstored : LogStore.storedSnapshot x.log = .ok snapshot x.log := onDisk_of_ok hread
    rw [onLog_ok hstored]
    exact ⟨hx, trivial⟩
  . have hstored : LogStore.storedSnapshot x.log = .error e x.log := onDisk_of_error hread
    rw [onLog_error hstored]
    exact hx

theorem nextMessage (peer : NodeId) : Preserves P (nextMessage peer) := by
  unfold NodeM.nextMessage
  apply preserves_get.bind
  intro node
  dsimp only
  split
  . apply storedSnapshot.attempt.bind
    intro stored
    split <;> exact preserves_pure _
  . split <;> exact preserves_pure _

theorem messageFor (peer : NodeId) : Preserves P (messageFor peer) := by
  unfold NodeM.messageFor
  apply preserves_get.bind
  intro node
  split
  . exact preserves_pure _
  . exact nextMessage peer

theorem ensureLeader : Preserves P ensureLeader := by
  unfold NodeM.ensureLeader
  apply preserves_get.bind
  intro node
  split
  . exact preserves_throw _
  . exact preserves_pure _

theorem openRound : Preserves P openRound := by
  unfold NodeM.openRound
  apply ensureLeader.bind
  intro _
  apply preserves_get.bind
  intro node
  apply (preserves_mapM (fun peer => (nextMessage peer).bind fun _ => preserves_pure _) _).bind
  exact fun _ => preserves_pure _

theorem propose (h : Maintains accepts P) (hx : P x) (hroom : x.hasRoom = true) (proposal : Proposal)
    : EStateM.Ends P (fun _ _ => True) (propose proposal clock x) := by
  obtain ⟨hterm, hindex⟩ := Node.hasRoom_iff.1 hroom
  unfold NodeM.propose NodeM.ensureLeader
  rw [bind_assoc, bind_get]
  split
  . exact hx
  rw [pure_bind, bind_get]
  cases validateReads x.log proposal with
  | error e => exact hx
  | ok =>
  dsimp only
  split
  . exact ⟨hx, trivial⟩
  apply EStateM.Ends.bind (x := onLog (LogStore.append _) clock)
    (h.appended _ (Nat.lt_of_succ_lt hterm) hindex hx)
  intro _ y hy _
  beta_reduce
  rw [bind_of_ok (enlist_eq _ _)]
  apply h.commitByMajority.ends_bind
  . exact h.aside _ _ _ _ _ _ _ hy
  . exact fun _ z hz => ⟨hz, trivial⟩

theorem ahead_of_starting {peers : List NodeId} {since heartbeatDue next : Nat} (hnext : 0 < next)
    : Role.Ahead (.leader { since, heartbeatDue, peers := peers.map fun peer => (peer, { next }) }) := by
  intro peer p hp
  change (peers.map fun peer => (peer, ({ next } : Progress))).lookup peer = some p at hp
  obtain ⟨before, after, hsplit, -⟩ := List.lookup_eq_some_iff.1 hp
  have hmem : (peer, p) ∈ peers.map fun peer => (peer, ({ next } : Progress)) := by
    rw [hsplit]
    exact List.mem_append_right _ List.mem_cons_self
  obtain ⟨_, -, heq⟩ := List.mem_map.1 hmem
  cases heq
  exact hnext

theorem takeLeadership (h : Maintains accepts P) (hx : P x) (hterm : x.hard.term < 2 ^ 64)
    (hindex : x.log.lastIndex + 1 < 2 ^ 64)
    : EStateM.Ends P (fun _ _ => True) (takeLeadership clock x) := by
  unfold NodeM.takeLeadership
  rw [bind_get]
  apply EStateM.Ends.bind (x := NodeM.attempt _ clock) (ends_attempt (h.appended [] hterm hindex hx))
  intro appended y hy _
  cases appended with
  | none => exact ⟨hy, trivial⟩
  | some =>
    dsimp only
    rw [bind_read, bind_modify]
    apply h.commitByMajority.ends_bind
    . exact h.aside _ _ _ _ _ _ _ (h.role _ (fun _ => ahead_of_starting (Nat.succ_pos _)) hy)
    . exact fun _ z hz => ⟨hz, trivial⟩

theorem countVotes (h : Maintains accepts P) (hx : P x) (hterm : x.hard.term < 2 ^ 64)
    (hindex : x.log.lastIndex + 1 < 2 ^ 64) (votes : List NodeId)
    : EStateM.Ends P (fun _ _ => True) (countVotes votes clock x) := by
  unfold NodeM.countVotes
  rw [bind_get]
  split
  . apply EStateM.Ends.bind (x := NodeM.takeLeadership clock) (h.takeLeadership hx hterm hindex)
    intro leads y hy _
    beta_reduce
    split
    . exact ⟨hy, trivial⟩
    . exact ⟨hy, trivial⟩
  . exact ⟨hx, trivial⟩

theorem campaign (h : Maintains accepts P) (hx : P x) (hroom : x.hasRoom = true)
    : EStateM.Ends P (fun _ _ => True) (campaign clock x) := by
  obtain ⟨hterm, hindex⟩ := Node.hasRoom_iff.1 hroom
  have hsaved := h.saved { term := x.term + 1, votedFor := some x.id } hx
  have hsave := saveHardState_eq clock { x with hard := { term := x.term + 1, votedFor := some x.id } }
  unfold NodeM.campaign
  rw [bind_get, bind_read]
  split
  . exact ⟨hx, trivial⟩
  rw [bind_modify]
  -- a term that was not saved is taken back, so only the directory may be another
  cases hr : HardState.save { term := x.term + 1, votedFor := some x.id } x.log.disk with
  | error e disk =>
    rw [hr] at hsaved hsave
    rw [bind_of_ok (attempt_error hsave)]
    dsimp only
    rw [bind_modify]
    rw [bind_of_ok (show NodeM.resetTimer clock _ = .ok () _ from rfl)]
    exact ⟨h.aside _ _ _ _ _ _ _ hsaved, trivial⟩
  | ok _ disk =>
    rw [hr] at hsaved hsave
    have hraised : P { x with
        log := { x.log with disk }
        hard := { term := x.term + 1, votedFor := some x.id } } := h.raised (Nat.lt_succ_self _) hsaved.1
    rw [bind_of_ok (attempt_ok hsave)]
    dsimp only
    rw [bind_modify]
    rw [bind_of_ok (show NodeM.resetTimer clock _ = .ok () _ from rfl)]
    have hstands := h.aside none x.announced (clock.now + clock.electionTimeout) x.leaderSeen x.pending
      x.nextTicket x.settled (h.role (.candidate [x.id]) (fun _ => trivial) hraised)
    split
    . apply h.countVotes
      . exact hstands
      . exact hterm
      . exact hindex
    . exact ⟨hstands, trivial⟩

theorem onVoteResponse (h : Maintains accepts P) (hx : P x) (hroom : x.hasRoom = true) (peer : NodeId)
    (electionTerm : Nat) (response : VoteResponse)
    : EStateM.Ends P (fun _ _ => True) (onVoteResponse peer electionTerm response clock x) := by
  obtain ⟨hterm, hindex⟩ := Node.hasRoom_iff.1 hroom
  unfold NodeM.onVoteResponse
  rw [bind_get]
  split
  . exact ⟨hx, trivial⟩
  split
  . exact (h.adoptTerm _ _).attempt.ends_bind hx fun _ y hy => ⟨hy, trivial⟩
  cases x.role with
  | candidate votes =>
    dsimp only
    split
    . rw [bind_modify]
      apply h.countVotes
      . exact h.role _ (fun _ => trivial) hx
      . exact Nat.lt_of_succ_lt hterm
      . exact hindex
    . exact ⟨hx, trivial⟩
  | _ => exact ⟨hx, trivial⟩

theorem tick (h : Maintains accepts P) (hx : P x) (hroom : x.hasRoom = true)
    : EStateM.Ends P (fun _ _ => True) (tick clock x) := by
  unfold NodeM.tick
  rw [bind_get, bind_read]
  split
  . exact ⟨hx, trivial⟩
  have hfollows : EStateM.Ends P (fun _ _ => True)
      ((if x.electionDue ≤ clock.now then NodeM.campaign else return []) clock x) := by
    split
    . exact h.campaign hx hroom
    . exact ⟨hx, trivial⟩
  cases hrole : x.role with
  | leader leadership =>
    dsimp only
    split
    . exact (h.adoptTerm _ _).attempt.ends_bind hx fun _ y hy => ⟨hy, trivial⟩
    split
    . refine ⟨h.role _ ?_ hx, trivial⟩
      rw [hrole]
      exact fun hahead => hahead
    . exact ⟨hx, trivial⟩
  | _ => exact hfollows

theorem stop (h : Maintains accepts P) : Preserves P stop := by
  intro clock x hx
  rw [stop_eq]
  exact ⟨h.aside _ _ _ _ _ _ _ (h.role .follower (fun _ => trivial) (h.halted hx)), trivial⟩

end Maintains

end NodeM

def Move.fits (node : Node) : Move → Bool
  | .tick => node.hasRoom
  | .propose _ => node.hasRoom
  | .take _ (.vote _) _ => node.hasRoom
  | _ => true

def Move.Accepted (accepts : Request → Prop) : Move → Prop
  | .handle _ request => accepts request
  | _ => True

instance (accepts : Request → Prop) [DecidablePred accepts] : (move : Move) → Decidable (move.Accepted accepts)
  | .handle _ request => inferInstanceAs (Decidable (accepts request))
  | .tick | .message _ | .openRound | .propose _ | .collect _ | .take .. | .stop => isTrue trivial

open NodeM in
theorem Move.maintains {accepts : Request → Prop} {P : Node → Prop} (h : Maintains accepts P) (n : NodeId)
    (clock : Clock) {x : Node} (hx : P x) {move : Move} (hfits : move.fits x = true)
    (haccepted : move.Accepted accepts)
    : EStateM.Ends P (fun _ _ => True) (move.action n clock x) := by
  cases move with
  | tick => exact ends_return (h.tick hx hfits) _
  | message peer => exact ends_return (Maintains.messageFor peer clock x hx) _
  | openRound => exact ends_return (Maintains.openRound clock x hx) _
  | propose proposal => exact ends_return (h.propose hx hfits proposal) fun _ => []
  | collect ticket => exact ⟨h.aside _ _ _ _ _ _ _ hx, trivial⟩
  | handle source request => exact ends_return (h.rpc haccepted clock x hx) _
  | take answerer request response =>
    cases request with
    | vote request =>
      cases response with
      | vote response => exact ends_return (h.onVoteResponse hx hfits answerer request.term response) _
      | _ => exact ⟨hx, trivial⟩
    | append request =>
      cases response with
      | append response =>
        have hpreserves := h.onAppendResponse answerer request.term (!request.entries.isEmpty) response
        exact ends_return (hpreserves clock x hx) _
      | _ => exact ⟨hx, trivial⟩
    | snapshot request =>
      cases response with
      | snapshot response =>
        have hpreserves := h.onSnapshotResponse answerer request.term request.index response
        exact ends_return (hpreserves clock x hx) _
      | _ => exact ⟨hx, trivial⟩
    | commit request => exact ⟨hx, trivial⟩
  | stop => exact ends_return (h.stop clock x hx) _

end ReplicatedStore
