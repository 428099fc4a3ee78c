import ReplicatedStore.Proofs.Consensus.Elections
import ReplicatedStore.Proofs.Consensus.Quiet

/-!
What a handler may make of the part that a node takes in elections, when saves of the hard state may fail.
-/

namespace ReplicatedStore

def HardState.Precedes (s s' : HardState) : Prop :=
  s.term < s'.term ∨ s.term = s'.term ∧ (s.votedFor = none ∨ s.votedFor = s'.votedFor)

namespace HardState.Precedes

variable {s s' s'' : HardState}

theorem refl (s : HardState) : s.Precedes s :=
  .inr ⟨rfl, .inr rfl⟩

theorem trans (h : s.Precedes s') (h' : s'.Precedes s'') : s.Precedes s'' := by
  rcases h with hlt | ⟨heq, hvote⟩
  . rcases h' with hlt' | ⟨heq', -⟩
    . exact .inl (Nat.lt_trans hlt hlt')
    . exact .inl (heq' ▸ hlt)
  . rcases h' with hlt' | ⟨heq', hvote'⟩
    . exact .inl (heq ▸ hlt')
    . refine .inr ⟨heq.trans heq', ?_⟩
      rcases hvote with hnone | hsame
      . exact .inl hnone
      . rw [hsame]
        exact hvote'

theorem term_le (h : s.Precedes s') : s.term ≤ s'.term := by
  rcases h with hlt | ⟨heq, -⟩
  . exact Nat.le_of_lt hlt
  . exact Nat.le_of_eq heq

theorem eq_vote {t : Nat} {a : NodeId} (h : Precedes ⟨t, some a⟩ s) (hle : s.term ≤ t)
    : s = ⟨t, some a⟩ := by
  rcases h with hlt | ⟨hterm, hnone | hsame⟩
  . exact absurd hlt (Nat.not_lt.2 hle)
  . cases hnone
  . cases s
    cases hterm
    cases hsame
    rfl

theorem eq_of_vote {t : Nat} {a b : NodeId} (h : Precedes ⟨t, some a⟩ ⟨t, some b⟩) : a = b := by
  cases h.eq_vote (Nat.le_refl t)
  rfl

end HardState.Precedes

inductive Shift (asked granted : NodeId → Nat → Prop) (s : HardState) (x y : Node) : Prop where
  | stays (hard : y.hard = x.hard) (role : x.role.Alike y.role) (safe : y.log.Safe s)
  | yields (hard : y.hard = x.hard) (role : y.role = .follower) (safe : y.log.Safe s)
  | raised {t} (newer : x.term < t) (bound : t < 2 ^ 64) (hard : y.hard = { term := t })
      (role : x.role.Alike y.role) (safe : y.log.Safe s)
  | adopts {t} (newer : x.term < t) (bound : t < 2 ^ 64) (hard : y.hard = { term := t })
      (role : y.role = .follower) (safe : y.log.Safe y.hard)
  | votes {c} (request : asked c x.term) (free : x.hard.votedFor = none ∨ x.hard.votedFor = some c)
      (hard : y.hard = { x.hard with votedFor := some c }) (role : x.role.Alike y.role)
      (safe : y.log.Safe s ∨ y.log.Safe y.hard)
  | switches {t c} (newer : x.term < t) (bound : t < 2 ^ 64) (request : asked c t)
      (hard : y.hard = ⟨t, some c⟩) (role : y.role = .follower)
      (safe : y.log.Safe { term := t } ∨ y.log.Safe y.hard)
  | stands (bound : x.term + 1 < 2 ^ 64) (hard : y.hard = ⟨x.term + 1, some x.id⟩)
      (role : y.role = .candidate [x.id] ∨ x.quorum ≤ 1 ∧ y.role.isLeader = true)
      (safe : y.log.Safe y.hard)
  | counts {votes peer} (vote : granted peer x.term) (candidate : x.role = .candidate votes)
      (hard : y.hard = x.hard)
      (role : y.role = .candidate (withVote votes peer) ∨
        x.quorum ≤ (withVote votes peer).length ∧ y.role.isLeader = true)
      (safe : y.log.Safe s)

theorem Shift.hard_precedes {asked granted : NodeId → Nat → Prop} {s : HardState} {x y : Node}
    (h : Shift asked granted s x y)
    : x.hard.Precedes y.hard := by
  cases h with
  | stays hard => exact hard ▸ .refl x.hard
  | yields hard => exact hard ▸ .refl x.hard
  | raised newer _ hard => exact hard ▸ .inl newer
  | adopts newer _ hard => exact hard ▸ .inl newer
  | votes _ free hard => exact hard ▸ .inr ⟨rfl, free⟩
  | switches newer _ _ hard => exact hard ▸ .inl newer
  | stands _ hard => exact hard ▸ .inl (Nat.lt_succ_self _)
  | counts _ _ hard => exact hard ▸ .refl x.hard

theorem Shift.precedes {asked granted : NodeId → Nat → Prop} {s : HardState} {x y : Node}
    (h : Shift asked granted s x y) (hx : s.Precedes x.hard)
    : ∃ s', y.log.Safe s' ∧ s.Precedes s' ∧ s'.Precedes y.hard := by
  have hy := hx.trans h.hard_precedes
  have hold : y.log.Safe s → ∃ s', y.log.Safe s' ∧ s.Precedes s' ∧ s'.Precedes y.hard :=
    fun hs => ⟨s, hs, .refl s, hy⟩
  have hnew : y.log.Safe y.hard → ∃ s', y.log.Safe s' ∧ s.Precedes s' ∧ s'.Precedes y.hard :=
    fun hs => ⟨y.hard, hs, hy, .refl _⟩
  cases h with
  | stays _ _ safe => exact hold safe
  | yields _ _ safe => exact hold safe
  | raised _ _ _ _ safe => exact hold safe
  | adopts _ _ _ _ safe => exact hnew safe
  | votes _ _ _ _ safe => exact safe.elim hold hnew
  | switches newer _ _ hard _ safe =>
    rcases safe with hterm | hvote
    . refine ⟨_, hterm, .inl (Nat.lt_of_le_of_lt hx.term_le newer), ?_⟩
      rw [hard]
      exact .inr ⟨rfl, .inl rfl⟩
    . exact hnew hvote
  | stands _ _ _ safe => exact hnew safe
  | counts _ _ _ _ safe => exact hold safe

theorem Shift.fits {asked granted : NodeId → Nat → Prop} {s : HardState} {x y : Node}
    (h : Shift asked granted s x y) (hx : x.hard.Fits) (hname : (Bytes.ofText x.id).length < 2 ^ 64)
    (hasked : ∀ c t, asked c t → (Bytes.ofText c).length < 2 ^ 64)
    : y.hard.Fits := by
  have hblank : ∀ {t}, t < 2 ^ 64 → HardState.Fits { term := t } := fun ht => ⟨ht, by simp⟩
  have hvoter : ∀ {t c}, t < 2 ^ 64 → (Bytes.ofText c).length < 2 ^ 64 → HardState.Fits ⟨t, some c⟩ := by
    intro t c ht hc
    refine ⟨ht, ?_⟩
    rintro _ ⟨⟩
    exact hc
  cases h with
  | stays hard => exact hard ▸ hx
  | yields hard => exact hard ▸ hx
  | raised _ bound hard => exact hard ▸ hblank bound
  | adopts _ bound hard => exact hard ▸ hblank bound
  | votes request _ hard => exact hard ▸ hvoter hx.term (hasked _ _ request)
  | switches _ bound request hard => exact hard ▸ hvoter bound (hasked _ _ request)
  | stands bound hard => exact hard ▸ hvoter bound hname
  | counts _ _ hard => exact hard ▸ hx

structure Shifts (asked granted : NodeId → Nat → Prop) (s : HardState) (x y : Node) : Prop where
  id : y.id = x.id
  peers : y.peers = x.peers
  shift : Shift asked granted s x y

variable {asked granted : NodeId → Nat → Prop} {s : HardState} {x y z : Node}

theorem Role.Alike.eq_follower {r r' : Role} (h : r.Alike r') (hr : r = .follower) : r' = .follower := by
  rcases h with rfl | ⟨hleader, -⟩
  . exact hr
  . rw [hr] at hleader
    cases hleader

theorem Role.Alike.candidate_or_leader {r r' : Role} {votes : List NodeId} {p : Prop} (h : r.Alike r')
    (hr : r = .candidate votes ∨ p ∧ r.isLeader = true)
    : r' = .candidate votes ∨ p ∧ r'.isLeader = true := by
  rcases h with rfl | ⟨hleader, hleader'⟩
  . exact hr
  . rcases hr with rfl | ⟨hp, -⟩
    . cases hleader
    . exact .inr ⟨hp, hleader'⟩

theorem Shifts.quiet (h : Shifts asked granted s x y) (hq : y.Quiet z) : Shifts asked granted s x z := by
  refine ⟨hq.id.trans h.id, hq.peers.trans h.peers, ?_⟩
  have hhard := hq.hard
  cases h.shift with
  | stays hard role safe => exact .stays (hhard.trans hard) (role.trans hq.role) (hq.safe _ safe)
  | yields hard role safe => exact .yields (hhard.trans hard) (hq.role.eq_follower role) (hq.safe _ safe)
  | raised newer bound hard role safe =>
    exact .raised newer bound (hhard.trans hard) (role.trans hq.role) (hq.safe _ safe)
  | adopts newer bound hard role safe =>
    exact .adopts newer bound (hhard.trans hard) (hq.role.eq_follower role) (hhard ▸ hq.safe _ safe)
  | votes request free hard role safe =>
    exact .votes request free (hhard.trans hard) (role.trans hq.role)
      (safe.imp (hq.safe _) fun h => hhard ▸ hq.safe _ h)
  | switches newer bound request hard role safe =>
    exact .switches newer bound request (hhard.trans hard) (hq.role.eq_follower role)
      (safe.imp (hq.safe _) fun h => hhard ▸ hq.safe _ h)
  | stands bound hard role safe =>
    exact .stands bound (hhard.trans hard) (hq.role.candidate_or_leader role) (hhard ▸ hq.safe _ safe)
  | counts vote candidate hard role safe =>
    exact .counts vote candidate (hhard.trans hard) (hq.role.candidate_or_leader role) (hq.safe _ safe)

theorem Node.Quiet.shifts (h : x.Quiet y) (hs : x.log.Safe s) : Shifts asked granted s x y :=
  ⟨h.id, h.peers, .stays h.hard h.role (h.safe s hs)⟩

namespace NodeM

variable {clock : Clock} {α β : Type}

theorem ends_quiet {r : EStateM.Result Error Node α} {Q : α → Node → Prop}
    (h : Shifts asked granted s x y) (hr : EStateM.Ends (y.Quiet ·) Q r)
    : EStateM.Ends (Shifts asked granted s x ·) Q r := by
  apply hr.imp
  . exact fun _ hq => h.quiet hq
  . exact fun _ _ _ hq => hq

theorem saveHardState_cases (clock : Clock) (hs : x.log.Safe s) (hfit : x.hard.Fits)
    : ∃ log, (saveHardState clock x = .ok () { x with log } ∧ log.Safe x.hard) ∨
        ∃ e, saveHardState clock x = .error e { x with log } ∧ log.Safe s := by
  obtain ⟨hends, herror⟩ := HardState.ends_save hs.guards hfit
  unfold saveHardState
  rw [bind_get]
  cases hr : HardState.save x.hard x.log.disk with
  | ok _ disk =>
    rw [hr] at hends
    refine ⟨{ x.log with disk }, .inl ⟨?_, hends.2, hends.1 _ hs.apart⟩⟩
    exact onLog_ok (LogStore.onDisk_of_ok hr)
  | error e disk =>
    rw [hr] at hends
    refine ⟨{ x.log with disk }, .inr ⟨e, ?_, herror e disk hr, hends _ hs.apart⟩⟩
    exact onLog_error (LogStore.onDisk_of_error hr)

theorem ends_adoptTerm {term : Nat} (hs : x.log.Safe s) (hlt : term < 2 ^ 64) (leader : Option NodeId)
    : EStateM.Ends (Shifts asked granted s x ·)
        (fun _ y => y.role = .follower ∧ term ≤ y.term ∧
          (x.term < term → y.hard = { term } ∧ y.log.Safe { term }))
        (adoptTerm term leader clock x) := by
  unfold adoptTerm
  rw [bind_get]
  split
  . next hnewer =>
    have hfit : HardState.Fits { term } := ⟨hlt, by simp⟩
    obtain ⟨log, ⟨hsave, hsafe⟩ | ⟨e, hsave, hsafe⟩⟩ :=
      saveHardState_cases (x := { x with hard := { term } }) clock hs hfit
    . rw [bind_modify, bind_of_ok hsave]
      dsimp only
      rw [bind_modify]
      refine ⟨⟨rfl, rfl, .adopts hnewer hlt rfl rfl hsafe⟩, rfl, Nat.le_refl term, ?_⟩
      exact fun _ => ⟨rfl, hsafe⟩
    . rw [bind_modify, bind_of_error hsave]
      exact ⟨rfl, rfl, .raised hnewer hlt rfl (.inl rfl) hsafe⟩
  . next holder =>
    dsimp only
    rw [bind_modify]
    refine ⟨⟨rfl, rfl, .yields rfl rfl hs⟩, rfl, Nat.not_lt.1 holder, ?_⟩
    exact fun hnewer => absurd hnewer holder

structure Casts (asked : NodeId → Nat → Prop) (s : HardState) (q : VoteRequest) (x y : Node) : Prop where
  id : y.id = x.id
  peers : y.peers = x.peers
  role : y.role = x.role
  vote : y.hard = x.hard ∧ y.log.Safe s ∨
    asked q.candidate x.term ∧ (x.hard.votedFor = none ∨ x.hard.votedFor = some q.candidate) ∧
      y.hard = { x.hard with votedFor := some q.candidate } ∧ (y.log.Safe s ∨ y.log.Safe y.hard)

theorem Casts.shifts {q : VoteRequest} (h : Casts asked s q x y) : Shifts asked granted s x y := by
  refine ⟨h.id, h.peers, ?_⟩
  rcases h.vote with ⟨hhard, hsafe⟩ | ⟨hasked, hfree, hhard, hsafe⟩
  . exact .stays hhard (.inl h.role) hsafe
  . exact .votes hasked hfree hhard (.inl h.role) hsafe

theorem Casts.shifts_newer {q : VoteRequest} (h : Casts asked { term := q.term } q y z)
    (hnewer : x.term < q.term) (hlt : q.term < 2 ^ 64) (hid : y.id = x.id) (hpeers : y.peers = x.peers)
    (hrole : y.role = .follower) (hhard : y.hard = { term := q.term })
    : Shifts asked granted s x z := by
  refine ⟨h.id.trans hid, h.peers.trans hpeers, ?_⟩
  rcases h.vote with ⟨hsame, hsafe⟩ | ⟨hasked, -, hvoted, hsafe⟩
  . rw [hhard] at hsame
    exact .adopts hnewer hlt hsame (h.role.trans hrole) (hsame ▸ hsafe)
  . unfold Node.term at hasked
    rw [hhard] at hvoted hasked
    exact .switches hnewer hlt hasked hvoted (h.role.trans hrole) hsafe

theorem ends_castVote {q : VoteRequest} (hs : x.log.Safe s) (hfit : x.hard.Fits)
    (hname : (Bytes.ofText q.candidate).length < 2 ^ 64) (hle : q.term ≤ x.term)
    (hasked : asked q.candidate q.term)
    : EStateM.Ends (Casts asked s q x ·)
        (fun r y => r.term = y.term ∧ (r.granted = true → y.log.Safe ⟨q.term, some q.candidate⟩))
        (castVote q clock x) := by
  have hdenied : ∀ r : VoteResponse, r = ⟨x.term, false⟩ → Casts asked s q x x ∧ r.term = x.term ∧
      (r.granted = true → x.log.Safe ⟨q.term, some q.candidate⟩) := by
    rintro _ rfl
    exact ⟨⟨rfl, rfl, rfl, .inl ⟨rfl, hs⟩⟩, rfl, fun h => by cases h⟩
  unfold castVote
  rw [bind_get]
  split
  . exact hdenied _ rfl
  . next hge =>
    have hterm : q.term = x.term := Nat.le_antisymm hle (Nat.not_lt.1 hge)
    dsimp only
    cases hgranted : x.hard.votedFor.all (· == q.candidate) && isUpToDate x q with
    | false => exact hdenied _ rfl
    | true =>
      have hfree : x.hard.votedFor = none ∨ x.hard.votedFor = some q.candidate := by
        cases hvoted : x.hard.votedFor with
        | none => exact .inl rfl
        | some name =>
          rw [hvoted] at hgranted
          simp only [Bool.and_eq_true, Option.all_some, beq_iff_eq] at hgranted
          rw [hgranted.1]
          exact .inr rfl
      have hfit' : HardState.Fits { x.hard with votedFor := some q.candidate } := {
        term := hfit.term
        voter := by
          intro name hmem
          cases hmem
          exact hname }
      -- a vote that could not be saved is not given, but may stand in the files
      obtain ⟨log, ⟨hsave, hsafe⟩ | ⟨e, hsave, hsafe⟩⟩ := saveHardState_cases
        (x := { x with hard := { x.hard with votedFor := some q.candidate } }) clock hs hfit'
      . rw [if_pos rfl, bind_modify, bind_of_ok hsave]
        refine ⟨⟨rfl, rfl, rfl, .inr ⟨hterm ▸ hasked, hfree, rfl, .inr hsafe⟩⟩, rfl, fun _ => ?_⟩
        rw [hterm]
        exact hsafe
      . rw [if_pos rfl, bind_modify, bind_of_error hsave]
        exact ⟨rfl, rfl, rfl, .inr ⟨hterm ▸ hasked, hfree, rfl, .inl hsafe⟩⟩

theorem ends_castVote_newer {q : VoteRequest} (hnewer : x.term < q.term) (hlt : q.term < 2 ^ 64)
    (hname : (Bytes.ofText q.candidate).length < 2 ^ 64) (hasked : asked q.candidate q.term)
    (hid : y.id = x.id) (hpeers : y.peers = x.peers) (hrole : y.role = .follower)
    (hhard : y.hard = { term := q.term }) (hs : y.log.Safe { term := q.term })
    : EStateM.Ends (Shifts asked granted s x ·)
        (fun r z => r.term = z.term ∧ (r.granted = true → z.log.Safe ⟨q.term, some q.candidate⟩))
        (castVote q clock y) := by
  have hfit : y.hard.Fits := by
    rw [hhard]
    exact ⟨hlt, by simp⟩
  have hterm : y.term = q.term := by
    unfold Node.term
    rw [hhard]
  apply (ends_castVote hs hfit hname (Nat.le_of_eq hterm.symm) hasked).imp
  . exact fun _ hz => hz.shifts_newer hnewer hlt hid hpeers hrole hhard
  . exact fun _ _ _ h => h

theorem ends_onVoteRequest {q : VoteRequest} (hs : x.log.Safe s) (hfit : x.hard.Fits)
    (hname : (Bytes.ofText q.candidate).length < 2 ^ 64) (hlt : q.term < 2 ^ 64)
    (hasked : asked q.candidate q.term)
    : EStateM.Ends (Shifts asked granted s x ·)
        (fun r y => r.term = y.term ∧ (r.granted = true → y.log.Safe ⟨q.term, some q.candidate⟩))
        (onVoteRequest q clock x) := by
  rw [onVoteRequest_eq]
  unfold ensureRunning
  rw [bind_assoc, bind_get]
  split
  . exact (Node.Quiet.refl x).shifts hs
  . rw [pure_bind, bind_get]
    split
    . next hnewer =>
      apply EStateM.Ends.bind (x := adoptTerm q.term none clock) (ends_adoptTerm hs hlt none)
      rintro _ y hy ⟨hrole, -, hadopted⟩
      obtain ⟨hhard, hsafe⟩ := hadopted hnewer
      beta_reduce
      split
      . exact ends_castVote_newer hnewer hlt hname hasked hy.id hy.peers hrole hhard hsafe
      . rw [bind_modify]
        exact ends_castVote_newer hnewer hlt hname hasked hy.id hy.peers hrole hhard hsafe
    . next holder =>
      apply (ends_castVote hs hfit hname (Nat.not_lt.1 holder) hasked).imp
      . exact fun _ hy => hy.shifts
      . exact fun _ _ _ h => h

theorem ends_follow {term : Nat} (hs : x.log.Safe s) (hlt : term < 2 ^ 64) (leader : NodeId)
    : EStateM.Ends (Shifts asked granted s x ·) (fun _ _ => True) (follow term leader clock x) := by
  unfold follow
  apply EStateM.Ends.bind (x := adoptTerm term (some leader) clock) (ends_adoptTerm hs hlt _)
  rintro _ y hy -
  exact ⟨hy.quiet (.of_log rfl rfl rfl rfl rfl), trivial⟩

theorem ends_takeEntries (q : AppendRequest) (snapshotIndex lastNew : Nat) (r : AppendResponse)
    (hr : r.term = x.term)
    : EStateM.Ends (x.Quiet ·) (fun r y => r.term = y.term)
        ((do
          onLog (LogStore.append (← reconcile snapshotIndex q.entries))
          commitThrough (min q.commit lastNew)
          return r : NodeM AppendResponse) clock x) := by
  apply (quietly_reconcile _ _).ends_bind
  intro missing x₁ h₁
  apply (quietly_appendLog _).ends_bind
  intro _ x₂ h₂
  apply (quietly_commitThrough _).ends_bind
  intro _ x₃ h₃
  refine ⟨.refl x₃, ?_⟩
  beta_reduce
  rw [hr, h₃.term, h₂.term, h₁.term]

theorem ends_onAppendRequest {q : AppendRequest} (hs : x.log.Safe s) (hlt : q.term < 2 ^ 64)
    : EStateM.Ends (Shifts asked granted s x ·) (fun r y => r.term = y.term)
        (onAppendRequest q clock x) := by
  unfold onAppendRequest ensureRunning
  rw [bind_assoc, bind_get]
  split
  . exact (Node.Quiet.refl x).shifts hs
  . rw [pure_bind, bind_get]
    split
    . exact ⟨(Node.Quiet.refl x).shifts hs, rfl⟩
    . apply EStateM.Ends.bind (x := follow q.term q.leader clock) (ends_follow hs hlt q.leader)
      rintro _ y hy -
      beta_reduce
      rw [bind_get]
      dsimp only
      split
      . exact ⟨hy, rfl⟩
      . exact ends_quiet hy (ends_takeEntries q _ _ _ rfl)

theorem ends_onSnapshotRequest {q : SnapshotRequest} (hs : x.log.Safe s) (hlt : q.term < 2 ^ 64)
    : EStateM.Ends (Shifts asked granted s x ·) (fun r y => r.term = y.term)
        (onSnapshotRequest q clock x) := by
  unfold onSnapshotRequest ensureRunning
  rw [bind_assoc, bind_get]
  split
  . exact (Node.Quiet.refl x).shifts hs
  . rw [pure_bind, bind_get]
    split
    . exact ⟨(Node.Quiet.refl x).shifts hs, rfl⟩
    . apply EStateM.Ends.bind (x := follow q.term q.leader clock) (ends_follow hs hlt q.leader)
      rintro _ y hy -
      beta_reduce
      rw [bind_get]
      split
      . exact ⟨hy, rfl⟩
      . cases KeyMap.decode q.data with
        | error e => exact hy
        | ok map =>
          apply ends_quiet hy
          apply (quietly_putSnapshot _ _ _).ends_bind
          intro _ y₁ h₁
          rw [bind_modify, bind_of_ok (settleWhere_eq _ _), bind_modify]
          exact ⟨.of_log rfl rfl rfl rfl rfl, h₁.term.symm⟩

theorem ends_acknowledged {term : Nat} (hs : x.log.Safe s) (hlt : term < 2 ^ 64) (peer : NodeId)
    (sentTerm : Nat)
    : EStateM.Ends (Shifts asked granted s x ·) (fun _ _ => True)
        (acknowledged peer sentTerm term clock x) := by
  have hx : Shifts asked granted s x x := (Node.Quiet.refl x).shifts hs
  unfold acknowledged
  rw [bind_get]
  split
  . exact ⟨hx, trivial⟩
  . split
    . apply EStateM.Ends.bind (x := attempt (adoptTerm term none) clock)
        (ends_attempt (ends_adoptTerm hs hlt none))
      intro _ y hy _
      exact ⟨hy, trivial⟩
    . split
      . exact ⟨hx, trivial⟩
      . exact ⟨hx.quiet (quiet_updateProgress x peer _), trivial⟩

theorem ends_agreed (peer : NodeId) (f : Progress → Progress) (orders : Node → List Order)
    (horders : ∀ y, Chronicle.OnlyReplicate (orders y))
    : EStateM.Ends (x.Quiet ·) (fun result _ => Chronicle.OnlyReplicate result.2)
        ((do
          modify (·.updateProgress peer f)
          let orders := orders (← get)
          commitByMajority
          return (true, orders) : NodeM (Bool × List Order)) clock x) := by
  apply (quietly_modify fun x => quiet_updateProgress x peer f).ends_bind
  intro _ y _
  rw [bind_get]
  apply quietly_commitByMajority.ends_bind
  intro _ z _
  exact ⟨.refl z, horders y⟩

theorem ends_onAppendResponse {r : AppendResponse} (hs : x.log.Safe s) (hlt : r.term < 2 ^ 64)
    (peer : NodeId) (sentTerm : Nat) (carried : Bool)
    : EStateM.Ends (Shifts asked granted s x ·) (fun result _ => Chronicle.OnlyReplicate result.2)
        (onAppendResponse peer sentTerm carried r clock x) := by
  unfold onAppendResponse
  apply EStateM.Ends.bind (x := acknowledged peer sentTerm r.term clock)
    (ends_acknowledged hs hlt peer sentTerm)
  intro acked y hy _
  beta_reduce
  cases acked with
  | false => exact ⟨hy, Chronicle.onlyReplicate_nil⟩
  | true =>
    apply ends_quiet hy
    rw [if_pos rfl]
    cases r.success with
    | true =>
      rw [if_pos rfl]
      exact ends_agreed peer _ _ fun _ => Chronicle.onlyReplicate_ite
    | false =>
      rw [if_neg Bool.false_ne_true, bind_get]
      cases y.progress? peer with
      | none => exact ⟨.refl y, Chronicle.onlyReplicate_nil⟩
      | some p => exact ⟨quiet_updateProgress y peer _, Chronicle.onlyReplicate_ite⟩

theorem ends_onSnapshotResponse {r : SnapshotResponse} (hs : x.log.Safe s) (hlt : r.term < 2 ^ 64)
    (peer : NodeId) (sentTerm index : Nat)
    : EStateM.Ends (Shifts asked granted s x ·) (fun result _ => Chronicle.OnlyReplicate result.2)
        (onSnapshotResponse peer sentTerm index r clock x) := by
  unfold onSnapshotResponse
  apply EStateM.Ends.bind (x := acknowledged peer sentTerm r.term clock)
    (ends_acknowledged hs hlt peer sentTerm)
  intro acked y hy _
  beta_reduce
  cases acked with
  | false => exact ⟨hy, Chronicle.onlyReplicate_nil⟩
  | true =>
    apply ends_quiet hy
    rw [if_pos rfl]
    exact ends_agreed peer _ _ fun _ => Chronicle.onlyReplicate_ite

structure MayLead (p : Prop) (x y : Node) : Prop where
  id : y.id = x.id
  peers : y.peers = x.peers
  hard : y.hard = x.hard
  role : y.role = x.role ∨ p ∧ y.role.isLeader = true
  safe : ∀ hard, x.log.Safe hard → y.log.Safe hard

theorem ends_takeLeadership {p : Prop} (hp : p) (clock : Clock) (x : Node)
    : EStateM.Ends (MayLead p x ·) (fun _ _ => True) (takeLeadership clock x) := by
  unfold takeLeadership
  rw [bind_get]
  apply EStateM.Ends.bind (P := (MayLead p x ·)) (Q := fun _ y => x.Quiet y) (x := attempt _ clock)
  . apply ((quietly_appendLog _).attempt clock x).imp
    . intro y hy
      refine ⟨hy.id, hy.peers, hy.hard, ?_, hy.safe⟩
      exact hy.role.imp id fun h => ⟨hp, h.2⟩
    . exact fun _ _ hy _ => hy
  . intro appended y hmay hy
    cases appended with
    | none => exact ⟨hmay, trivial⟩
    | some _ =>
      dsimp only
      rw [bind_read, bind_modify]
      apply EStateM.Ends.bind (P := (MayLead p x ·)) (Q := fun _ _ => True) (x := commitByMajority clock)
      . apply (quietly_commitByMajority clock _).imp
        . intro z hz
          refine ⟨hz.id.trans hy.id, hz.peers.trans hy.peers, hz.hard.trans hy.hard, .inr ⟨hp, ?_⟩, ?_⟩
          . rcases hz.role with heq | ⟨-, hleader⟩
            . rw [heq]
              rfl
            . exact hleader
          . exact fun hard h => hz.safe hard (hy.safe hard h)
        . exact fun _ _ _ _ => trivial
      . exact fun _ _ h _ => ⟨h, trivial⟩

theorem ends_countVotes (votes : List NodeId) (clock : Clock) (x : Node)
    : EStateM.Ends (MayLead (x.quorum ≤ votes.length) x ·)
        (fun orders _ => Chronicle.OnlyReplicate orders) (countVotes votes clock x) := by
  unfold countVotes
  rw [bind_get]
  split
  . next hquorum =>
    apply EStateM.Ends.bind (x := takeLeadership clock) (ends_takeLeadership hquorum clock x)
    intro won y hy _
    beta_reduce
    split
    . exact ⟨hy, Chronicle.onlyReplicate_broadcast y⟩
    . exact ⟨hy, Chronicle.onlyReplicate_nil⟩
  . exact ⟨⟨rfl, rfl, rfl, .inl rfl, fun _ h => h⟩, Chronicle.onlyReplicate_nil⟩

theorem ends_onVoteResponse {peer : NodeId} {electionTerm : Nat} {r : VoteResponse} (hs : x.log.Safe s)
    (hlt : r.term < 2 ^ 64) (hgranted : r.granted = true → granted peer electionTerm)
    : EStateM.Ends (Shifts asked granted s x ·) (fun orders _ => Chronicle.OnlyReplicate orders)
        (onVoteResponse peer electionTerm r clock x) := by
  have hx : Shifts asked granted s x x := (Node.Quiet.refl x).shifts hs
  unfold onVoteResponse
  rw [bind_get]
  split
  . exact ⟨hx, Chronicle.onlyReplicate_nil⟩
  . split
    . apply EStateM.Ends.bind (x := attempt (adoptTerm r.term none) clock)
        (ends_attempt (ends_adoptTerm hs hlt none))
      intro _ y hy _
      exact ⟨hy, Chronicle.onlyReplicate_nil⟩
    . cases hrole : x.role with
      | follower => exact ⟨hx, Chronicle.onlyReplicate_nil⟩
      | leader leadership => exact ⟨hx, Chronicle.onlyReplicate_nil⟩
      | candidate votes =>
        dsimp only
        split
        . next hcounts =>
          simp only [Bool.and_eq_true, decide_eq_true_eq] at hcounts
          obtain ⟨hterm, hvote⟩ := hcounts
          rw [bind_modify]
          apply (ends_countVotes (withVote votes peer) clock
            { x with role := .candidate (withVote votes peer) }).imp
          . intro y hy
            refine ⟨hy.id, hy.peers, .counts ?_ hrole hy.hard hy.role (hy.safe s hs)⟩
            rw [hterm]
            exact hgranted hvote
          . exact fun _ _ _ h => h
        . exact ⟨hx, Chronicle.onlyReplicate_nil⟩

def AsksSaved (y : Node) (orders : List Order) : Prop :=
  ∀ peer q, Order.askVote peer q ∈ orders →
    q.candidate = y.id ∧ q.term = y.term ∧ y.log.Safe ⟨q.term, some q.candidate⟩

theorem asksSaved_of_onlyReplicate {orders : List Order} (h : Chronicle.OnlyReplicate orders)
    : AsksSaved y orders :=
  fun peer q hmem => absurd hmem (h peer q)

theorem ends_campaign (hs : x.log.Safe s) (hroom : x.term + 1 < 2 ^ 64)
    (hname : (Bytes.ofText x.id).length < 2 ^ 64)
    : EStateM.Ends (Shifts asked granted s x ·) (fun orders y => AsksSaved y orders)
        (campaign clock x) := by
  unfold campaign
  rw [bind_get, bind_read]
  split
  . exact ⟨(Node.Quiet.refl x).shifts hs, asksSaved_of_onlyReplicate Chronicle.onlyReplicate_nil⟩
  . have hfit : HardState.Fits ⟨x.term + 1, some x.id⟩ := {
      term := hroom
      voter := by
        intro name hmem
        cases hmem
        exact hname }
    rw [bind_modify]
    -- where the new term could not be saved, nobody is asked
    obtain ⟨log, ⟨hsave, hsafe⟩ | ⟨e, hsave, hsafe⟩⟩ := saveHardState_cases
      (x := { x with hard := ⟨x.term + 1, some x.id⟩ }) clock hs hfit
    . rw [bind_of_ok (attempt_ok hsave)]
      dsimp only
      rw [bind_modify]
      rw [bind_of_ok (show resetTimer clock _ = .ok () _ from rfl)]
      split
      . let y : Node := { x with
          log
          hard := ⟨x.term + 1, some x.id⟩
          role := .candidate [x.id]
          leader := none
          electionDue := clock.now + clock.electionTimeout }
        apply (ends_countVotes [x.id] clock y).imp
        . intro z hz
          refine ⟨hz.id, hz.peers, .stands hroom hz.hard hz.role ?_⟩
          rw [hz.hard]
          exact hz.safe _ hsafe
        . exact fun _ _ _ h => asksSaved_of_onlyReplicate h
      . refine ⟨⟨rfl, rfl, .stands hroom rfl (.inl rfl) hsafe⟩, ?_⟩
        intro peer q hmem
        obtain ⟨p, -, hp⟩ := List.mem_map.1 hmem
        cases hp
        exact ⟨rfl, rfl, hsafe⟩
    . rw [bind_of_ok (attempt_error hsave)]
      dsimp only
      rw [bind_modify]
      rw [bind_of_ok (show resetTimer clock _ = .ok () _ from rfl)]
      exact ⟨⟨rfl, rfl, .stays rfl (.inl rfl) hsafe⟩,
        asksSaved_of_onlyReplicate Chronicle.onlyReplicate_nil⟩

theorem ends_tick (hs : x.log.Safe s) (hfit : x.hard.Fits) (hroom : x.term + 1 < 2 ^ 64)
    (hname : (Bytes.ofText x.id).length < 2 ^ 64)
    : EStateM.Ends (Shifts asked granted s x ·) (fun orders y => AsksSaved y orders) (tick clock x) := by
  have hx : Shifts asked granted s x x := (Node.Quiet.refl x).shifts hs
  have hnone : ∀ y : Node, AsksSaved y [] := fun _ =>
    asksSaved_of_onlyReplicate Chronicle.onlyReplicate_nil
  unfold tick
  rw [bind_get, bind_read]
  split
  . exact ⟨hx, hnone x⟩
  . cases hrole : x.role with
    | leader leadership =>
      dsimp only
      split
      -- a leader without a majority steps down in its own term
      . apply EStateM.Ends.bind (x := attempt (adoptTerm x.term none) clock)
          (ends_attempt (ends_adoptTerm hs hfit.term none))
        intro _ y hy _
        exact ⟨hy, hnone y⟩
      . split
        . rw [bind_modify]
          have hquiet : x.Quiet { x with role := .leader { leadership with
              heartbeatDue := clock.now + x.heartbeatInterval } } := by
            refine ⟨rfl, rfl, rfl, .inr ⟨?_, rfl⟩, fun _ h => h⟩
            rw [hrole]
            rfl
          exact ⟨hx.quiet hquiet, asksSaved_of_onlyReplicate (Chronicle.onlyReplicate_broadcast x)⟩
        . exact ⟨hx, hnone x⟩
    | follower =>
      dsimp only
      split
      . exact ends_campaign hs hroom hname
      . exact ⟨hx, hnone x⟩
    | candidate votes =>
      dsimp only
      split
      . exact ends_campaign hs hroom hname
      . exact ⟨hx, hnone x⟩

theorem ends_stop (hs : x.log.Safe s)
    : EStateM.Ends (Shifts asked granted s x ·) (fun _ _ => True) (stop clock x) := by
  rw [stop_eq]
  exact ⟨⟨rfl, rfl, .yields rfl rfl hs⟩, trivial⟩

end NodeM

end ReplicatedStore
