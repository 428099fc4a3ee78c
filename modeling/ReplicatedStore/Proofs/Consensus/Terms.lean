import ReplicatedStore.Proofs.Consensus.Applying
import ReplicatedStore.Proofs.Consensus.Messages
import ReplicatedStore.Consensus.Election

/-!
Newer terms and votes: the hard state is saved, and the rest of the node stays as it was.
-/

namespace ReplicatedStore

namespace NodeM

variable {snapshot : Option Snapshot} {hard : HardState}

theorem saveHardState_ok (clock : Clock) (node : Node) (hi : node.log.Intact snapshot hard) (hfit : node.hard.Fits)
    : ∃ disk, saveHardState clock node = .ok () { node with log := { node.log with disk } } ∧
        { node.log with disk }.Intact snapshot node.hard := by
  obtain ⟨disk, hsave, hi'⟩ := hi.save hfit
  refine ⟨disk, ?_, hi'⟩
  unfold saveHardState
  rw [bind_get]
  exact onLog_ok hsave

def castVote (request : VoteRequest) : NodeM VoteResponse := do
  let node ← get
  if request.term < node.term then return { term := node.term, granted := false }
  let free := node.hard.votedFor.all (· == request.candidate)
  let granted := free && isUpToDate node request
  if granted then
    modify fun node => { node with hard := { node.hard with votedFor := some request.candidate } }
    saveHardState
    resetTimer
  return { term := node.term, granted }

theorem onVoteRequest_eq (request : VoteRequest)
    : onVoteRequest request
        =
      (do
        ensureRunning
        let node ← get
        if node.term < request.term then
          adoptTerm request.term none
          if node.role.isLeader then castVote request
          else
            modify fun n => { n with electionDue := node.electionDue }
            castVote request
        else castVote request) := by
  rfl

end NodeM

namespace Chronicle

variable {K : Cluster} {c c' : Chronicle} {n : NodeId} {node : Node} {clock : Clock}
  {excepted : Nat → Prop}

theorem Mirror.following (hm : Mirror K c n node) : Mirror K c n { node with role := .follower } :=
  { hm with plays := trivial }

theorem Mirror.adoptTerm {term : Nat} (hm : Mirror K c n node) (hlt : term < 2 ^ 64)
    (leader : Option NodeId)
    : Reaches K n c (Told K excepted node)
        (fun _ node' c' => c'.term n = max (c.term n) term ∧ node'.role = .follower ∧
          ∃ disk, node'.log = { node.log with disk })
        (NodeM.adoptTerm term leader clock node) := by
  unfold NodeM.adoptTerm
  rw [NodeM.bind_get]
  split
  . next hnewer =>
    rw [show node.term = node.hard.term from rfl, hm.term] at hnewer
    obtain ⟨snapshot, hi, hk⟩ := hm.files
    have hstep : Step K.ids n c (c.advance n term) := .advance term hnewer
    have hfit : HardState.Fits { term } := ⟨hlt, by simp⟩
    obtain ⟨disk, hsave, hi'⟩ := NodeM.saveHardState_ok clock { node with hard := { term } } hi hfit
    have hnow : (c.advance n term).term n = term := by simp [Chronicle.advance]
    have hnone : (c.advance n term).vote n ((c.advance n term).term n) = none := by
      rw [hnow]
      exact hm.lawful.vote_none hnewer
    have hm' : Mirror K (c.advance n term) n { node with
        log := { node.log with disk }, hard := { term }, role := .follower } :=
      hm.saved (hstep.lawful hm.lawful) (hstep.extends hm.lawful) rfl hi' hk hnow.symm hnone.symm
        trivial
    rw [NodeM.bind_modify, NodeM.bind_of_ok hsave]
    dsimp only
    rw [NodeM.bind_modify]
    refine ⟨_, .single hstep, ?_, .of_eq rfl, ?_, rfl, disk, rfl⟩
    . exact { hm' with }
    . rw [hnow]
      omega
  . next holder =>
    rw [show node.term = node.hard.term from rfl, hm.term] at holder
    have hm' := hm.following
    dsimp only
    rw [NodeM.bind_modify]
    refine .of_mirror ?_ (.of_eq rfl) ⟨?_, rfl, _, rfl⟩
    . exact { hm' with }
    . omega

theorem Mirror.upToDate {source : NodeId} {q : VoteRequest} (hm : Mirror K c n node)
    (hq : Stands K c source q) (hu : NodeM.isUpToDate node q = true)
    : History.UpToDate (c.ballot q.term source) (c.held n) := by
  unfold NodeM.isUpToDate at hu
  rw [hm.shows.lastTerm, hm.lastIndex, hq.lastTerm, hq.lastIndex] at hu
  unfold History.UpToDate
  simpa using hu

theorem Mirror.giveVote {source : NodeId} {q : VoteRequest} (hm : Mirror K c n node)
    (hq : Stands K c source q) (hterm : c.term n = q.term)
    (hfree : node.hard.votedFor.all (· == q.candidate) = true)
    (hu : NodeM.isUpToDate node q = true)
    : Reaches K n c (Told K excepted node)
        (fun r _ c' => r.term < 2 ^ 64 ∧ (r.granted → c'.vote n q.term = some source))
        ((do
          modify fun node =>
            { node with hard := { node.hard with votedFor := some q.candidate } }
          NodeM.saveHardState
          NodeM.resetTimer
          return { term := node.term, granted := true } : NodeM VoteResponse) clock node) := by
  obtain ⟨snapshot, hi, hk⟩ := hm.files
  have hshort := K.short source hq.member
  have hfit : HardState.Fits { node.hard with votedFor := some q.candidate } := {
    term := hm.term_lt
    voter := by
      intro name hname
      cases hname
      rw [hq.candidate]
      exact hshort }
  obtain ⟨disk, hsave, hi'⟩ := NodeM.saveHardState_ok clock
    { node with hard := { node.hard with votedFor := some q.candidate } } hi hfit
  -- a vote that was given before is given again
  have hgrant : ∃ c', Evolves K.ids n c c' ∧ c'.Lawful K.ids ∧ c'.term n = c.term n ∧
      c'.held n = c.held n ∧ c'.vote n (c.term n) = some source ∧
      (∀ t, c'.leader t = some n → c.leader t = some n) := by
    cases hvoted : node.hard.votedFor with
    | none =>
      have hstep : Step K.ids n c (c.grant n source) := by
        apply Step.grant
        . rw [← hm.voted, hvoted]
        . rw [hterm]
          exact hq.vote
        . rw [hterm]
          exact hm.upToDate hq hu
      refine ⟨c.grant n source, .single hstep, hstep.lawful hm.lawful, rfl, rfl, ?_, fun _ h => h⟩
      simp [Chronicle.grant]
    | some name =>
      rw [hvoted] at hfree
      have hname : name = source := by
        rw [← hq.candidate]
        simpa using hfree
      refine ⟨c, .refl, hm.lawful, rfl, rfl, ?_, fun _ h => h⟩
      rw [← hm.voted, hvoted, hname]
  obtain ⟨c', hev, hc', hterm', hheld, hvote, hleader⟩ := hgrant
  have he := hev.extends hm.lawful
  have hm' : Mirror K c' n { node with
      log := { node.log with disk }
      hard := { node.hard with votedFor := some q.candidate }
      role := node.role } := by
    apply hm.saved hc' he hheld hi' hk
    . rw [hterm']
      exact hm.term
    . rw [hterm', hvote, hq.candidate]
    . exact hm.plays.carry he hterm' hheld hleader
  rw [NodeM.bind_modify, NodeM.bind_of_ok hsave]
  refine ⟨c', hev, ?_, .of_eq rfl, hm.term_lt, ?_⟩
  . exact { hm' with }
  . intro _
    rw [← hterm]
    exact hvote

theorem Mirror.castVote {source : NodeId} {q : VoteRequest} (hm : Mirror K c n node)
    (hq : Stands K c source q) (hterm : q.term ≤ c.term n)
    : Reaches K n c (Told K excepted node)
        (fun r _ c' => r.term < 2 ^ 64 ∧ (r.granted → c'.vote n q.term = some source))
        (NodeM.castVote q clock node) := by
  have hnode : node.term = c.term n := hm.term
  unfold NodeM.castVote
  rw [NodeM.bind_get]
  split
  . exact .of_mirror hm (.of_eq rfl) ⟨hm.term_lt, by simp⟩
  . next hle =>
    rw [hnode] at hle
    cases hfree : node.hard.votedFor.all (· == q.candidate) with
    | false => exact .of_mirror hm (.of_eq rfl) ⟨hm.term_lt, by simp⟩
    | true =>
      cases hu : NodeM.isUpToDate node q with
      | false => exact .of_mirror hm (.of_eq rfl) ⟨hm.term_lt, by simp⟩
      | true => exact hm.giveVote hq (by omega) hfree hu

theorem Mirror.ensureRunning (hm : Mirror K c n node)
    : Reaches K n c (Told K excepted node) (fun _ node' c' => node = node' ∧ c = c')
        (NodeM.ensureRunning clock node) := by
  unfold NodeM.ensureRunning
  rw [NodeM.bind_get]
  split
  . exact .of_error hm (.of_eq rfl)
  . exact .of_mirror hm (.of_eq rfl) ⟨rfl, rfl⟩

theorem Mirror.onVoteRequest {source : NodeId} {q : VoteRequest} (hm : Mirror K c n node)
    (hq : Stands K c source q)
    : Reaches K n c (Told K excepted node)
        (fun r _ c' => r.term < 2 ^ 64 ∧ (r.granted → c'.vote n q.term = some source))
        (NodeM.onVoteRequest q clock node) := by
  rw [NodeM.onVoteRequest_eq]
  apply hm.ensureRunning.bind
  rintro _ _ _ - - - ⟨rfl, rfl⟩
  rw [NodeM.bind_get]
  split
  . apply (hm.adoptTerm hq.term_lt none).bind
    rintro _ node' c' hev hm' htold ⟨hterm, -⟩
    have hq' := hq.mono (hev.extends hm.lawful)
    have hle : q.term ≤ c'.term n := by omega
    split
    . exact (hm'.castVote hq' hle).since htold hm'.lawful
    . rw [NodeM.bind_modify]
      have hm'' : Mirror K c' n { node' with electionDue := node.electionDue } := { hm' with }
      have htold' : Told K excepted node { node' with electionDue := node.electionDue } c' :=
        { htold with }
      exact (hm''.castVote hq' hle).since htold' hm'.lawful
  . next hle =>
    apply hm.castVote hq
    rw [show node.term = c.term n from hm.term] at hle
    omega

end Chronicle

end ReplicatedStore
