import ReplicatedStore.Proofs.Runs.Calls
import ReplicatedStore.Proofs.Runs.Safety

/-!
Commits that fail for certain. Their entries stay uncommitted, with one exception: an entry that made room
for the entry of another leader may come back from another member, unless that leader had committed its
own.
-/

namespace ReplicatedStore

open Chronicle Process

inductive Fails (exchanges : List Exchange) : Prop where
  | submitted (node : Handle) (proposal : Proposal) (result : Except Error (Nat × Nat))
      (h : Ends [] (Script.submit node proposal).toProcess exchanges result)
      (hdefinite : Definite result)
  | handedOn (node : Handle) (request : CommitRequest) (outcome : CommitOutcome)
      (h : Ends [] (Script.commitForwarded node request).toProcess exchanges outcome)
      (hdefinite : Definite outcome.toResult)
  | transaction (id : TransactionId) (result : Except Error Unit)
      (h : Ends [] (Script.commit id).toProcess exchanges result) (hdefinite : Definite result)

theorem Fails.settled {exchanges : List Exchange} (h : Fails exchanges) {node : Handle}
    {proposal : Proposal} {term index ticket : Nat} (hwrites : proposal.writes.isEmpty = false)
    (hproposed : ⟨.propose node proposal, .ok (.appended term index ticket)⟩ ∈ exchanges)
    : ∃ e, Definite (.error e : Except Error Unit) ∧
        ⟨.settlement node ticket, .error e⟩ ∈ exchanges := by
  cases h with
  | submitted node' proposal' result h hdefinite =>
    have hcandid := ((Script.yields_submit node' proposal').toProcess h).2
    exact hcandid hdefinite _ _ _ _ _ hwrites hproposed
  | handedOn node' request outcome h hdefinite =>
    have hcandid := ((Script.yields_commitForwarded node' request).toProcess h).2
    exact hcandid hdefinite _ _ _ _ _ hwrites hproposed
  | transaction id result h hdefinite =>
    have hcandid := (Script.yields_commit id).toProcess h
    exact hcandid hdefinite _ _ _ _ _ hwrites hproposed

def KeepsRunning (events : List Event) (n : NodeId) (j k : Nat) : Prop :=
  ∀ m, j ≤ m → m < k → ∀ powerLost, events[m]? ≠ some (.crash n powerLost)

def NodeM.reply {α : Type} : EStateM.Result Error Node α → Except Error α
  | .ok a _ => .ok a
  | .error e _ => .error e

/-- A commit of writes that fails for certain, in a run: the member that takes its proposal does so in an
event of the run, and what it says of the entry is settled there. -/
structure FailedCommit (K : Cluster) (events : List Event) where
  exchanges : List Exchange
  fails : Fails exchanges
  handle : Handle
  proposal : Proposal
  writes : proposal.writes.isEmpty = false
  reply : Except Error Accepted
  proposed : ⟨.propose handle proposal, reply⟩ ∈ exchanges
  member : NodeId
  clock : Clock
  moment : Nat
  node : Node
  event : events[moment]? = some (.act member clock (.propose proposal))
  running : (K.moment events moment).node? member = some node
  room : node.hasRoom = true
  replied : reply = NodeM.reply (NodeM.propose proposal clock node)
  finish : Nat
  settlements : ∀ ticket outcome, ⟨.settlement handle ticket, outcome⟩ ∈ exchanges →
    ∃ k after, moment < k ∧ k ≤ finish ∧ KeepsRunning events member moment k ∧
      (K.moment events k).node? member = some after ∧ (ticket, outcome) ∈ after.settled

structure Displacement (K : Cluster) (events : List Event) (member : NodeId) (index : Nat) where
  moment : Nat
  clock : Clock
  node : Node
  source : NodeId
  request : AppendRequest
  event : events[moment]? = some (.act member clock (.handle source (.append request)))
  sent : .request source member (.append request) ∈ (K.moment events moment).packets
  running : (K.moment events moment).node? member = some node
  conflicts : request.Conflicts node.log index

def Node.Excludes (node : Node) (term index : Nat) : Prop :=
  ∃ h : History, h.length = index ∧ h.lastTerm ≠ term ∧ node.Includes h ∧
    (index ≤ node.lastApplied → ∃ h', h <+: h' ∧ h'.length = node.lastApplied ∧
      History.replay h' = .ok node.map)

namespace Chronicle

structure Watched (K : Cluster) (c : Chronicle) (node : Node) (ticket term index : Nat)
    (dropped : Prop) : Prop where
  next : ticket < node.nextTicket
  waits : ∀ w ∈ node.pending, w.2.ticket = ticket → w = (index, ⟨ticket, term⟩)
  news : ∀ o ∈ node.settled, o.1 = ticket → Definite o.2 → dropped ∨ Barred K c term index
  wins : ∀ o ∈ node.settled, o.1 = ticket → o.2 = .ok () →
    index ≤ node.lastApplied ∧ Fulfilled K c term index

variable {K : Cluster} {c c' : Chronicle} {x y z : Node} {ticket term index i t : Nat}
  {excepted : Nat → Prop} {dropped dropped' : Prop}

theorem Watched.weaken (hw : Watched K c x ticket term index dropped) (h : dropped → dropped')
    : Watched K c x ticket term index dropped' := { hw with
  news := by
    intro o ho hticket hdefinite
    exact (hw.news o ho hticket hdefinite).imp h id }

theorem Watched.told (hw : Watched K c x ticket term index dropped) (hc : c.Lawful K.ids)
    (he : c.Extends c') (ht : Told K excepted x y c')
    : Watched K c' y ticket term index (dropped ∨ excepted index) where
  next := by
    rw [ht.next]
    exact hw.next
  waits := by
    intro w hpending
    exact hw.waits w (ht.waits hpending)
  news := by
    intro o ho hticket hdefinite
    rcases ht.news o ho hdefinite with ho | ⟨w, hpending, hown, hwhy⟩
    . rcases hw.news o ho hticket hdefinite with hdropped | hbarred
      . exact .inl (.inl hdropped)
      . exact .inr (hbarred.mono hc he)
    . rw [hw.waits w hpending (hown.trans hticket)] at hwhy
      rcases hwhy with hexcepted | hbarred
      . exact .inl (.inr hexcepted)
      . exact .inr hbarred
  wins := by
    intro o ho hticket hok
    rcases ht.wins o ho hok with ho | ⟨w, hpending, hown, hle, hfulfilled⟩
    . obtain ⟨hle, hfulfilled⟩ := hw.wins o ho hticket hok
      exact ⟨Nat.le_trans hle ht.applied, hfulfilled.mono hc he⟩
    . rw [hw.waits w hpending (hown.trans hticket)] at hle hfulfilled
      exact ⟨hle, hfulfilled⟩

theorem Watched.enlists (hw : Watched K c x ticket term index dropped) (h : Enlists x z i t)
    : Watched K c z ticket term index dropped where
  next := by
    rw [h.next]
    exact Nat.lt_succ_of_lt hw.next
  waits := by
    intro w hpending hticket
    rcases h.waits w hpending with hpending | rfl
    . exact hw.waits w hpending hticket
    . have := hw.next
      dsimp only at hticket
      omega
  news := by
    intro o ho hticket hdefinite
    exact hw.news o (h.news o ho hdefinite) hticket hdefinite
  wins := by
    intro o ho hticket hok
    rw [h.applied]
    exact hw.wins o (h.wins o ho hok) hticket hok

theorem Watched.serves (hw : Watched K c x ticket term index dropped) (hc : c.Lawful K.ids)
    (he : c.Extends c') (hs : Serves K c' excepted x y)
    : Watched K c' y ticket term index (dropped ∨ excepted index) := by
  rcases hs with ht | ⟨z, i, t, henlists, ht⟩
  . exact hw.told hc he ht
  . exact (hw.enlists henlists).told hc he ht

theorem Watched.of_enlists (hx : Ticketed x) (h : Enlists x z index term)
    : Watched K c z x.nextTicket term index False where
  next := by
    rw [h.next]
    exact Nat.lt_succ_self _
  waits := by
    intro w hpending hticket
    rcases h.waits w hpending with hpending | heq
    . have := hx.waits w hpending
      omega
    . exact heq
  news := by
    intro o ho hticket hdefinite
    have := hx.news o (h.news o ho hdefinite) hdefinite
    omega
  wins := by
    intro o ho hticket hok
    have := hx.wins o (h.wins o ho hok) hok
    omega

namespace Chronicled

variable {events : List Event} {chronicle : Nat → Chronicle} {n : NodeId} {j k : Nat}

theorem admitted {clock : Clock} {proposal : Proposal} (hc : Chronicled K events chronicle)
    (hevent : events[k]? = some (.act n clock (.propose proposal)))
    (hx : (K.moment events k).node? n = some x) (hroom : x.hasRoom = true)
    (hpropose : NodeM.propose proposal clock x = .ok (.appended term index ticket) y)
    : (K.moment events (k + 1)).node? n = some y ∧
        Watched K (chronicle (k + 1)) y ticket term index False := by
  have hhost := Deployment.node?_eq_some.1 hx
  obtain ⟨hhost', rfl, -, z, henlists, htold⟩ := (hc.continues _ _ hevent).created _ _ _ _ y _ _ _
    rfl hhost hroom hpropose
  have hticketed := (hc.depicts k).hosts n
  rw [hhost] at hticketed
  rw [← moment_succ hevent] at hhost'
  refine ⟨Deployment.node?_eq_some.2 hhost', ?_⟩
  have hwatched := (Watched.of_enlists hticketed.2 henlists).told (hc.lawful (k + 1)) (.refl _) htold
  apply hwatched.weaken
  rintro (hnever | ⟨clock, source, q, heq, -⟩)
  . exact hnever
  . cases heq

theorem appended {clock : Clock} {proposal : Proposal} (hc : Chronicled K events chronicle)
    (hevent : events[k]? = some (.act n clock (.propose proposal)))
    (hx : (K.moment events k).node? n = some x) (hroom : x.hasRoom = true)
    (hpropose : NodeM.propose proposal clock x = .ok (.appended term index ticket) y)
    : term = (chronicle k).term n ∧ index = ((chronicle k).held n).length + 1 ∧
        (chronicle k).held n ++ [{ term, index, command := proposal.writes.encode }]
          <+: (chronicle (k + 1)).log term :=
  ((hc.continues _ _ hevent).created _ _ _ _ y _ _ _ rfl (Deployment.node?_eq_some.1 hx) hroom
    hpropose).2.2.1

theorem served (hc : Chronicled K events chronicle) (hx : (K.moment events k).node? n = some x)
    (hkeeps : KeepsRunning events n k (k + 1))
    : ∃ y excepted, (K.moment events (k + 1)).node? n = some y ∧
        Serves K (chronicle (k + 1)) excepted x y ∧
        ∀ i, excepted i → ∃ e, events[k]? = some e ∧ e.Drops (K.moment events k) n x i := by
  cases hevent : events[k]? with
  | none =>
    rw [moment_end hevent]
    exact ⟨x, fun _ => False, hx, .inl (.of_eq rfl), fun _ h => h.elim⟩
  | some e =>
    have hhost := Deployment.node?_eq_some.1 hx
    have hcrash : ∀ powerLost, e ≠ .crash n powerLost := by
      intro powerLost heq
      rw [heq] at hevent
      exact hkeeps k (Nat.le_refl _) (Nat.lt_succ_self _) powerLost hevent
    obtain ⟨y, hhost'⟩ := Deployment.running_perform (K := K) hhost hcrash
    rw [moment_succ hevent]
    exact ⟨y, _, Deployment.node?_eq_some.2 hhost', (hc.continues k e hevent).clients n x y hhost hhost',
      fun i hi => ⟨e, rfl, hi⟩⟩

theorem watched (hc : Chronicled K events chronicle) (hx : (K.moment events j).node? n = some x)
    (hw : Watched K (chronicle j) x ticket term index False) (hle : j ≤ k)
    (hkeeps : KeepsRunning events n j k)
    : ∃ y, (K.moment events k).node? n = some y ∧
        Watched K (chronicle k) y ticket term index
          (∃ d : Displacement K events n index, j ≤ d.moment ∧ d.moment < k) := by
  induction k, hle using Nat.le_induction with
  | base => exact ⟨x, hx, hw.weaken False.elim⟩
  | succ k hle ih =>
    obtain ⟨y, hy, hwatched⟩ := ih fun m hjm hmk => hkeeps m hjm (by omega)
    obtain ⟨y', excepted, hy', hserves, hdrops⟩ := hc.served hy fun m hkm hmk =>
      hkeeps m (by omega) hmk
    refine ⟨y', hy', (hwatched.serves (hc.lawful k) (hc.goesOn k) hserves).weaken ?_⟩
    rintro (⟨d, hd, hdk⟩ | hexcepted)
    . exact ⟨d, hd, by omega⟩
    . obtain ⟨e, hevent, clock, source, q, rfl, hsent, hconflicts⟩ := hdrops index hexcepted
      exact ⟨⟨k, clock, y, source, q, hevent, hsent, hy, hconflicts⟩, hle, by simp⟩

theorem applied_le (hc : Chronicled K events chronicle) (hx : (K.moment events j).node? n = some x)
    (hle : j ≤ k) (hkeeps : KeepsRunning events n j k)
    : ∃ y, (K.moment events k).node? n = some y ∧ x.lastApplied ≤ y.lastApplied := by
  induction k, hle using Nat.le_induction with
  | base => exact ⟨x, hx, Nat.le_refl _⟩
  | succ k hle ih =>
    obtain ⟨y, hy, happlied⟩ := ih fun m hjm hmk => hkeeps m hjm (by omega)
    obtain ⟨y', excepted, hy', hserves, -⟩ := hc.served hy fun m hkm hmk =>
      hkeeps m (by omega) hmk
    refine ⟨y', hy', Nat.le_trans happlied ?_⟩
    rcases hserves with htold | ⟨z, index, term, henlists, htold⟩
    . exact htold.applied
    . rw [← henlists.applied]
      exact htold.applied

theorem committed (hc : Chronicled K events chronicle) {N : Nat}
    (hy : (K.moment events k).node? n = some y) (hN : k ≤ N)
    (hindex : index ≤ y.commitIndex ∨ index ≤ y.lastApplied)
    : ∃ g : History, g.length = index ∧ Settled K.ids (chronicle N) y.term g ∧
        ∀ term, g.lastTerm ≠ term → y.Excludes term index := by
  have hm := hc.mirror hy
  have happlied := hm.applied
  have hcommitted := hm.committed
  have hlength : (((chronicle k).held n).take index).length = index := by
    rw [List.length_take]
    omega
  refine ⟨((chronicle k).held n).take index, hlength, ?_, ?_⟩
  . rw [show y.term = (chronicle k).term n from hm.term]
    apply (hm.settled.of_isPrefix _).mono (hc.lawful k) (hc.later hN)
    exact List.take_prefix_take_left (by omega)
  . intro term hterm
    refine ⟨_, hlength, hterm, hm.includes (List.take_prefix _ _), ?_⟩
    intro hle
    refine ⟨((chronicle k).held n).take y.lastApplied, List.take_prefix_take_left hle, ?_, hm.map⟩
    rw [List.length_take]
    omega

end Chronicled

end Chronicle

section FailedCommits

variable {K : Cluster} {events : List Event} {chronicle : Nat → Chronicle} {term index ticket : Nat}

theorem NodeM.eq_ok_of_reply {α : Type} {r : EStateM.Result Error Node α} {a : α}
    (h : .ok a = NodeM.reply r)
    : ∃ x, r = .ok a x := by
  cases r with
  | ok a' x =>
    cases h
    exact ⟨x, rfl⟩
  | error e x => cases h

theorem NodeM.eq_error_of_reply {α : Type} {r : EStateM.Result Error Node α} {e : Error}
    (h : .error e = NodeM.reply r)
    : ∃ x, r = .error e x := by
  cases r with
  | ok a x => cases h
  | error e' x =>
    cases h
    exact ⟨x, rfl⟩

namespace FailedCommit

theorem refused (call : FailedCommit K events) (hc : Chronicled K events chronicle) {e : Error}
    (hreply : call.reply = .error e)
    : ∃ x, (K.moment events (call.moment + 1)).node? call.member = some x ∧
        x.log.entries = call.node.log.entries := by
  have hhost := Deployment.node?_eq_some.1 call.running
  obtain ⟨x, hpropose⟩ := NodeM.eq_error_of_reply (hreply ▸ call.replied)
  have haction : (Move.propose call.proposal).action call.member call.clock call.node
      = .error e x := NodeM.bind_of_error hpropose
  have hproposed : Proposed K (fun _ => True) call.member (chronicle call.moment) call.node
      call.proposal (NodeM.propose call.proposal call.clock call.node) :=
    (hc.mirror call.running).propose (Node.hasRoom_iff.1 call.room).2
  rw [hpropose] at hproposed
  have hpossible : (Move.propose call.proposal).possible call.member
      (K.moment events call.moment).packets call.node = true := call.room
  refine ⟨x, ?_, hproposed.2.1⟩
  rw [moment_succ call.event, Deployment.node?_eq_some]
  change ((K.moment events call.moment).act _ _ _).hosts _ = _
  rw [Deployment.act_error hhost hpossible haction]
  simp [Deployment.setHost]

theorem watched (call : FailedCommit K events) (hc : Chronicled K events chronicle)
    (hreply : call.reply = .ok (.appended term index ticket))
    : ∃ x, (K.moment events (call.moment + 1)).node? call.member = some x ∧
        Watched K (chronicle (call.moment + 1)) x ticket term index False := by
  obtain ⟨x, hpropose⟩ := NodeM.eq_ok_of_reply (hreply ▸ call.replied)
  exact ⟨x, hc.admitted call.event call.running call.room hpropose⟩

end FailedCommit

end FailedCommits

-- Member a leads five members and appends an entry that only b hears of. Then c is elected without it, and a
-- gives it up: whoever waits for it is told that a does not lead. But c has not committed anything when b is
-- elected, and b commits the entry.

namespace Comeback

def members : Cluster where
  ids := ["a", "b", "c", "d", "e"]
  distinct := by decide
  short := by decide +kernel

def proposal : Proposal where
  baseTerm := 0
  baseIndex := 0
  writes := { puts := KeyMap.empty.insert [1] [2] }

def entry : LogEntry where
  term := 1
  index := 2
  command := proposal.writes.encode

def noop (term index : Nat) : LogEntry where
  term := term
  index := index
  command := []

def ballot (term : Nat) (candidate : NodeId) (lastIndex lastTerm : Nat) : VoteRequest where
  term := term
  candidate := candidate
  lastIndex := lastIndex
  lastTerm := lastTerm

def offer (term : Nat) (leader : NodeId) (prevIndex prevTerm : Nat) (entries : List LogEntry) :
    AppendRequest where
  term := term
  leader := leader
  prevIndex := prevIndex
  prevTerm := prevTerm
  entries := entries
  commit := 0

def elects (clock : Clock) (voter : NodeId) (q : VoteRequest) : List Event := [
  .act voter clock (.handle q.candidate (.vote q)),
  .act q.candidate clock (.take voter (.vote q) (.vote ⟨q.term, true⟩))]

def brings (clock : Clock) (member : NodeId) (q : AppendRequest) (r : AppendResponse) : List Event := [
  .act q.leader clock (.message member),
  .act member clock (.handle q.leader (.append q)),
  .act q.leader clock (.take member (.append q) (.append r))]

def first : List LogEntry := [noop 1 1, entry]

def events : List Event :=
  members.ids.map (fun n => .open n {} ⟨0, 10⟩) ++
  [.act "a" ⟨20, 10⟩ .tick] ++
  elects ⟨20, 10⟩ "b" (ballot 1 "a" 0 0) ++
  elects ⟨20, 10⟩ "c" (ballot 1 "a" 0 0) ++
  [.act "a" ⟨20, 10⟩ (.propose proposal)] ++
  brings ⟨20, 10⟩ "b" (offer 1 "a" 0 0 first) ⟨1, true, 2, 0⟩ ++
  [.act "c" ⟨40, 10⟩ .tick] ++
  elects ⟨40, 10⟩ "d" (ballot 2 "c" 0 0) ++
  elects ⟨40, 10⟩ "e" (ballot 2 "c" 0 0) ++
  brings ⟨40, 10⟩ "a" (offer 2 "c" 0 0 [noop 2 1]) ⟨2, true, 1, 0⟩ ++
  [.act "b" ⟨60, 10⟩ .tick, .act "b" ⟨80, 10⟩ .tick] ++
  elects ⟨80, 10⟩ "d" (ballot 3 "b" 2 1) ++
  elects ⟨80, 10⟩ "e" (ballot 3 "b" 2 1) ++
  brings ⟨80, 10⟩ "d" (offer 3 "b" 2 1 [noop 3 3]) ⟨3, false, 0, 1⟩ ++
  brings ⟨80, 10⟩ "d" (offer 3 "b" 0 0 (first ++ [noop 3 3])) ⟨3, true, 3, 0⟩ ++
  brings ⟨80, 10⟩ "e" (offer 3 "b" 2 1 [noop 3 3]) ⟨3, false, 0, 1⟩ ++
  brings ⟨80, 10⟩ "e" (offer 3 "b" 0 0 (first ++ [noop 3 3])) ⟨3, true, 3, 0⟩

def exchanges : List Exchange := [
  ⟨.propose 0 proposal, .ok (.appended 1 2 0)⟩,
  ⟨.broadcast 0, ()⟩,
  ⟨.config 0, ({} : ConsensusConfig)⟩,
  ⟨.settlement 0 0, .error (.notLeader (some "c"))⟩]

theorem keepsRunning : KeepsRunning events "a" 10 21 := by
  intro m _ hm powerLost heq
  have hnever : ∀ m < 21, ∀ powerLost, (events[m]?.map fun event => match event with
      | .crash n p => n == "a" && p == powerLost
      | _ => false) ≠ some true := by
    decide +kernel
  apply hnever m hm powerLost
  rw [heq]
  simp

end Comeback

end ReplicatedStore
