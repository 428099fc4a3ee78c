import ReplicatedStore.Proofs.Consensus.Confirming
import ReplicatedStore.Proofs.Runs.Serializability

/-!
Transactions that only read: when a majority confirms the leader in the term in which it found the reads
valid, nothing that was committed before the commit was called is missing from them.
-/

namespace ReplicatedStore

open Chronicle Script

section ReadOnly

variable {K : Cluster} {events : List Event} {scene : Scene} {chronicle : Nat → Chronicle}
  {log g : History} {x y : Node} {n peer : NodeId} {node leader leader' : Handle} {message : CatchUp}
  {proposal proposal' : Proposal} {deeds : List Deed}
  {term index ticket b b' e i j k T u : Nat} {s t : Transaction K events scene}

theorem NodeM.eq_ok_of_acked {r : EStateM.Result Error Node (Bool × List Order)}
    (h : true = NodeM.acked r)
    : ∃ orders y, r = .ok (true, orders) y := by
  cases r with
  | ok a y =>
    obtain ⟨acked, orders⟩ := a
    cases h
    exact ⟨orders, y, rfl⟩
  | error e y => cases h

theorem Script.Confirmed.exists_term_le (h : Confirmed K events scene j node peer message)
    : ∃ m z, j ≤ m ∧ (K.moment events m).node? peer = some z ∧ z.term ≤ message.term := by
  cases h with
  | append hhandled htake =>
    obtain ⟨receiver, m, d, rfl, hjm, -, source, clock, z, hacts, hreply⟩ := hhandled
    obtain ⟨z', hrpc⟩ := NodeM.eq_ok_of_reply hreply
    obtain ⟨r, hrequest, heq⟩ := NodeM.of_map hrpc
    cases heq
    obtain ⟨-, q', clock', x, -, hterm, -, hacked⟩ := htake
    obtain ⟨orders, y, hresponse⟩ := NodeM.eq_ok_of_acked hacked
    obtain ⟨hsent, hle⟩ := NodeM.of_onAppendResponse hresponse
    refine ⟨m, z, hjm, hacts.runs.node, ?_⟩
    rw [hsent] at hle
    exact Nat.le_trans (NodeM.term_le_of_onAppendRequest hrequest) hle
  | snapshot hhandled htake =>
    obtain ⟨receiver, m, d, rfl, hjm, -, source, clock, z, hacts, hreply⟩ := hhandled
    obtain ⟨z', hrpc⟩ := NodeM.eq_ok_of_reply hreply
    obtain ⟨r, hrequest, heq⟩ := NodeM.of_map hrpc
    cases heq
    obtain ⟨-, q', clock', x, -, hterm, -, hacked⟩ := htake
    obtain ⟨orders, y, hresponse⟩ := NodeM.eq_ok_of_acked hacked
    obtain ⟨hsent, hle⟩ := NodeM.of_onSnapshotResponse hresponse
    refine ⟨m, z, hjm, hacts.runs.node, ?_⟩
    rw [hsent] at hle
    exact Nat.le_trans (NodeM.term_le_of_onSnapshotRequest hrequest) hle

theorem Chronicle.Chronicled.term_eq (hc : Chronicled K events chronicle)
    (hx : (K.moment events k).node? n = some x)
    : (chronicle k).term n = x.term :=
  (hc.mirror hx).term.symm

theorem Script.MajorityConfirmed.exists_quorum (hc : Chronicled K events chronicle)
    (h : MajorityConfirmed K events scene j node deeds)
    : ∃ b d needed messages x, ⟨b, d, .openRound node, .ok (needed, messages)⟩ ∈ deeds ∧
        (K.moment events b).node? (scene.nodes node).member = some x ∧
        ∃ quorum, IsQuorum K.ids quorum ∧ ∀ id ∈ quorum, (chronicle j).term id ≤ x.term := by
  obtain ⟨b, d, needed, messages, hjb, hdeed, ⟨hd, clock, x, hacts, hreply⟩, confirmed, hsub, hneeded,
    hconfirmed⟩ := h
  refine ⟨b, d, needed, messages, x, hdeed, hacts.runs.node, ?_⟩
  obtain ⟨y, hok⟩ := NodeM.eq_ok_of_reply hreply
  obtain ⟨messages', x', hopen, hpure⟩ := NodeM.of_bind hok
  have hm := hc.mirror hacts.runs.node
  have hreaches : Reaches K _ _ _ _ (NodeM.openRound clock x) := hm.openRound
  rw [hopen] at hreaches
  obtain ⟨c', -, -, ⟨rfl, -⟩, -, hround, -⟩ := hreaches
  cases hpure
  have hpeers : (confirmed.map (·.1)).Sublist (K.others (scene.nodes node).member) := by
    rw [← hm.peers]
    exact (hsub.map _).trans hround.peers
  have hothers := Cluster.cons_others_perm hm.member
  have hnodup : ((scene.nodes node).member :: K.others (scene.nodes node).member).Nodup :=
    hothers.nodup_iff.2 K.distinct
  refine ⟨(scene.nodes node).member :: confirmed.map (·.1), ⟨?_, ?_, ?_⟩, ?_⟩
  . exact (hpeers.cons_cons _).nodup hnodup
  . intro id hid
    exact hothers.subset ((hpeers.cons_cons _).subset hid)
  . rw [hm.quorum_eq] at hneeded
    rw [List.length_cons, List.length_map]
    omega
  . intro id hid
    rcases List.mem_cons.1 hid with rfl | hid
    . rw [← hc.term_eq hacts.runs.node]
      exact (hc.later hjb).term _
    . obtain ⟨message, hmessage, rfl⟩ := List.mem_map.1 hid
      obtain ⟨m, z, hdm, hz, hle⟩ := (hconfirmed message hmessage).exists_term_le
      rw [hround.term message (hsub.subset hmessage), ← hc.term_eq hz] at hle
      exact Nat.le_trans ((hc.later (by omega)).term message.1) hle

theorem Chronicle.Settled.of_quorum {c : Chronicle} {ids quorum : List NodeId}
    (hg : Settled ids c u g) (hc : c.Lawful ids) (hq : IsQuorum ids quorum)
    (hterm : ∀ id ∈ quorum, c.term id ≤ T)
    : Settled ids c T g := by
  rcases hg with rfl | ⟨v, i, -, hcom, hlog⟩
  . exact settled_nil ids c T
  . obtain ⟨quorum', hq', hacked⟩ := hcom.quorum
    obtain ⟨id, hid, hid'⟩ := hq.meet hq'
    have hpos : 0 < c.acked id v := Nat.lt_of_lt_of_le hcom.pos (hacked id hid')
    exact .inr ⟨v, i, Nat.le_trans (hc.acked_term id v hpos) (hterm id hid), hcom, hlog⟩

/-- The leader that found the reads valid is in the same term when it asks to be confirmed. Reads are
linearizable on this condition. No step sees to it, as a round is opened in whatever term is current. -/
def Transaction.Steady (t : Transaction K events scene) : Prop :=
  ∀ leader proposal b d b' d' round x y,
    ⟨b, d, .propose leader proposal, .ok .readOnly⟩ ∈ t.deeds →
    ⟨b', d', .openRound leader, .ok round⟩ ∈ t.deeds →
    (K.moment events b).node? (scene.nodes leader).member = some x →
    (K.moment events b').node? (scene.nodes leader).member = some y → x.term = y.term

/-- The answers are not what any committed entries give among which is the one at an index. -/
def Transaction.Lacks (t : Transaction K events scene) (index : Nat) : Prop :=
  ∀ log, CommittedLog K events log → ∀ i map, index ≤ i → History.replay (log.take i) = .ok map →
    t.answersOn map ≠ t.answers

/-- A transaction that read something and wrote nothing lacks what another one wrote and whose commit had
returned before. -/
structure Transaction.Overlooks (t s : Transaction K events scene) : Prop where
  writes : t.view.writes.isEmpty = true
  reads : t.view.reads.isEmpty = false
  le : s.returned ≤ t.called
  lacks : ∃ term index, s.Wrote term index ∧ t.Lacks index

theorem Chronicle.Chronicled.isPrefix_of_reads (hc : Chronicled K events chronicle)
    (ht : t.Reads leader proposal b) (hsteady : t.Steady) (hg : Settled K.ids (chronicle e) u g)
    (heb : e ≤ b)
    : g <+: (chronicle b).held (scene.nodes leader).member := by
  obtain ⟨-, clock, x, hacts, hreply⟩ := ht.valid
  obtain ⟨y, hok⟩ := NodeM.eq_ok_of_reply hreply
  obtain ⟨b', d', needed, messages, z, hdeed, hz, quorum, hquorum, hterms⟩ :=
    ht.confirmed.exists_quorum hc
  have hsame : x.term = z.term := hsteady _ _ _ _ _ _ _ x z ht.deed hdeed hacts.runs.node hz
  have hm := hc.mirror hacts.runs.node
  have hl := hm.leads (NodeM.of_propose hok).1
  have hsettled : Settled K.ids (chronicle b) x.term g := by
    apply (hg.mono (hc.lawful e) (hc.later heb)).of_quorum (hc.lawful b) hquorum
    intro id hid
    rw [hsame]
    exact Nat.le_trans ((hc.later (Nat.le_succ b)).term id) (hterms id hid)
  rw [hm.held_eq_log hl]
  apply hsettled.isPrefix_log (hc.lawful b) (Nat.le_of_eq (hc.term_eq hacts.runs.node).symm)
  rw [hl]
  simp

structure SharedUpTo (K : Cluster) (events : List Event) (log held : History) (i : Nat) : Prop where
  le : i ≤ log.length
  isPrefix : log.take i <+: held
  applied : ∃ k n y, (K.moment events k).node? n = some y ∧ i ≤ y.lastApplied

theorem SharedUpTo.of_isPrefix {held : History} (hlog : g <+: log) (hheld : g <+: held)
    (hy : (K.moment events k).node? n = some y) (happlied : g.length ≤ y.lastApplied)
    : SharedUpTo K events log held g.length where
  le := hlog.length_le
  isPrefix := by
    rw [← List.prefix_iff_eq_take.1 hlog]
    exact hheld
  applied := ⟨k, n, y, hy, happlied⟩

theorem Chronicle.Chronicled.base_shared (hc : Chronicled K events chronicle)
    (hlog : CommittedLog K events log) (hsettled : Settled K.ids (chronicle events.length) u log)
    (hcarried : t.Carries proposal) (hx : (K.moment events b).node? n = some x)
    (hvalid : NodeM.validateReads x.log proposal = .ok ()) (hreads : t.view.reads.isEmpty = false)
    : SharedUpTo K events log ((chronicle b).held n) t.baseIndex := by
  obtain ⟨-, hsame, -⟩ := hc.base_valid hcarried hx hvalid hreads
  have hm := hc.mirror t.running.node
  have happlied : t.baseIndex ≤ t.node.commitIndex := hm.applied
  have hlength : (((chronicle t.began).held (scene.nodes t.handle).member).take t.baseIndex).length
      = t.baseIndex := by
    rw [List.length_take, Nat.min_eq_left (Nat.le_trans happlied hm.committed)]
  rw [← hlength]
  apply SharedUpTo.of_isPrefix _ _ t.running.node (Nat.le_of_eq hlength)
  . apply hc.isPrefix_of_length_le hsettled
      (hm.settled.of_isPrefix (List.take_prefix_take_left happlied))
    rw [hlength]
    exact Nat.le_trans happlied (hlog.committed _ _ _ t.running.node).1
  . rw [hsame]
    exact List.take_prefix _ _

theorem Chronicle.Chronicled.write_shared (hc : Chronicled K events chronicle)
    (hlog : CommittedLog K events log) (hsettled : Settled K.ids (chronicle events.length) u log)
    (ht : t.Reads leader proposal b) (hsteady : t.Steady)
    (hs : s.Writes term index leader' proposal' ticket b' e) (hle : s.returned ≤ t.called)
    : SharedUpTo K events log ((chronicle b).held (scene.nodes leader).member) index := by
  obtain ⟨-, hindex, ⟨v, hg⟩, y, hy, happlied⟩ := hc.settles hs
  have heb : e ≤ b := Nat.le_trans hs.le_returned (Nat.le_trans hle ht.called_le)
  have hshared := SharedUpTo.of_isPrefix (hc.lands hlog hsettled hs)
    (hc.isPrefix_of_reads ht hsteady hg heb) hy.node (by simpa [hindex] using happlied)
  simpa [hindex] using hshared

theorem Chronicle.Chronicled.mem_take_of_wrote (hc : Chronicled K events chronicle)
    (hlog : CommittedLog K events log) (hsettled : Settled K.ids (chronicle events.length) u log)
    (hwrote : s.Wrote term index) (hshort : s.view.writes.encode.length < 2 ^ 64) (hle : index ≤ i)
    : { term, index, command := s.view.writes.encode } ∈ log.take i := by
  obtain ⟨_, _, _, _, _, hs⟩ := hwrote.writes
  obtain ⟨-, hindex, -⟩ := hc.settles hs
  have hlt : index - 1 < i := by omega
  apply List.mem_of_getElem?
  rw [List.getElem?_take_of_lt hlt]
  exact hc.entry hlog hsettled hs hshort

theorem Chronicle.Chronicled.exists_linearization (hc : Chronicled K events chronicle)
    (hlog : CommittedLog K events log) (hsettled : Settled K.ids (chronicle events.length) u log)
    (hstale : t.stale = false) (hwrites : t.view.writes.isEmpty = true)
    (hreads : t.view.reads.isEmpty = false) (hsteady : t.Steady)
    : ∃ i ≤ log.length,
        (∀ s : Transaction K events scene, s.returned ≤ t.called →
          (∀ term index, s.Wrote term index → index ≤ i) ∧
          (s.view.writes.isEmpty = false → s.view.writes.encode.length < 2 ^ 64 →
            ∃ term index, s.Wrote term index ∧
              { term, index, command := s.view.writes.encode } ∈ log.take i)) ∧
        ∃ map, History.replay (log.take i) = .ok map ∧ t.answersOn map = t.answers := by
  obtain ⟨leader, proposal, b, ht⟩ := t.exists_reads hstale hwrites
  obtain ⟨-, clock, x, hacts, hreply⟩ := ht.valid
  obtain ⟨y, hok⟩ := NodeM.eq_ok_of_reply hreply
  have hvalid := (NodeM.of_propose hok).2.1
  let held := (chronicle b).held (scene.nodes leader).member
  -- the entries up to the base, and those of each commit before, are committed and the leader has them
  let p (i : Nat) : Prop := i = t.baseIndex ∨
    ∃ (s : Transaction K events scene) (term : Nat), s.Wrote term i ∧ s.returned ≤ t.called
  have hp : ∀ i, p i → SharedUpTo K events log held i := by
    rintro i (rfl | ⟨s, term, hs, hreturned⟩)
    . exact hc.base_shared hlog hsettled ht.carried hacts.runs.node hvalid hreads
    . obtain ⟨_, _, _, _, _, hs⟩ := hs.writes
      exact hc.write_shared hlog hsettled ht hsteady hs hreturned
  obtain ⟨i, hi, hgreatest⟩ := exists_greatest (p := p) (.inl rfl) fun j hj => (hp j hj).le
  obtain ⟨hle, hheld, k, n, y', hy', happlied⟩ := hp i hi
  obtain ⟨map, hmap⟩ := hlog.replay_of_isPrefix hy' (List.take_prefix i log)
    (Nat.le_trans (List.length_take_le _ _) happlied)
  have hall : ∀ s : Transaction K events scene, s.returned ≤ t.called → ∀ term index,
      s.Wrote term index → index ≤ i := by
    intro s hreturned term index hs
    exact hgreatest index (.inr ⟨s, term, hs, hreturned⟩)
  refine ⟨i, hle, ?_, map, hmap, ?_⟩
  . intro s hreturned
    refine ⟨hall s hreturned, ?_⟩
    intro hwritten hshort
    obtain ⟨term, index, hwrote⟩ := (s.exists_wrote_iff hshort).2 hwritten
    have hle := hall s hreturned term index hwrote
    exact ⟨term, index, hwrote, hc.mem_take_of_wrote hlog hsettled hwrote hshort hle⟩
  . apply hc.answersOn_eq ht.carried hacts.runs.node hvalid hheld _ hmap
    intro _
    rw [List.length_take, Nat.min_eq_left hle]
    exact hgreatest _ (.inl rfl)

/-- Whoever wrote nothing read what it would have read after some of the committed entries. Among them is
every entry whose commit had returned before, if the read is not a stale one and its leader stayed in its
term from finding the reads valid to asking for confirmation. The bound is that of the lengths in the stored
form of what was written. -/
theorem reads_linearizable (K : Cluster) (events : List Event) (scene : Scene)
    : ∃ log, CommittedLog K events log ∧
        ∀ t : Transaction K events scene, t.view.writes.isEmpty = true → t.view.reads.isEmpty = false →
          ∃ i ≤ log.length,
            (t.stale = false → t.Steady → ∀ s : Transaction K events scene, s.returned ≤ t.called →
              (∀ term index, s.Wrote term index → index ≤ i) ∧
              (s.view.writes.isEmpty = false → s.view.writes.encode.length < 2 ^ 64 →
                ∃ term index, s.Wrote term index ∧
                  { term, index, command := s.view.writes.encode } ∈ log.take i)) ∧
            ∃ map, History.replay (log.take i) = .ok map ∧ t.answersOn map = t.answers := by
  obtain ⟨chronicle, hc⟩ := exists_chronicled K events
  obtain ⟨log, u, hlog, hsettled⟩ := hc.exists_committedLog
  refine ⟨log, hlog, ?_⟩
  intro t hwrites hreads
  by_cases h : t.stale = false ∧ t.Steady
  . obtain ⟨i, hi, hall, hmap⟩ := hc.exists_linearization hlog hsettled h.1 hwrites hreads h.2
    exact ⟨i, hi, fun _ _ => hall, hmap⟩
  . -- what it began on is what its node had applied, and that is committed
    obtain ⟨hle, hmap⟩ := hlog.applied _ _ _ t.running.node
    have hlength := (hlog.committed _ _ _ t.running.node).1
    refine ⟨t.baseIndex, Nat.le_trans hle hlength, ?_, t.node.map, hmap, ?_⟩
    . intro hstale hsteady
      exact absurd ⟨hstale, hsteady⟩ h
    . exact t.answersOn_eq fun _ _ => rfl

end ReadOnly

-- Member a leads, then b, which commits a write with the help of c, and then a again. Member a finds the
-- reads of a transaction valid while b leads, and asks for confirmation when it leads again. Another
-- transaction begins after that.

namespace Reelection

open Comeback (noop ballot offer elects brings)
open Handover (members)
open Process

def written : KeyMap := KeyMap.empty.insert [1] [2]

def write : Proposal where
  baseTerm := 2
  baseIndex := 2
  writes := { puts := written }

def read (term index : Nat) : Proposal where
  baseTerm := term
  baseIndex := index
  reads := ⟨[.single [1]]⟩

def entry : LogEntry where
  term := 2
  index := 3
  command := write.writes.encode

def firstRound : AppendRequest := { offer 3 "a" 3 2 [noop 3 4] with commit := 3 }

def secondRound : AppendRequest := { offer 3 "a" 4 3 [] with commit := 4 }

def confirms (q : AppendRequest) : List Event := [
  .act "a" ⟨60, 10⟩ .openRound,
  .act "c" ⟨60, 10⟩ (.handle "a" (.append q)),
  .act "a" ⟨60, 10⟩ (.take "c" (.append q) (.append ⟨3, true, 4, 0⟩))]

def events : List Event :=
  members.ids.map (fun n => .open n {} ⟨0, 10⟩) ++
  [.act "a" ⟨20, 10⟩ .tick] ++
  elects ⟨20, 10⟩ "b" (ballot 1 "a" 0 0) ++
  brings ⟨20, 10⟩ "b" (offer 1 "a" 0 0 [noop 1 1]) ⟨1, true, 1, 0⟩ ++
  [.act "b" ⟨40, 10⟩ .tick] ++
  elects ⟨40, 10⟩ "c" (ballot 2 "b" 1 1) ++
  brings ⟨40, 10⟩ "c" (offer 2 "b" 1 1 [noop 2 2]) ⟨2, false, 0, 1⟩ ++
  brings ⟨40, 10⟩ "c" (offer 2 "b" 0 0 [noop 1 1, noop 2 2]) ⟨2, true, 2, 0⟩ ++
  [.act "b" ⟨40, 10⟩ (.propose write)] ++
  brings ⟨40, 10⟩ "c" { offer 2 "b" 2 2 [entry] with commit := 2 } ⟨2, true, 3, 0⟩ ++
  [ .act "a" ⟨40, 10⟩ (.propose (read 1 1)),
    .act "b" ⟨40, 10⟩ (.message "a"),
    .act "a" ⟨40, 10⟩ (.handle "b" (.append { offer 2 "b" 1 1 [noop 2 2, entry] with commit := 3 })),
    .act "a" ⟨60, 10⟩ .tick] ++
  elects ⟨60, 10⟩ "c" (ballot 3 "a" 3 2) ++
  confirms firstRound ++
  [.act "a" ⟨60, 10⟩ (.propose (read 3 4))] ++
  confirms secondRound

def scene : Scene where
  nodes
    | 0 => ⟨"a", 1⟩
    | 1 => ⟨"b", 2⟩
    | _ => ⟨"c", 3⟩
  transactions
    | 0 => {
      view := (TransactionView.performAll { base := .empty } [.put [1] [2]]).2
      base := .member 1 2 2 false }
    | 1 => {
      view := (TransactionView.performAll { base := .empty } [.get [1]]).2
      base := .member 0 1 1 false }
    | _ => {
      view := (TransactionView.performAll { base := written } [.get [1]]).2
      base := .member 0 3 4 false }

def WriteSeen : Prop :=
  Seen members events 18 "b" (·.role.isLeader) true ∧
    Seen members events 18 "b" (fun x => (x.map, x.readPoint)) (.empty, (2, 2)) ∧
    SeenBefore members events 18 "b" (.propose write)
      (fun x => NodeM.reply (NodeM.propose write ⟨40, 10⟩ x)) (.ok (.appended 2 3 0)) ∧
    Seen members events 22 "b" (·.settled) [(0, .ok ())]

def ReadSeen (proposal : Proposal) (called opened : Nat) (clock : Clock) (first q : AppendRequest) :
    Prop :=
  Seen members events called "a" (·.role.isLeader) true ∧
    SeenBefore members events called "a" (.propose proposal)
      (fun x => NodeM.reply (NodeM.propose proposal clock x)) (.ok .readOnly) ∧
    SeenBefore members events opened "a" .openRound
      (fun x => NodeM.reply ((do
        let messages ← NodeM.openRound
        return ((← get).quorum - 1, messages) : NodeM (Nat × List (NodeId × CatchUp))) ⟨60, 10⟩ x))
      (.ok (1, [("b", .append first), ("c", .append q)])) ∧
    SeenBefore members events (opened + 1) "c" (.handle "a" (.append q))
      (fun x => NodeM.reply (World.rpc (.append q) ⟨60, 10⟩ x)) (.ok (.append ⟨3, true, 4, 0⟩)) ∧
    SeenBefore members events (opened + 2) "a" (.take "c" (.append q) (.append ⟨3, true, 4, 0⟩))
      (fun x => NodeM.acked (NodeM.onAppendResponse "c" q.term (!q.entries.isEmpty) ⟨3, true, 4, 0⟩
        ⟨60, 10⟩ x)) true

def StateSeen : Prop :=
  (Seen members events 22 "a" (·.term) 1 ∧ Seen members events 28 "a" (·.term) 3 ∧
    Seen members events 31 "a" (·.term) 3 ∧ Seen members events 32 "a" (·.term) 3) ∧
  (Seen members events 9 "a" (fun x => (x.map, x.readPoint)) (.empty, (1, 1)) ∧
    Seen members events 31 "a" (fun x => (x.map, x.readPoint)) (written, (4, 3))) ∧
  (Seen members events 22 "b" (fun x => (x.lastApplied, x.map)) (3, written) ∧
    Seen members events 31 "a" (fun x => (x.lastApplied, x.map)) (4, written)) ∧
  ∀ k ≤ events.length, ∀ n ∈ members.ids,
    ((members.moment events k).node? n).all (fun x => decide (x.commitIndex ≤ 4)) = true

instance : Decidable WriteSeen :=
  inferInstanceAs (Decidable (_ ∧ _))

instance {proposal : Proposal} {called opened : Nat} {clock : Clock} {first q : AppendRequest} :
    Decidable (ReadSeen proposal called opened clock first q) :=
  inferInstanceAs (Decidable (_ ∧ _))

instance : Decidable StateSeen :=
  inferInstanceAs (Decidable (_ ∧ _))

theorem seen
    : WriteSeen ∧
      ReadSeen (read 1 1) 22 28 ⟨40, 10⟩ firstRound firstRound ∧
      ReadSeen (read 3 4) 31 32 ⟨60, 10⟩ { firstRound with commit := 4 } secondRound ∧
      StateSeen := by
  decide +kernel

theorem exists_write
    : ∃ s : Transaction members events scene,
        s.returned = 22 ∧ s.Wrote 2 3 ∧ s.view.writes = write.writes := by
  obtain ⟨hleads, hmap, hproposes, hsettles⟩ := seen.1
  have hplan : Happens members events scene 18 18 (.planCommit 0) (.lead 1 write) :=
    happens_planCommit_of_leads rfl rfl rfl (Incarnation.exists_runs (by decide) rfl hleads)
  have hpropose : Happens members events scene 18 19 (.propose 1 write) (.ok (.appended 2 3 0)) :=
    happens_propose (Incarnation.exists_acts (by decide) rfl rfl hproposes)
  have hsettled : Happens members events scene 22 22 (.settlement 1 0) (.ok ()) :=
    happens_settlement (Incarnation.exists_runs (by decide) rfl hsettles)
  obtain ⟨s, hs⟩ := Transaction.exists_follows 0 18 rfl
    (Incarnation.exists_runs (by decide) rfl hmap) (Nat.le_refl 18)
    (Script.proceeds_of_appended hplan (Nat.le_refl 18) hpropose (by decide) hsettled)
  refine ⟨s, hs.returned, ⟨18, 19, 1, write, 0, ?_⟩, ?_⟩
  . rw [hs.deeds]
    exact List.mem_cons_of_mem _ List.mem_cons_self
  . rw [hs.view]
    rfl

-- What the commit of a read does when a asks for confirmation after so many events.
def deeds (id : TransactionId) (proposal : Proposal) (called opened : Nat)
    (messages : List (NodeId × CatchUp)) : List Deed := [
  ⟨called, called, .planCommit id, .lead 0 proposal⟩,
  ⟨called, called + 1, .propose 0 proposal, .ok .readOnly⟩,
  ⟨opened, opened + 1, .openRound 0, .ok (1, messages)⟩,
  ⟨opened + 3, opened + 3, .release id, ()⟩]

theorem proceeds {id : TransactionId} {proposal : Proposal} {called opened : Nat} {first : CatchUp}
    {q : AppendRequest} {r : AppendResponse}
    (hplan : Happens members events scene called called (.planCommit id) (.lead 0 proposal))
    (hpropose : Happens members events scene called (called + 1) (.propose 0 proposal)
      (.ok .readOnly))
    (hle : called + 1 ≤ opened)
    (hopen : Happens members events scene opened (opened + 1) (.openRound 0)
      (.ok (1, [("b", first), ("c", .append q)])))
    (hhandle : Happens members events scene (opened + 1) (opened + 2) (.handle 2 (.append q))
      (.ok (.append r)))
    (htake : Happens members events scene (opened + 2) (opened + 3)
      (.takeAppend 0 "c" q.term (!q.entries.isEmpty) r) true)
    : Proceeds members events scene [] (Script.commit id).toProcess called (opened + 3)
        (deeds id proposal called opened [("b", first), ("c", .append q)]) (.answer (.ok ())) := by
  have hsub : [("c", CatchUp.append q)].Sublist [("b", first), ("c", .append q)] :=
    (List.Sublist.refl _).cons _
  apply Script.proceeds_of_readOnly hplan (Nat.le_refl called) hpropose hle hopen Nat.one_ne_zero
    (by omega) hsub (Nat.le_refl 1)
  intro message hmessage
  rw [List.mem_singleton.1 hmessage]
  exact ⟨_, Script.proceeds_of_confirmed rfl (Nat.le_refl _) hhandle (Nat.le_refl _) htake⟩

theorem exists_late_read
    : ∃ (t : Transaction members events scene) (messages : List (NodeId × CatchUp)),
        t.Follows 0 false .empty [.get [1]] 22 31 (deeds 1 (read 1 1) 22 28 messages) := by
  obtain ⟨hleads, hproposes, hopens, hhandles, htakes⟩ := seen.2.1
  have hplan : Happens members events scene 22 22 (.planCommit 1) (.lead 0 (read 1 1)) :=
    happens_planCommit_of_leads rfl rfl rfl (Incarnation.exists_runs (by decide) rfl hleads)
  have hpropose : Happens members events scene 22 23 (.propose 0 (read 1 1)) (.ok .readOnly) :=
    happens_propose (Incarnation.exists_acts (by decide) rfl rfl hproposes)
  have hopen : Happens members events scene 28 29 (.openRound 0)
      (.ok (1, [("b", .append firstRound), ("c", .append firstRound)])) :=
    happens_openRound (Incarnation.exists_acts (by decide) rfl rfl hopens)
  have hhandle : Happens members events scene 29 30 (.handle 2 (.append firstRound))
      (.ok (.append ⟨3, true, 4, 0⟩)) :=
    happens_handle (Incarnation.exists_acts (by decide) rfl rfl hhandles)
  have htake : Happens members events scene 30 31
      (.takeAppend 0 "c" firstRound.term (!firstRound.entries.isEmpty) ⟨3, true, 4, 0⟩) true :=
    happens_takeAppend (Incarnation.exists_acts (by decide) rfl rfl htakes)
  obtain ⟨t, ht⟩ := Transaction.exists_follows 1 9 rfl
    (Incarnation.exists_runs (by decide) rfl seen.2.2.2.2.1.1) (by decide)
    (proceeds hplan hpropose (by decide) hopen hhandle htake)
  exact ⟨t, _, ht⟩

theorem exists_steady_read
    : ∃ (t : Transaction members events scene) (messages : List (NodeId × CatchUp)),
        t.Follows 0 false written [.get [1]] 31 35 (deeds 2 (read 3 4) 31 32 messages) := by
  obtain ⟨hleads, hproposes, hopens, hhandles, htakes⟩ := seen.2.2.1
  have hplan : Happens members events scene 31 31 (.planCommit 2) (.lead 0 (read 3 4)) :=
    happens_planCommit_of_leads rfl rfl rfl (Incarnation.exists_runs (by decide) rfl hleads)
  have hpropose : Happens members events scene 31 32 (.propose 0 (read 3 4)) (.ok .readOnly) :=
    happens_propose (Incarnation.exists_acts (by decide) rfl rfl hproposes)
  have hopen : Happens members events scene 32 33 (.openRound 0)
      (.ok (1, [("b", .append { firstRound with commit := 4 }), ("c", .append secondRound)])) :=
    happens_openRound (Incarnation.exists_acts (by decide) rfl rfl hopens)
  have hhandle : Happens members events scene 33 34 (.handle 2 (.append secondRound))
      (.ok (.append ⟨3, true, 4, 0⟩)) :=
    happens_handle (Incarnation.exists_acts (by decide) rfl rfl hhandles)
  have htake : Happens members events scene 34 35
      (.takeAppend 0 "c" secondRound.term (!secondRound.entries.isEmpty) ⟨3, true, 4, 0⟩) true :=
    happens_takeAppend (Incarnation.exists_acts (by decide) rfl rfl htakes)
  obtain ⟨t, ht⟩ := Transaction.exists_follows 2 31 rfl
    (Incarnation.exists_runs (by decide) rfl seen.2.2.2.2.1.2) (Nat.le_refl 31)
    (proceeds hplan hpropose (by decide) hopen hhandle htake)
  exact ⟨t, _, ht⟩

theorem steady {t : Transaction members events scene} {id : TransactionId} {proposal : Proposal}
    {called opened : Nat} {messages : List (NodeId × CatchUp)} (term : Nat)
    (hdeeds : t.deeds = deeds id proposal called opened messages)
    (hcalled : Seen members events called "a" (·.term) term)
    (hopened : Seen members events opened "a" (·.term) term)
    : t.Steady := by
  intro leader proposal' b d b' d' round x y hpropose hopen hx hy
  rw [hdeeds] at hpropose hopen
  have hb := List.mem_map_of_mem (f := fun deed => (deed.begun, deed.effect)) hpropose
  have hb' := List.mem_map_of_mem (f := fun deed => (deed.begun, deed.effect)) hopen
  simp only [deeds, List.map_cons, List.map_nil, List.mem_cons, Prod.mk.injEq, reduceCtorEq,
    Effect.propose.injEq, Effect.openRound.injEq, List.not_mem_nil, and_false, or_false, false_or]
    at hb hb'
  obtain ⟨hb, hleader, -⟩ := hb
  rw [hb, hleader] at hx
  rw [hb'.1, hleader] at hy
  unfold Seen at hcalled hopened
  rw [show (members.moment events called).node? "a" = some x from hx] at hcalled
  rw [show (members.moment events opened).node? "a" = some y from hy] at hopened
  exact Option.some.inj (hcalled.trans hopened.symm)

theorem term_before : ∃ x, (scene.nodes 0).Runs members events 22 x ∧ x.term = 1 :=
  Incarnation.exists_runs (by decide) rfl seen.2.2.2.1.1

theorem term_after : ∃ y, (scene.nodes 0).Runs members events 28 y ∧ y.term = 3 :=
  Incarnation.exists_runs (by decide) rfl seen.2.2.2.1.2.1

theorem map_eq {log : History} {map : KeyMap} {i : Nat} (hlog : CommittedLog members events log)
    (hi : 3 ≤ i) (hmap : History.replay (log.take i) = .ok map)
    : map = written := by
  obtain ⟨-, -, ⟨hbefore, hafter⟩, hcommitted⟩ := seen.2.2.2
  have hlength : log.length ≤ 4 := hlog.length_le_of_all hcommitted
  have hx : ∃ x, (scene.nodes 1).Runs members events 22 x ∧ (x.lastApplied, x.map) = (3, written) :=
    Incarnation.exists_runs (by decide) rfl hbefore
  have hy : ∃ y, (scene.nodes 0).Runs members events 31 y ∧ (y.lastApplied, y.map) = (4, written) :=
    Incarnation.exists_runs (by decide) rfl hafter
  obtain ⟨x, hx, hxs⟩ := hx
  obtain ⟨y, hy, hys⟩ := hy
  have hreplay : ∀ {m n z k}, (members.moment events m).node? n = some z →
      (z.lastApplied, z.map) = (k, written) → History.replay (log.take k) = .ok written := by
    intro m n z k hz hzs
    obtain ⟨rfl, hmap⟩ := Prod.mk.inj hzs
    rw [← hmap]
    exact (hlog.applied m n z hz).2
  have hwritten : History.replay (log.take i) = .ok written := by
    rcases Nat.eq_or_lt_of_le hi with rfl | hi
    . exact hreplay hx.node hxs
    . rw [List.take_of_length_le (Nat.le_trans hlength hi), ← List.take_of_length_le hlength]
      exact hreplay hy.node hys
  rw [hwritten] at hmap
  exact (Except.ok.inj hmap).symm

end Reelection

/-- A read that is not stale, and whose leader is confirmed in a later term than the one it found the reads
valid in, may succeed and lack what was committed before. -/
theorem reads_overlook_writes
    : ∃ s t : Transaction Handover.members Reelection.events Reelection.scene,
        t.stale = false ∧ ¬ t.Steady ∧ t.Overlooks s := by
  obtain ⟨s, hreturned, hwrote, -⟩ := Reelection.exists_write
  obtain ⟨t, messages, ht⟩ := Reelection.exists_late_read
  refine ⟨s, t, ht.stale, ?_, ⟨?_, ?_, ?_, 2, 3, hwrote, ?_⟩⟩
  . intro hsteady
    obtain ⟨x, hx, hterm⟩ := Reelection.term_before
    obtain ⟨y, hy, hterm'⟩ := Reelection.term_after
    have hdeeds := ht.deeds
    have hsame : x.term = y.term := by
      apply hsteady 0 (Reelection.read 1 1) 22 23 28 29 (1, messages) x y _ _ hx.node hy.node
      . rw [hdeeds]
        exact List.mem_cons_of_mem _ List.mem_cons_self
      . rw [hdeeds]
        exact List.mem_cons_of_mem _ (List.mem_cons_of_mem _ List.mem_cons_self)
    omega
  . rw [ht.view]
    rfl
  . rw [ht.view]
    rfl
  . rw [hreturned, ht.called]
  . intro log hlog i map hi hreplay
    unfold Transaction.answersOn Transaction.answers
    rw [ht.opening, ht.operations, Reelection.map_eq hlog hi hreplay]
    decide +kernel

theorem reads_linearizable_reelection
    : ∃ (s t : Transaction Handover.members Reelection.events Reelection.scene) (log : History)
        (map : KeyMap) (i : Nat), s.Wrote 2 3 ∧ s.returned ≤ t.called ∧ t.Steady ∧ 3 ≤ i ∧
        CommittedLog Handover.members Reelection.events log ∧
        (∃ term index,
          { term, index, command := Reelection.write.writes.encode } ∈ log.take i) ∧
        History.replay (log.take i) = .ok map ∧ t.answersOn map = t.answers := by
  obtain ⟨s, hreturned, hwrote, hwritten⟩ := Reelection.exists_write
  obtain ⟨t, messages, ht⟩ := Reelection.exists_steady_read
  have hle : s.returned ≤ t.called := by
    rw [hreturned, ht.called]
    decide
  obtain ⟨⟨-, -, hcalled, hopened⟩, -⟩ := Reelection.seen.2.2.2
  have hsteady : t.Steady := Reelection.steady 3 ht.deeds hcalled hopened
  have hwrites : t.view.writes.isEmpty = true := by
    rw [ht.view]
    rfl
  have hreads : t.view.reads.isEmpty = false := by
    rw [ht.view]
    rfl
  obtain ⟨log, hlog, hread⟩ :=
    reads_linearizable Handover.members Reelection.events Reelection.scene
  obtain ⟨i, -, hall, map, hmap, hanswers⟩ := hread t hwrites hreads
  obtain ⟨hindices, hentry⟩ := hall ht.stale hsteady s hle
  rw [hwritten] at hentry
  obtain ⟨term, index, -, hmem⟩ := hentry rfl (by decide +kernel)
  exact ⟨s, t, log, map, i, hwrote, hle, hsteady, hindices 2 3 hwrote, hlog, ⟨term, index, hmem⟩, hmap,
    hanswers⟩

-- Stale reads are apart from this: they ask nobody, by design, and read after some of the committed entries
-- only. Member a commits what it wrote. A stale transaction on b, which has not heard of that yet, succeeds
-- after it.

namespace Glance

open Errand Process

def scene : Scene where
  nodes
    | 0 => ⟨"a", 1⟩
    | _ => ⟨"b", 2⟩
  transactions
    | 0 => {
      view := (TransactionView.performAll { base := .empty } operations).2
      base := .member 0 0 0 false }
    | _ => {
      view := (TransactionView.performAll { base := .empty, readOnly := true } [.get [1]]).2
      base := .member 1 1 1 true }

theorem seen
    : Seen members events 7 "a" (fun x => (x.map, x.readPoint)) (.empty, (0, 0)) ∧
      Seen members events 8 "a" (·.role.isLeader) true ∧
      Seen members events 12 "a" (fun x => (x.lastApplied, x.map)) (2, KeyMap.empty.insert [1] [2]) ∧
      Seen members events 12 "b" (fun y => (y.map, y.readPoint)) (.empty, (1, 1)) ∧
      ∀ k ≤ events.length, ∀ n ∈ members.ids,
        ((members.moment events k).node? n).all (fun x => decide (x.commitIndex ≤ 2)) = true := by
  decide +kernel

theorem write_planned : Happens members events scene 8 8 (.planCommit 0) (.lead 0 proposal) :=
  happens_planCommit_of_leads rfl rfl rfl (Incarnation.exists_runs (by decide) rfl seen.2.1)

theorem read_planned
    : Happens members events scene 12 12 (.planCommit 1) (.settled (.ok ())) := by
  have hy : ∃ y, (scene.nodes 1).Runs members events 12 y ∧ (y.map, y.readPoint) = (.empty, (1, 1)) :=
    Incarnation.exists_runs (by decide) rfl seen.2.2.2.1
  obtain ⟨y, hy, -⟩ := hy
  exact happens_planCommit scene 1 rfl rfl hy

theorem exists_write
    : ∃ s : Transaction members events scene, s.returned = 12 ∧ s.Wrote 1 2 := by
  obtain ⟨s, hs⟩ := Transaction.exists_follows 0 7 rfl
    (Incarnation.exists_runs (by decide) rfl seen.1) (by decide)
    (Script.proceeds_of_appended write_planned (Nat.le_refl 8) proposed (by decide) settled)
  refine ⟨s, hs.returned, 8, 9, 0, proposal, 0, ?_⟩
  rw [hs.deeds]
  exact List.mem_cons_of_mem _ List.mem_cons_self

theorem exists_read
    : ∃ (t : Transaction members events scene) (deeds : List Deed),
        t.Follows 1 true .empty [.get [1]] 12 12 deeds := by
  obtain ⟨t, ht⟩ := Transaction.exists_follows 1 12 rfl
    (Incarnation.exists_runs (by decide) rfl seen.2.2.2.1) (Nat.le_refl 12)
    (Script.proceeds_of_settled read_planned)
  exact ⟨t, _, ht⟩

theorem map_eq {log : History} {map : KeyMap} {i : Nat} (hlog : CommittedLog members events log)
    (hi : 2 ≤ i) (hmap : History.replay (log.take i) = .ok map)
    : map = KeyMap.empty.insert [1] [2] := by
  obtain ⟨-, -, happlied, -, hcommitted⟩ := seen
  have hlength : log.length ≤ 2 := hlog.length_le_of_all hcommitted
  have hx : ∃ x, (scene.nodes 0).Runs members events 12 x ∧
      (x.lastApplied, x.map) = (2, KeyMap.empty.insert [1] [2]) :=
    Incarnation.exists_runs (by decide) rfl happlied
  obtain ⟨x, hx, hxs⟩ := hx
  obtain ⟨happlied, hmap'⟩ := Prod.mk.inj hxs
  have hreplay := (hlog.applied 12 _ x hx.node).2
  rw [happlied, List.take_of_length_le hlength, hmap'] at hreplay
  rw [List.take_of_length_le (Nat.le_trans hlength hi), hreplay] at hmap
  exact (Except.ok.inj hmap).symm

end Glance

/-- A stale read that succeeds may lack what was committed before. -/
theorem stale_reads_overlook_writes
    : ∃ s t : Transaction Errand.members Errand.events Glance.scene, t.stale = true ∧ t.Overlooks s := by
  obtain ⟨s, hreturned, hwrote⟩ := Glance.exists_write
  obtain ⟨t, deeds, ht⟩ := Glance.exists_read
  refine ⟨s, t, ht.stale, ⟨?_, ?_, ?_, 1, 2, hwrote, ?_⟩⟩
  . rw [ht.view]
    rfl
  . rw [ht.view]
    rfl
  . rw [hreturned, ht.called]
  . intro log hlog i map hi hreplay
    unfold Transaction.answersOn Transaction.answers
    rw [ht.opening, ht.operations, Glance.map_eq hlog hi hreplay]
    decide +kernel

end ReplicatedStore
