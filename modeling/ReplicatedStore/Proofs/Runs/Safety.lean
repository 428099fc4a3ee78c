import ReplicatedStore.Proofs.Runs.Depiction

/-!
What holds of every run, whatever becomes of its messages and its members: terms have one leader,
committed entries stay, and nodes that have applied as much have the same map.
-/

namespace ReplicatedStore

open Chronicle

-- Member a leads, commits an entry with the help of b and brings c up to date by a snapshot. Then c loses its
-- power and is opened again, and b is elected in the next term.

namespace Handover

def members : Cluster where
  ids := ["a", "b", "c"]
  distinct := by decide
  short := by decide +kernel

def written : WriteSet where
  puts := KeyMap.empty.insert [1] [2]

def opening : LogEntry where
  term := 1
  index := 1
  command := []

def entry : LogEntry where
  term := 1
  index := 2
  command := written.encode

def firstBallot : VoteRequest where
  term := 1
  candidate := "a"
  lastIndex := 0
  lastTerm := 0

def nextBallot : VoteRequest where
  term := 2
  candidate := "b"
  lastIndex := 2
  lastTerm := 1

def entries : AppendRequest where
  term := 1
  leader := "a"
  prevIndex := 0
  prevTerm := 0
  entries := [opening, entry]
  commit := 0

def commitment : AppendRequest where
  term := 1
  leader := "a"
  prevIndex := 2
  prevTerm := 1
  entries := []
  commit := 2

def snapshot : SnapshotRequest where
  term := 1
  leader := "a"
  index := 2
  indexTerm := 1
  data := written.puts.encode

def events : List Event := [
  .open "a" { snapshotThreshold := 1 } ⟨0, 10⟩,
  .open "b" {} ⟨0, 10⟩,
  .open "c" {} ⟨0, 10⟩,
  .act "a" ⟨20, 10⟩ .tick,
  .act "b" ⟨20, 10⟩ (.handle "a" (.vote firstBallot)),
  .act "a" ⟨20, 10⟩ (.take "b" (.vote firstBallot) (.vote ⟨1, true⟩)),
  .act "a" ⟨20, 10⟩ (.propose { baseTerm := 0, baseIndex := 0, writes := written }),
  .act "a" ⟨20, 10⟩ (.message "b"),
  .act "b" ⟨20, 10⟩ (.handle "a" (.append entries)),
  .act "a" ⟨20, 10⟩ (.take "b" (.append entries) (.append ⟨1, true, 2, 0⟩)),
  .act "a" ⟨20, 10⟩ (.message "b"),
  .act "b" ⟨20, 10⟩ (.handle "a" (.append commitment)),
  .act "a" ⟨20, 10⟩ (.message "c"),
  .act "c" ⟨20, 10⟩ (.handle "a" (.snapshot snapshot)),
  .crash "c" true,
  .open "c" {} ⟨20, 10⟩,
  .act "b" ⟨40, 10⟩ .tick,
  .act "c" ⟨40, 10⟩ (.handle "b" (.vote nextBallot)),
  .act "b" ⟨40, 10⟩ (.take "c" (.vote nextBallot) (.vote ⟨2, true⟩))]

def rivalBallot : VoteRequest := { firstBallot with candidate := "c" }

-- Both a and c run for the first term. Member b votes for a, whom it hears first.
def rivalry : List Event := events.take 4 ++ [
  .act "c" ⟨20, 10⟩ .tick,
  .act "c" ⟨20, 10⟩ (.handle "a" (.vote firstBallot)),
  .act "b" ⟨20, 10⟩ (.handle "a" (.vote firstBallot)),
  .act "b" ⟨20, 10⟩ (.handle "c" (.vote rivalBallot)),
  .act "a" ⟨20, 10⟩ (.take "b" (.vote firstBallot) (.vote ⟨1, true⟩)),
  .act "a" ⟨20, 10⟩ (.take "c" (.vote firstBallot) (.vote ⟨1, false⟩)),
  .act "c" ⟨20, 10⟩ (.take "b" (.vote rivalBallot) (.vote ⟨1, false⟩))]

end Handover

variable {K : Cluster} {events : List Event} {chronicle : Nat → Chronicle} {i j k N : Nat}
  {a b : NodeId} {x y : Node}

theorem Chronicle.Chronicled.leader (hc : Chronicled K events chronicle)
    (hx : (K.moment events j).node? a = some x) (hleads : x.role.isLeader = true) (hN : j ≤ N)
    : (chronicle N).leader x.term = some a := by
  have hm := hc.mirror hx
  apply (hc.later hN).leader
  rw [show x.term = (chronicle j).term a from hm.term]
  exact hm.leads hleads

/-- At most one member ever leads in a term. -/
theorem leader_unique (K : Cluster) (events : List Event) (j k : Nat) {a b : NodeId} {x y : Node}
    (hx : (K.moment events j).node? a = some x) (hy : (K.moment events k).node? b = some y)
    (hxl : x.role.isLeader = true) (hyl : y.role.isLeader = true) (hterm : x.term = y.term)
    : a = b := by
  obtain ⟨chronicle, hc⟩ := exists_chronicled K events
  have ha := hc.leader hx hxl (Nat.le_max_left j k)
  have hb := hc.leader hy hyl (Nat.le_max_right j k)
  rw [hterm, hb] at ha
  cases ha
  rfl

theorem leader_unique_rivalry
    : ∃ x y z, (Handover.members.moment Handover.rivalry 9).node? "a" = some x ∧
        (Handover.members.moment Handover.rivalry 11).node? "a" = some y ∧
        (Handover.members.moment Handover.rivalry 11).node? "c" = some z ∧
        x.role.isLeader = true ∧ y.role.isLeader = true ∧ x.term = 1 ∧ y.term = 1 ∧
        z.role = .candidate ["c"] ∧ z.term = 1 ∧ "a" = "a" := by
  have hxm : ((Handover.members.moment Handover.rivalry 9).node? "a").map
      (fun x => (x.role.isLeader, x.term)) = some (true, 1) := by
    decide +kernel
  obtain ⟨x, hx, hxr⟩ := Option.map_eq_some_iff.1 hxm
  have hym : ((Handover.members.moment Handover.rivalry 11).node? "a").map
      (fun x => (x.role.isLeader, x.term)) = some (true, 1) := by
    decide +kernel
  obtain ⟨y, hy, hyr⟩ := Option.map_eq_some_iff.1 hym
  have hzm : ((Handover.members.moment Handover.rivalry 11).node? "c").map
      (fun x => (x.role, x.term)) = some (.candidate ["c"], 1) := by
    decide +kernel
  obtain ⟨z, hz, hzr⟩ := Option.map_eq_some_iff.1 hzm
  obtain ⟨hxl, hxt⟩ := Prod.mk.inj hxr
  obtain ⟨hyl, hyt⟩ := Prod.mk.inj hyr
  obtain ⟨hzc, hzt⟩ := Prod.mk.inj hzr
  exact ⟨x, y, z, hx, hy, hz, hxl, hyl, hxt, hyt, hzc, hzt,
    leader_unique _ _ 9 11 hx hy hxl hyl (hxt.trans hyt.symm)⟩

theorem Chronicle.Chronicled.applied (hc : Chronicled K events chronicle)
    (hx : (K.moment events j).node? a = some x) (hN : j ≤ N)
    : ∃ h t, h.length = x.lastApplied ∧ Settled K.ids (chronicle N) t h ∧
        History.replay h = .ok x.map := by
  have hm := hc.mirror hx
  have happlied := hm.applied
  have hcommitted := hm.committed
  refine ⟨((chronicle j).held a).take x.lastApplied, (chronicle j).term a, ?_, ?_, hm.map⟩
  . rw [List.length_take]
    omega
  . apply (hm.settled.of_isPrefix _).mono (hc.lawful j) (hc.later hN)
    exact List.take_prefix_take_left happlied

/-- Nodes that have applied entries up to the same index have the same map. -/
theorem map_eq_of_lastApplied_eq (K : Cluster) (events : List Event) (j k : Nat) {a b : NodeId}
    {x y : Node} (hx : (K.moment events j).node? a = some x)
    (hy : (K.moment events k).node? b = some y) (happlied : x.lastApplied = y.lastApplied)
    : x.map = y.map := by
  obtain ⟨chronicle, hc⟩ := exists_chronicled K events
  obtain ⟨h, t, hlength, hsettled, hreplay⟩ := hc.applied hx (Nat.le_max_left j k)
  obtain ⟨h', t', hlength', hsettled', hreplay'⟩ := hc.applied hy (Nat.le_max_right j k)
  have heq : h = h' := by
    apply hsettled.eq_of_length hsettled' (hc.lawful _)
    omega
  rw [heq, hreplay'] at hreplay
  exact (Except.ok.inj hreplay).symm

theorem map_eq_after_snapshot
    : ∃ x y, (Handover.members.moment Handover.events 12).node? "b" = some x ∧
        (Handover.members.moment Handover.events 16).node? "c" = some y ∧
        x.lastApplied = 2 ∧ y.lastApplied = 2 ∧ x.map = y.map := by
  have hxm : ((Handover.members.moment Handover.events 12).node? "b").map (·.lastApplied)
      = some 2 := by
    decide +kernel
  obtain ⟨x, hx, hxa⟩ := Option.map_eq_some_iff.1 hxm
  have hym : ((Handover.members.moment Handover.events 16).node? "c").map (·.lastApplied)
      = some 2 := by
    decide +kernel
  obtain ⟨y, hy, hya⟩ := Option.map_eq_some_iff.1 hym
  exact ⟨x, y, hx, hy, hxa, hya,
    map_eq_of_lastApplied_eq _ _ 12 16 hx hy (hxa.trans hya.symm)⟩

/-- Each entry of a history is in the log of a node or behind its snapshot, which then holds the map that
such entries lead to. -/
structure Node.Includes (node : Node) (h : History) : Prop where
  logged : ∀ (k : Nat) (hk : k < h.length), node.log.snapshotIndex ≤ k →
    node.log.get? (k + 1) = some h[k]
  covered : 0 < node.log.snapshotIndex →
    ∃ g term map, g.length = node.log.snapshotIndex ∧ (g <+: h ∨ h <+: g) ∧
      History.replay g = .ok map ∧
      node.log.disk.content? LogStore.snapshotName
        = some (Snapshot.encode ⟨node.log.snapshotIndex, term, map.encode⟩)

theorem Chronicle.Mirror.includes {c : Chronicle} {h : History} (hm : Mirror K c a x)
    (hp : h <+: c.held a)
    : x.Includes h where
  logged k hk hcovered := by
    have := hp.length_le
    rw [hm.shows.get? (by omega), Nat.add_sub_cancel, List.getElem?_eq_getElem (by omega)]
    rw [hp.getElem]
  covered hpos := by
    obtain ⟨snapshot, hi, hk⟩ := hm.files
    have hreach : x.log.snapshotIndex = Snapshot.reach snapshot := hi.snapshotIndex
    cases hs : snapshot with
    | none =>
      rw [hreach, hs] at hpos
      cases hpos
    | some s =>
      have hindex : x.log.snapshotIndex = s.index := by
        rw [hreach, hs]
        rfl
      obtain ⟨map, hreplay, hdata⟩ := (hk.captures s hs).data
      have hcovered := hk.covered
      rw [← hreach, hindex] at hcovered
      refine ⟨(c.held a).take s.index, s.term, map, ?_, ?_, hreplay, ?_⟩
      . rw [hindex, List.length_take]
        omega
      . exact List.prefix_or_prefix_of_prefix (List.take_prefix _ _) hp
      . obtain ⟨id, hfile⟩ : x.log.disk.Holds LogStore.snapshotName (some s.encode) := by
          have := hi.stores.snapshotFile
          rwa [hs] at this
        unfold Volume.content?
        rw [hfile, hindex, ← hdata]

theorem Chronicle.Settled.isPrefix_opening {ids : List NodeId} {c : Chronicle} {t u : Nat}
    {h : History} (hs : Settled ids c t h) (hc : c.Lawful ids) (hlt : t < u) (hl : c.leader u ≠ none)
    : h <+: c.opening u := by
  rcases hs with rfl | ⟨v, i, hv, hcom, hlog⟩
  . simp
  . exact hlog.trans (hcom.isPrefix_opening hc (by omega) hl)

/-- What a leader, or any other member, has committed by a term, every leader of a later term has. -/
theorem committed_in_later_leaders (K : Cluster) (events : List Event) (j i : Nat) {a : NodeId}
    {x : Node} (hx : (K.moment events j).node? a = some x) (hi : i ≤ x.commitIndex)
    : ∃ h : History, h.length = i ∧ x.Includes h ∧
        ∀ k b y, (K.moment events k).node? b = some y → y.role.isLeader = true → x.term < y.term →
          y.Includes h := by
  obtain ⟨chronicle, hc⟩ := exists_chronicled K events
  have hm := hc.mirror hx
  have hcommitted := hm.committed
  refine ⟨((chronicle j).held a).take i, ?_, hm.includes (List.take_prefix _ _), ?_⟩
  . rw [List.length_take]
    omega
  . intro k b y hy hyl hlt
    have hm' := hc.mirror hy
    have hterm : x.term = (chronicle j).term a := hm.term
    have hterm' : y.term = (chronicle k).term b := hm'.term
    have hleader := hm'.leads hyl
    have hj := hc.later (Nat.le_max_left j k)
    have hk := hc.later (Nat.le_max_right j k)
    have hsettled := (hm.settled.of_isPrefix (List.take_prefix_take_left hi)).mono (hc.lawful j) hj
    have hled : (chronicle k).leader y.term ≠ none := by
      rw [hterm', hleader]
      simp
    have hopening := hsettled.isPrefix_opening (hc.lawful _) (hterm ▸ hlt) (hk.leader_ne hled)
    rw [hk.opening _ hled] at hopening
    apply hm'.includes
    rw [hm'.held_eq_log hleader, ← hterm']
    exact hopening.trans ((hc.lawful k).opening_isPrefix _)

theorem committed_in_next_leader
    : ∃ (h : History) (x y : Node),
        (Handover.members.moment Handover.events 10).node? "a" = some x ∧
        (Handover.members.moment Handover.events 19).node? "b" = some y ∧
        2 ≤ x.commitIndex ∧ y.role.isLeader = true ∧ x.term < y.term ∧
        h.length = 2 ∧ x.Includes h ∧ y.Includes h := by
  have hxm : ((Handover.members.moment Handover.events 10).node? "a").map
      (fun x => (x.commitIndex, x.term)) = some (2, 1) := by
    decide +kernel
  obtain ⟨x, hx, hxc⟩ := Option.map_eq_some_iff.1 hxm
  have hym : ((Handover.members.moment Handover.events 19).node? "b").map
      (fun y => (y.role.isLeader, y.term)) = some (true, 2) := by
    decide +kernel
  obtain ⟨y, hy, hyl⟩ := Option.map_eq_some_iff.1 hym
  obtain ⟨hcommit, hxt⟩ := Prod.mk.inj hxc
  obtain ⟨hleads, hyt⟩ := Prod.mk.inj hyl
  have hi : 2 ≤ x.commitIndex := by omega
  have hlt : x.term < y.term := by omega
  obtain ⟨h, hlength, hxh, hlater⟩ :=
    committed_in_later_leaders Handover.members Handover.events 10 2 hx hi
  exact ⟨h, x, y, hx, hy, hi, hleads, hlt, hlength, hxh, hlater 19 "b" y hy hleads hlt⟩

end ReplicatedStore
