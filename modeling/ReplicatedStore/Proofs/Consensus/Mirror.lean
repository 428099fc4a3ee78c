import ReplicatedStore.Proofs.Chronicle.Completeness
import ReplicatedStore.Proofs.Consensus.View
import ReplicatedStore.Proofs.Runs.Deployment
import ReplicatedStore.Proofs.Storage.Opening

/-!
A node beside the chronicle of its cluster: what its memory and its files say of the member that the
chronicle tells of.
-/

namespace ReplicatedStore

def Snapshot.reach (snapshot : Option Snapshot) : Nat :=
  (snapshot.map (·.index)).getD 0

structure Snapshot.Captures (snapshot : Snapshot) (h : History) : Prop where
  term : snapshot.term = h.termAt snapshot.index
  data : ∃ map, History.replay (h.take snapshot.index) = .ok map ∧ snapshot.data = map.encode

namespace Chronicle

structure Kept (K : Cluster) (c : Chronicle) (n : NodeId) (snapshot : Option Snapshot)
    (entries : List LogEntry) : Prop where
  covered : Snapshot.reach snapshot ≤ (c.held n).length
  entries : entries = (c.held n).drop (Snapshot.reach snapshot)
  captures : ∀ s ∈ snapshot, s.Captures (c.held n)
  settled : Settled K.ids c (c.term n) ((c.held n).take (Snapshot.reach snapshot))

structure Stored (K : Cluster) (c : Chronicle) (n : NodeId) (disk : Volume) : Prop where
  files : ∃ snapshot entries, disk.Stores entries snapshot ⟨c.term n, c.vote n (c.term n)⟩ ∧
    Kept K c n snapshot entries

def Plays (K : Cluster) (c : Chronicle) (n : NodeId) : Role → Prop
  | .follower => True
  | .candidate votes =>
    c.ballot (c.term n) n = c.held n ∧ c.leader (c.term n) ≠ some n ∧ votes.Nodup ∧ votes ⊆ K.ids ∧
      c.vote n (c.term n) = some n ∧ ∀ id ∈ votes, c.vote id (c.term n) = some n
  | .leader leadership =>
    c.leader (c.term n) = some n ∧ leadership.peers.map (·.1) = K.others n ∧
      ∀ p ∈ leadership.peers, p.2.matched ≤ c.acked p.1 (c.term n)

/-- A running node is where the chronicle says that the member is. -/
structure Mirror (K : Cluster) (c : Chronicle) (n : NodeId) (node : Node) : Prop where
  lawful : c.Lawful K.ids
  member : n ∈ K.ids
  id : node.id = n
  peers : node.peers = K.others n
  term : node.hard.term = c.term n
  voted : node.hard.votedFor = c.vote n (c.term n)
  files : ∃ snapshot, node.log.Intact snapshot node.hard ∧ Kept K c n snapshot node.log.entries
  covered : node.log.snapshotIndex ≤ node.lastApplied
  applied : node.lastApplied ≤ node.commitIndex
  committed : node.commitIndex ≤ (c.held n).length
  map : History.replay ((c.held n).take node.lastApplied) = .ok node.map
  settled : Settled K.ids c (c.term n) ((c.held n).take node.commitIndex)
  plays : Plays K c n node.role

variable {K : Cluster} {c c' : Chronicle} {n m : NodeId} {node : Node} {snapshot : Option Snapshot}
  {entries : List LogEntry}

theorem Kept.mono (hk : Kept K c n snapshot entries) (hc : c.Lawful K.ids) (he : c.Extends c')
    (hheld : c'.held n = c.held n)
    : Kept K c' n snapshot entries where
  covered := by
    rw [hheld]
    exact hk.covered
  entries := by
    rw [hheld]
    exact hk.entries
  captures := by
    rw [hheld]
    exact hk.captures
  settled := by
    rw [hheld]
    exact (hk.settled.mono hc he).later (he.term n)

theorem Kept.shows {log : LogStore} {hard : HardState} (hk : Kept K c n snapshot log.entries)
    (hc : c.Lawful K.ids) (hi : log.Intact snapshot hard)
    : log.Shows (c.held n) where
  numbered := (hc.held_sound n).numbered
  covered := by
    rw [hi.snapshotIndex]
    exact hk.covered
  entries := by
    rw [hi.snapshotIndex]
    exact hk.entries
  term := by
    rw [hi.snapshotIndex, hi.snapshotTerm]
    cases hs : snapshot with
    | none => rfl
    | some s => exact (hk.captures s hs).term

namespace Mirror

theorem shows (hm : Mirror K c n node) : node.log.Shows (c.held n) := by
  obtain ⟨snapshot, hi, hk⟩ := hm.files
  exact hk.shows hm.lawful hi

theorem lastIndex (hm : Mirror K c n node) : node.log.lastIndex = (c.held n).length :=
  hm.shows.lastIndex

theorem term_lt (hm : Mirror K c n node) : node.hard.term < 2 ^ 64 := by
  obtain ⟨snapshot, hi, hk⟩ := hm.files
  exact hi.stores.hardFits.term

theorem stored (hm : Mirror K c n node) : Stored K c n node.log.disk where
  files := by
    obtain ⟨snapshot, hi, hk⟩ := hm.files
    refine ⟨snapshot, node.log.entries, ?_, hk⟩
    rw [← hm.voted, ← hm.term]
    exact hi.stores

theorem held_eq_log (hm : Mirror K c n node) (hl : c.leader (c.term n) = some n)
    : c.held n = c.log (c.term n) :=
  hm.lawful.leader_held _ _ hl rfl

theorem take_isPrefix_log (hm : Mirror K c n node) {i t : Nat} (hi : i ≤ node.commitIndex)
    (ht : c.term n ≤ t) (hl : c.leader t ≠ none)
    : (c.held n).take i <+: c.log t := by
  have hs := hm.settled.isPrefix_log hm.lawful ht hl
  exact (List.take_prefix_take_left hi).trans hs

end Mirror

theorem Stored.crash {disk : Volume} (hs : Stored K c n disk) : Stored K c n disk.crash where
  files := by
    obtain ⟨snapshot, entries, hstores, hk⟩ := hs.files
    exact ⟨snapshot, entries, hstores.crash, hk⟩

theorem Stored.mono {disk : Volume} (hs : Stored K c m disk) (hc : c.Lawful K.ids)
    (he : c.Extends c') (hleaves : Leaves n c c') (hne : m ≠ n)
    : Stored K c' m disk where
  files := by
    obtain ⟨snapshot, entries, hstores, hk⟩ := hs.files
    refine ⟨snapshot, entries, ?_, hk.mono hc he (hleaves.held m hne)⟩
    rw [hleaves.term m hne, hleaves.vote m hne]
    exact hstores

theorem Plays.carry {role : Role} (hp : Plays K c n role) (he : c.Extends c')
    (hterm : c'.term n = c.term n) (hheld : c'.held n = c.held n)
    (hleader : ∀ t, c'.leader t = some n → c.leader t = some n)
    : Plays K c' n role := by
  cases role with
  | follower => trivial
  | candidate votes =>
    obtain ⟨hballot, hleader', hnodup, hsub, hown, hvotes⟩ := hp
    unfold Plays
    rw [hterm, hheld]
    refine ⟨?_, ?_, hnodup, hsub, ?_, ?_⟩
    . rw [he.ballot _ _ hown, hballot]
    . intro hl
      exact hleader' (hleader _ hl)
    . exact he.vote _ _ _ hown
    . intro id hid
      exact he.vote _ _ _ (hvotes id hid)
  | leader leadership =>
    obtain ⟨hleader', hpeers, hmatched⟩ := hp
    unfold Plays
    rw [hterm]
    refine ⟨he.leader _ _ hleader', hpeers, ?_⟩
    intro p hp
    exact Nat.le_trans (hmatched p hp) (he.acked _ _)

theorem Mirror.saved {snapshot : Option Snapshot} {hard : HardState} {role : Role} {disk : Volume}
    (hm : Mirror K c n node) (hc : c'.Lawful K.ids) (he : c.Extends c')
    (hheld : c'.held n = c.held n) (hi : { node.log with disk }.Intact snapshot hard)
    (hk : Kept K c n snapshot node.log.entries) (hterm : hard.term = c'.term n)
    (hvote : hard.votedFor = c'.vote n (c'.term n)) (hplays : Plays K c' n role)
    : Mirror K c' n { node with log := { node.log with disk }, hard, role } where
  lawful := hc
  member := hm.member
  id := hm.id
  peers := hm.peers
  term := hterm
  voted := hvote
  files := ⟨snapshot, hi, hk.mono hm.lawful he hheld⟩
  covered := hm.covered
  applied := hm.applied
  committed := by
    rw [hheld]
    exact hm.committed
  map := by
    rw [hheld]
    exact hm.map
  settled := by
    rw [hheld]
    exact (hm.settled.mono hm.lawful he).later (he.term n)
  plays := hplays

theorem Mirror.carry (hm : Mirror K c n node) (hc : c'.Lawful K.ids) (he : c.Extends c')
    (hterm : c'.term n = c.term n) (hheld : c'.held n = c.held n) (hvote : c'.vote n = c.vote n)
    (hplays : Plays K c' n node.role)
    : Mirror K c' n node := by
  obtain ⟨snapshot, hi, hk⟩ := hm.files
  apply hm.saved hc he hheld hi hk
  . rw [hterm]
    exact hm.term
  . rw [hterm, hvote]
    exact hm.voted
  . exact hplays

theorem Mirror.mono (hm : Mirror K c m node) (hev : Evolves K.ids n c c') (hne : m ≠ n)
    : Mirror K c' m node := by
  have hleaves := hev.leaves
  have he := hev.extends hm.lawful
  have hterm := hleaves.term m hne
  have hheld := hleaves.held m hne
  apply hm.carry (hev.lawful hm.lawful) he hterm hheld (hleaves.vote m hne)
  apply hm.plays.carry he hterm hheld
  intro t
  exact hleaves.leader t m hne

theorem Mirror.confirm {i : Nat} (hm : Mirror K c n node) (hl : c.leader (c.term n) ≠ none)
    (hi : i ≤ (c.log (c.term n)).length) (hp : (c.log (c.term n)).take i <+: c.held n)
    : Step K.ids n c (c.confirm n i) ∧ Mirror K (c.confirm n i) n node := by
  have hstep : Step K.ids n c (c.confirm n i) := .confirm i hl hi hp
  have he := hstep.extends hm.lawful
  refine ⟨hstep, hm.carry (hstep.lawful hm.lawful) he rfl rfl rfl ?_⟩
  exact hm.plays.carry he rfl rfl (fun _ h => h)

end Chronicle

end ReplicatedStore
