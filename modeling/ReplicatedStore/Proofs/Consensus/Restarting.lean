import ReplicatedStore.Proofs.Consensus.Outcomes
import ReplicatedStore.Proofs.KeySpace.KeyMap

/-!
Stopping a node, and opening the directory of a member that is not running.
-/

namespace ReplicatedStore

namespace Chronicle

variable {K : Cluster} {c : Chronicle} {n : NodeId} {node : Node} {clock : Clock}
  {excepted : Nat → Prop}

theorem Mirror.stop (hm : Mirror K c n node)
    : Reaches K n c (Told K excepted node) (fun _ _ _ => True) (NodeM.stop clock node) := by
  rw [NodeM.stop_eq]
  refine .of_mirror { hm with plays := trivial } ?_ trivial
  apply Told.of_indefinite
  . rfl
  . exact List.filter_subset_self _
  . rfl
  . exact Nat.le_refl _
  . exact fun h => h
  . intro index hdefinite
    exact hdefinite

theorem Kept.startingMap {snapshot : Option Snapshot} {entries : List LogEntry}
    (hk : Kept K c n snapshot entries) (hshort : ∀ s ∈ snapshot, s.data.length < 2 ^ 64)
    : match snapshot with
      | none => History.replay ((c.held n).take (Snapshot.reach snapshot)) = .ok .empty
      | some s => ∃ map, KeyMap.decode s.data = .ok map ∧
          History.replay ((c.held n).take (Snapshot.reach snapshot)) = .ok map := by
  cases hs : snapshot with
  | none => rfl
  | some s =>
    obtain ⟨map, hreplay, hdata⟩ := (hk.captures s hs).data
    refine ⟨map, ?_, hreplay⟩
    have := hshort s hs
    rw [hdata] at this ⊢
    exact KeyMap.decode_encode (KeyMap.fits_of_length this)

theorem Kept.mirror {snapshot : Option Snapshot} {log : LogStore} {map : KeyMap}
    (config : ConsensusConfig) (hk : Kept K c n snapshot log.entries) (hc : c.Lawful K.ids) (hn : n ∈ K.ids)
    (hi : log.Intact snapshot ⟨c.term n, c.vote n (c.term n)⟩)
    (hmap : History.replay ((c.held n).take (Snapshot.reach snapshot)) = .ok map)
    : Mirror K c n {
        id := n
        peers := K.ids.filter (· ≠ n)
        config
        log
        hard := ⟨c.term n, c.vote n (c.term n)⟩
        commitIndex := log.snapshotIndex
        lastApplied := log.snapshotIndex
        announced := log.snapshotIndex
        electionDue := clock.now + clock.electionTimeout
        map } := by
  have hreach : log.snapshotIndex = Snapshot.reach snapshot := hi.snapshotIndex
  exact {
    lawful := hc
    member := hn
    id := rfl
    peers := rfl
    term := rfl
    voted := rfl
    files := ⟨snapshot, hi, hk⟩
    covered := Nat.le_refl _
    applied := Nat.le_refl _
    committed := by
      dsimp only
      rw [hreach]
      exact hk.covered
    map := by
      dsimp only
      rw [hreach]
      exact hmap
    settled := by
      dsimp only
      rw [hreach]
      exact hk.settled
    plays := trivial }

def Reopened (K : Cluster) (c : Chronicle) (n : NodeId) : EStateM.Result Error Volume Node → Prop
  | .ok node _ =>
    Mirror K c n node ∧ node.role = .follower ∧ node.pending = [] ∧ node.settled = [] ∧
      node.announced = node.lastApplied
  | .error _ disk => Stored K c n disk

theorem Stored.reopen {disk : Volume} {config : ConsensusConfig} (hs : Stored K c n disk)
    (hc : c.Lawful K.ids) (hn : n ∈ K.ids) (hpolicy : config.policy = .always)
    : Reopened K c n (Node.open n K.ids config clock disk) := by
  obtain ⟨snapshot, entries, hstores, hk⟩ := hs.files
  unfold Node.open
  rw [hpolicy]
  by_cases hshort : ∀ s ∈ snapshot, s.data.length < 2 ^ 64
  . obtain ⟨log, hopen, hi, hentries⟩ := LogStore.open_ok hstores hshort
    have hsnapshot := LogStore.readSnapshot_eq hi.stores
    rw [if_pos hshort] at hsnapshot
    rw [← hentries] at hk
    have hmap := hk.startingMap hshort
    rw [EStateM.bind_of_ok hopen]
    rw [EStateM.bind_of_ok (HardState.load_ok hi.stores.hardFits hi.stores.hardFile)]
    rw [EStateM.bind_of_ok hsnapshot]
    cases hs : snapshot with
    | none =>
      rw [hs] at hmap hk hi
      exact ⟨hk.mirror config hc hn hi hmap, rfl, rfl, rfl, rfl⟩
    | some s =>
      rw [hs] at hmap hk hi
      obtain ⟨map, hdecode, hreplay⟩ := hmap
      dsimp only
      rw [hdecode]
      exact ⟨hk.mirror config hc hn hi hreplay, rfl, rfl, rfl, rfl⟩
  . rw [EStateM.bind_of_error (LogStore.open_error _ hstores hshort)]
    exact hs

end Chronicle

end ReplicatedStore
