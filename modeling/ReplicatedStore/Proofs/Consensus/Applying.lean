import ReplicatedStore.Proofs.Consensus.Majority
import ReplicatedStore.Proofs.Consensus.Outcomes

/-!
Applying what is committed, and putting it into snapshots: the map stays the one that the applied
entries lead to.
-/

namespace ReplicatedStore

namespace LogStore

variable {log : LogStore} {snapshot : Option Snapshot} {hard : HardState} {h : History} {i t : Nat}

theorem Intact.snapshotIndex_lt (hi : log.Intact snapshot hard) : log.snapshotIndex < 2 ^ 64 := by
  rw [hi.snapshotIndex]
  cases hs : snapshot with
  | none => simp
  | some s => exact (hi.stores.snapshotFits s hs).index

theorem Intact.snapshotTerm_lt (hi : log.Intact snapshot hard) : log.snapshotTerm < 2 ^ 64 := by
  rw [hi.snapshotTerm]
  cases hs : snapshot with
  | none => simp
  | some s => exact (hi.stores.snapshotFits s hs).term

theorem Intact.lastIndex_lt (hi : log.Intact snapshot hard) : log.lastIndex < 2 ^ 64 := by
  unfold lastIndex
  cases hlast : log.entries.getLast? with
  | none => exact hi.snapshotIndex_lt
  | some e => exact (hi.stores.entriesFit e (List.mem_of_getLast? hlast)).index

theorem Intact.termAt?_lt (hi : log.Intact snapshot hard) (ht : log.termAt? i = some t)
    : t < 2 ^ 64 := by
  unfold LogStore.termAt? at ht
  split at ht
  . cases ht
    decide
  . split at ht
    . cases ht
      exact hi.snapshotTerm_lt
    . obtain ⟨e, he, rfl⟩ := Option.map_eq_some_iff.1 ht
      unfold LogStore.get? at he
      split at he
      . cases he
      . exact (hi.stores.entriesFit e (List.mem_of_getElem? he)).term

theorem Shows.retained (hs : log.Shows h) (hle : log.snapshotIndex ≤ i)
    (ht : log.termAt? i = some t)
    : log.retained i t = h.drop i := by
  rw [retained_eq t hs.follows hle, if_pos ht, hs.entries, List.drop_drop]
  congr 1
  omega

end LogStore

namespace Chronicle

variable {K : Cluster} {c : Chronicle} {n : NodeId} {node : Node} {clock : Clock}
  {excepted : Nat → Prop}

theorem Mirror.compacted {term : Nat} (hm : Mirror K c n node)
    (ht : node.log.termAt? node.lastApplied = some term)
    : ∃ log, LogStore.putSnapshot node.lastApplied term node.map.encode node.log = .ok () log ∧
        Mirror K c n { node with log } := by
  obtain ⟨snapshot, hi, hk⟩ := hm.files
  obtain ⟨hle, hterm⟩ := hm.shows.of_termAt? ht
  have hfit : Snapshot.Fits ⟨node.lastApplied, term, node.map.encode⟩ := {
    index := by
      have := hi.lastIndex_lt
      rw [hm.lastIndex] at this
      exact Nat.lt_of_le_of_lt hle this
    term := hi.termAt?_lt ht }
  obtain ⟨log, hput, hi', hentries⟩ := hi.putSnapshot hm.covered hfit
  have hindex : log.snapshotIndex = node.lastApplied := hi'.snapshotIndex
  refine ⟨log, hput, ?_⟩
  exact { hm with
    files := by
      refine ⟨_, hi', ?_⟩
      exact {
        covered := hle
        entries := by
          dsimp only
          rw [hentries, hm.shows.retained hm.covered ht]
          rfl
        captures := by
          intro s hs
          cases hs
          exact ⟨hterm.symm, _, hm.map, rfl⟩
        settled := hm.settled.of_isPrefix (List.take_prefix_take_left hm.applied) }
    covered := Nat.le_of_eq hindex }

theorem Mirror.compact (hm : Mirror K c n node)
    : Reaches K n c (Told K excepted node) (fun _ _ _ => True)
        (NodeM.compact clock node) := by
  unfold NodeM.compact
  rw [NodeM.bind_get]
  split
  . exact .of_mirror hm (.of_eq rfl) trivial
  . cases ht : node.log.termAt? node.lastApplied with
    | none => exact .of_mirror hm (.of_eq rfl) trivial
    | some term =>
      obtain ⟨log, hput, hm'⟩ := hm.compacted ht
      dsimp only
      rw [NodeM.bind_of_ok (NodeM.attempt_ok (NodeM.onLog_ok hput))]
      exact .of_mirror hm' (.of_eq rfl) trivial

theorem Mirror.applied_succ {map : KeyMap} {entry : LogEntry} (hm : Mirror K c n node)
    (hlt : node.lastApplied < node.commitIndex)
    (hget : node.log.get? (node.lastApplied + 1) = some entry)
    (hchange : NodeM.change entry node.map = .ok map)
    : Mirror K c n { node with map, lastApplied := node.lastApplied + 1 } ∧
        History.lastTerm ((c.held n).take (node.lastApplied + 1)) = entry.term := by
  have hcovered := hm.covered
  have hcommitted := hm.committed
  have hlength : node.lastApplied < (c.held n).length := by omega
  rw [hm.shows.get? (by omega), Nat.add_sub_cancel, List.getElem?_eq_getElem hlength] at hget
  cases hget
  constructor
  . exact { hm with
      covered := Nat.le_succ_of_le hm.covered
      applied := hlt
      map := by
        dsimp only
        rw [History.replay_take_succ hlength hm.map]
        exact hchange }
  . rw [History.lastTerm_take hlength, History.termAt_succ hlength]

theorem Mirror.applyNext {count : Nat} (hm : Mirror K c n node)
    (hcount : node.lastApplied + count ≤ node.commitIndex)
    : Reaches K n c (Told K excepted node) (fun _ _ _ => True)
        (NodeM.applyNext count clock node) := by
  -- the induction is on the number of entries to apply; the client of each one is told before the
  -- next
  induction count generalizing node with
  | zero => exact .of_mirror hm (.of_eq rfl) trivial
  | succ count ih =>
    have hhalted : Mirror K c n { node with halted := true } := { hm with }
    unfold NodeM.applyNext
    rw [NodeM.bind_get]
    cases hget : node.log.get? (node.lastApplied + 1) with
    | none => exact .of_mirror hhalted (.of_eq rfl) trivial
    | some entry =>
      dsimp only
      cases hchange : NodeM.change entry node.map with
      | error e => exact .of_mirror hhalted (.of_eq rfl) trivial
      | ok map =>
        dsimp only
        rw [NodeM.bind_modify]
        obtain ⟨hm', hterm⟩ := hm.applied_succ (by omega) hget hchange
        have hs : Settled K.ids c (c.term n) ((c.held n).take (node.lastApplied + 1)) :=
          hm'.settled.of_isPrefix (List.take_prefix_take_left hm'.applied)
        have hlength : ((c.held n).take (node.lastApplied + 1)).length = node.lastApplied + 1 := by
          have := hm'.applied
          have := hm'.committed
          rw [List.length_take]
          dsimp only at *
          omega
        obtain ⟨pending, settled, hresolve, htold⟩ := Told.resolve excepted clock
          { node with map, lastApplied := node.lastApplied + 1 } hs hlength hterm (Nat.le_refl _)
        rw [NodeM.bind_of_ok hresolve]
        have hm'' : Mirror K c n { node with
          map
          lastApplied := node.lastApplied + 1
          pending
          settled } := { hm' with }
        have htold' : Told K excepted node { node with
          map
          lastApplied := node.lastApplied + 1
          pending
          settled } c := { htold with
            applied := Nat.le_succ _
            announced := Nat.le_succ_of_le }
        exact (ih hm'' (by dsimp only; omega)).since htold' hm.lawful

theorem Mirror.applyBacklog (hm : Mirror K c n node)
    : Reaches K n c (Told K excepted node) (fun _ _ _ => True)
        (NodeM.applyBacklog clock node) := by
  unfold NodeM.applyBacklog
  rw [NodeM.bind_get]
  split
  . exact .of_mirror hm (.of_eq rfl) trivial
  . have := hm.applied
    apply (hm.applyNext (by omega)).bind
    intro done node' c' hev hm' htold _
    split
    . rw [NodeM.bind_modify]
      have hm'' : Mirror K c' n { node' with announced := node'.lastApplied } := { hm' with }
      have htold' : Told K excepted node { node' with announced := node'.lastApplied } c' :=
        { htold with announced := fun _ => Nat.le_refl _ }
      exact hm''.compact.since htold' hm'.lawful
    . exact .of_mirror hm' htold trivial

theorem Mirror.commitThrough {i : Nat} (hm : Mirror K c n node)
    (hs : Settled K.ids c (c.term n) ((c.held n).take i)) (hi : i ≤ (c.held n).length)
    : Reaches K n c (Told K excepted node) (fun _ _ _ => True)
        (NodeM.commitThrough i clock node) := by
  unfold NodeM.commitThrough
  rw [NodeM.bind_get]
  split
  . next hlt =>
    rw [NodeM.bind_modify]
    have hm' : Mirror K c n { node with commitIndex := i } := { hm with
      applied := by
        have := hm.applied
        dsimp only
        omega
      committed := hi
      settled := hs }
    exact hm'.applyBacklog.since (.of_eq rfl) hm.lawful
  . exact .of_mirror hm (.of_eq rfl) trivial

theorem Mirror.commitByMajority (hm : Mirror K c n node)
    : Reaches K n c (Told K excepted node) (fun _ _ _ => True)
        (NodeM.commitByMajority clock node) := by
  unfold NodeM.commitByMajority
  rw [NodeM.bind_get]
  cases hrole : node.role with
  | follower => exact .of_mirror hm (.of_eq rfl) trivial
  | candidate _ => exact .of_mirror hm (.of_eq rfl) trivial
  | leader leadership =>
    have hplays := hm.plays
    rw [hrole] at hplays
    have hheld := hm.held_eq_log hplays.1
    -- the leader counts itself, so its own confirmation goes first
    obtain ⟨hstep, hm'⟩ := hm.confirm (i := (c.held n).length) (by simp [hplays.1])
      (Nat.le_of_eq (by rw [hheld])) (by rw [← hheld]; exact List.take_prefix _ _)
    have hown : (c.held n).length ≤ (c.confirm n (c.held n).length).acked n (c.term n) := by
      simp only [Chronicle.confirm, Function.update_self]
      exact Nat.le_max_right _ _
    apply Reaches.before (.single hstep)
    rw [if_pos (show (Role.leader leadership).isLeader = true from rfl)]
    split
    . next hterm =>
      by_cases hpos : 0 < NodeM.majorityIndex node
      . have hcom := hm'.committed_majorityIndex hrole hown hpos hterm
        have hle := (hm'.shows.of_termAt? hterm).1
        apply hm'.commitThrough _ hle
        refine .inr ⟨_, _, Nat.le_refl _, hcom, ?_⟩
        simp only [← hm'.held_eq_log hplays.1, List.prefix_rfl]
      . rw [Nat.eq_zero_of_not_pos hpos]
        apply hm'.commitThrough _ (Nat.zero_le _)
        exact settled_nil _ _ _
    . exact .of_mirror hm' (.of_eq rfl) trivial

end Chronicle

end ReplicatedStore
