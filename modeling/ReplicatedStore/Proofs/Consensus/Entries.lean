import ReplicatedStore.Proofs.Consensus.Mirror

/-!
A node whose entries change: new ones come at the end, and uncommitted ones may go.
-/

namespace ReplicatedStore

namespace Chronicle

variable {K : Cluster} {c c' : Chronicle} {n : NodeId} {node : Node} {snapshot : Option Snapshot}
  {entries entries' : List LogEntry} {log : LogStore} {role : Role}

theorem Kept.revised (hk : Kept K c n snapshot entries) (hc : c.Lawful K.ids) (he : c.Extends c')
    (hle : Snapshot.reach snapshot ≤ (c'.held n).length)
    (htake : (c'.held n).take (Snapshot.reach snapshot) = (c.held n).take (Snapshot.reach snapshot))
    (hentries : entries' = (c'.held n).drop (Snapshot.reach snapshot))
    : Kept K c' n snapshot entries' where
  covered := hle
  entries := hentries
  captures := by
    intro s hs
    have hreach : Snapshot.reach snapshot = s.index := by
      rw [hs]
      rfl
    rw [hreach] at htake
    obtain ⟨hterm, hdata⟩ := hk.captures s hs
    constructor
    . rw [← History.termAt_take (Nat.le_refl _), htake, History.termAt_take (Nat.le_refl _)]
      exact hterm
    . rw [htake]
      exact hdata
  settled := by
    rw [htake]
    exact (hk.settled.mono hc he).later (he.term n)

theorem Mirror.revised (hm : Mirror K c n node) (hi : node.log.Intact snapshot node.hard)
    (hk : Kept K c n snapshot node.log.entries) (hc : c'.Lawful K.ids) (he : c.Extends c')
    (hterm : c'.term n = c.term n) (hvote : c'.vote n = c.vote n)
    (hlength : node.commitIndex ≤ (c'.held n).length)
    (htake : (c'.held n).take node.commitIndex = (c.held n).take node.commitIndex)
    (hi' : log.Intact snapshot node.hard)
    (hentries : log.entries = (c'.held n).drop (Snapshot.reach snapshot))
    (hplays : Plays K c' n role)
    : Mirror K c' n { node with log, role } := by
  have hreach : node.log.snapshotIndex = Snapshot.reach snapshot := hi.snapshotIndex
  have hcovered := hm.covered
  have happlied := hm.applied
  have hsame : ∀ i ≤ node.commitIndex, (c'.held n).take i = (c.held n).take i := by
    intro i hle
    have := congrArg (List.take i) htake
    rwa [List.take_take, List.take_take, Nat.min_eq_left hle] at this
  exact {
    lawful := hc
    member := hm.member
    id := hm.id
    peers := hm.peers
    term := by
      rw [hterm]
      exact hm.term
    voted := by
      rw [hterm, hvote]
      exact hm.voted
    files := by
      refine ⟨snapshot, hi', ?_⟩
      apply hk.revised hm.lawful he
      . omega
      . exact hsame _ (by omega)
      . exact hentries
    covered := by
      rw [show log.snapshotIndex = node.log.snapshotIndex by rw [hi'.snapshotIndex, hi.snapshotIndex]]
      exact hcovered
    applied := happlied
    committed := hlength
    map := by
      rw [hsame _ happlied]
      exact hm.map
    settled := by
      rw [htake, hterm]
      exact hm.settled.mono hm.lawful he
    plays := hplays }

theorem Mirror.appended (hm : Mirror K c n node) (hfollows : Follows (c.held n).length entries)
    (hfit : ∀ e ∈ entries, e.Fits)
    : ∃ log, LogStore.append entries node.log = .ok () log ∧
        ∀ c' role, c'.Lawful K.ids → c.Extends c' → c'.term n = c.term n → c'.vote n = c.vote n →
          c'.held n = c.held n ++ entries → Plays K c' n role →
          Mirror K c' n { node with log, role } := by
  obtain ⟨snapshot, hi, hk⟩ := hm.files
  rw [← hm.lastIndex] at hfollows
  obtain ⟨log, happend, hi', hentries⟩ := hi.append hfollows hfit
  refine ⟨log, happend, ?_⟩
  intro c' role hc he hterm hvote hheld hplays
  have hcommitted := hm.committed
  apply hm.revised hi hk hc he hterm hvote _ _ hi' _ hplays
  . rw [hheld, List.length_append]
    omega
  . rw [hheld, List.take_append_of_le_length hcommitted]
  . rw [hentries, hheld, hk.entries, List.drop_append_of_le_length hk.covered]

theorem Mirror.discarded {i : Nat} (hm : Mirror K c n node) (hlow : node.commitIndex ≤ i)
    (hhigh : i < (c.held n).length)
    : ∃ log, LogStore.discardFrom (i + 1) node.log = .ok () log ∧
        ∀ c' role, c'.Lawful K.ids → c.Extends c' → c'.term n = c.term n → c'.vote n = c.vote n →
          c'.held n = (c.held n).take i → Plays K c' n role →
          Mirror K c' n { node with log, role } := by
  obtain ⟨snapshot, hi, hk⟩ := hm.files
  have hcovered := hm.covered
  have happlied := hm.applied
  have hreach : node.log.snapshotIndex = Snapshot.reach snapshot := hi.snapshotIndex
  have hlast : i + 1 ≤ node.log.lastIndex := by
    rw [hm.lastIndex]
    exact hhigh
  obtain ⟨log, hdiscard, hi', hentries⟩ := hi.discardFrom (by omega) hlast
  refine ⟨log, hdiscard, ?_⟩
  intro c' role hc he hterm hvote hheld hplays
  apply hm.revised hi hk hc he hterm hvote _ _ hi' _ hplays
  . rw [hheld, List.length_take]
    omega
  . rw [hheld, List.take_take, Nat.min_eq_left hlow]
  . rw [hentries, hheld, hk.entries, ← hreach, List.drop_take]
    congr 1
    unfold LogStore.position
    omega

end Chronicle

end ReplicatedStore
