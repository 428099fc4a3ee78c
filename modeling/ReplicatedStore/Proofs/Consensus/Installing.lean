import ReplicatedStore.Proofs.Consensus.Following
import ReplicatedStore.Proofs.KeySpace.KeyMap

/-!
What a member makes of the snapshot of its leader: it takes the place of the entries up to its index, and
of later ones too, unless the entry at its index was the same.
-/

namespace ReplicatedStore

namespace Chronicle

variable {K : Cluster} {c c' : Chronicle} {n source : NodeId} {node : Node} {clock : Clock}
  {excepted : Nat → Prop} {q : SnapshotRequest} {i : Nat}

def installed (c : Chronicle) (n : NodeId) (q : SnapshotRequest) (node : Node) : History :=
  if node.log.termAt? q.index = some q.indexTerm then c.held n else (c.log (c.term n)).take q.index

theorem Mirror.installed_adopts (hm : Mirror K c n node) (hq : Ships K c source q)
    (hterm : c.term n = q.term) (hlow : node.log.snapshotIndex ≤ q.index)
    : History.Adopts (c.held n) (c.log (c.term n)) (installed c n q node) := by
  unfold installed
  split
  . exact .inl rfl
  . next hother =>
    refine .inr ⟨List.take_prefix _ _, ?_⟩
    intro p hheld hlog
    have hle : q.index ≤ (c.log (c.term n)).length := by
      rw [hterm]
      exact hq.index_le
    -- had they the entry at the index in common, the log would show its term
    have hshort : p.length ≤ q.index := by
      by_contra hlong
      have hlength := hheld.length_le
      apply hother
      rw [hm.shows.termAt? hlow (by omega)]
      rw [History.termAt_of_isPrefix hheld (by omega)]
      rw [← History.termAt_of_isPrefix hlog (by omega), hterm]
      exact congrArg some hq.captures.term.symm
    apply List.prefix_of_prefix_length_le hlog (List.take_prefix _ _)
    rw [List.length_take]
    omega

theorem Mirror.installed_take (hm : Mirror K c n node) (hq : Ships K c source q)
    (hterm : c.term n = q.term)
    : q.index ≤ (installed c n q node).length ∧
        (installed c n q node).take q.index = (c.log (c.term n)).take q.index := by
  have hle : q.index ≤ (c.log (c.term n)).length := by
    rw [hterm]
    exact hq.index_le
  unfold installed
  split
  . next hsame =>
    have ha : Agrees c n q.index := by
      apply hm.agrees_of_termAt hle
      rw [hsame, hterm]
      exact congrArg some hq.captures.term
    exact ⟨ha.le, ha.take_eq.symm⟩
  . constructor
    . rw [List.length_take]
      omega
    . rw [List.take_take, Nat.min_self]

theorem Mirror.installed_committed (hm : Mirror K c n node) (hq : Ships K c source q)
    (hterm : c.term n = q.term) (hlow : node.log.snapshotIndex ≤ q.index)
    (hle : q.index ≤ node.commitIndex)
    : installed c n q node = c.held n := by
  have hl : c.leader (c.term n) ≠ none := by
    rw [hterm, hq.leader]
    simp
  have ha := (hm.agrees hl).of_le hle
  unfold installed
  rw [if_pos]
  rw [hm.shows.termAt? hlow ha.le, ← History.termAt_take (Nat.le_refl q.index), ← ha.take_eq]
  rw [History.termAt_take (Nat.le_refl q.index), hterm]
  exact congrArg some hq.captures.term.symm

theorem Ships.replay {map : KeyMap} (hq : Ships K c source q)
    (hmap : KeyMap.decode q.data = .ok map)
    : History.replay ((c.log q.term).take q.index) = .ok map := by
  obtain ⟨map', hreplay, hdata⟩ := hq.captures.data
  dsimp only at hreplay hdata
  have hshort := hq.short
  rw [hdata] at hmap hshort
  rw [KeyMap.decode_encode (KeyMap.fits_of_length hshort)] at hmap
  cases hmap
  exact hreplay

theorem Mirror.installed_settled (hm : Mirror K c n node) (hq : Ships K c source q)
    (hterm : c.term n = q.term) (he : c.Extends c')
    : Settled K.ids c' (c.term n) ((installed c n q node).take q.index) := by
  obtain ⟨-, htake⟩ := hm.installed_take hq hterm
  rw [htake, hterm]
  exact hq.settled.mono hm.lawful he

theorem Mirror.kept_installed (hm : Mirror K c n node) (hq : Ships K c source q)
    (hterm : c.term n = q.term) (hlow : node.log.snapshotIndex ≤ q.index) (he : c.Extends c')
    (hterm' : c'.term n = c.term n) (hheld : c'.held n = installed c n q node)
    : Kept K c' n (some ⟨q.index, q.indexTerm, q.data⟩)
        (node.log.retained q.index q.indexTerm) := by
  obtain ⟨hle, htake⟩ := hm.installed_take hq hterm
  rw [hterm] at htake
  constructor
  case covered =>
    rw [hheld]
    exact hle
  case entries =>
    rw [hheld]
    unfold installed
    split
    . next hsame => exact hm.shows.retained hlow hsame
    . next hother =>
      unfold LogStore.retained
      rw [if_neg hother]
      simp [Snapshot.reach]
  case captures =>
    intro s hs
    cases hs
    rw [hheld]
    constructor
    . rw [← History.termAt_take (Nat.le_refl _), htake, History.termAt_take (Nat.le_refl _)]
      exact hq.captures.term
    . rw [htake]
      exact hq.captures.data
  case settled =>
    rw [hheld, hterm']
    exact hm.installed_settled hq hterm he

theorem Mirror.installs {map : KeyMap} (hm : Mirror K c n node) (hrole : node.role = .follower)
    (hq : Ships K c source q) (hterm : c.term n = q.term) (hnew : node.lastApplied < q.index)
    (hmap : KeyMap.decode q.data = .ok map)
    : ∃ log, LogStore.putSnapshot q.index q.indexTerm q.data node.log = .ok () log ∧
        Step K.ids n c (c.accept n (installed c n q node)) ∧
        Mirror K (c.accept n (installed c n q node)) n { node with
          log
          map
          commitIndex := max node.commitIndex q.index
          lastApplied := q.index } := by
  have hcovered := hm.covered
  have hlow : node.log.snapshotIndex ≤ q.index := by omega
  obtain ⟨snapshot, hi, hk⟩ := hm.files
  obtain ⟨log, hput, hi', hentries⟩ := hi.putSnapshot hlow hq.fits
  have hl : c.leader (c.term n) ≠ none := by
    rw [hterm, hq.leader]
    simp
  have hstep : Step K.ids n c (c.accept n (installed c n q node)) :=
    .accept _ hl (hm.installed_adopts hq hterm hlow)
  have he := hstep.extends hm.lawful
  have hheld : (c.accept n (installed c n q node)).held n = installed c n q node := by
    simp [Chronicle.accept]
  obtain ⟨hle, htake⟩ := hm.installed_take hq hterm
  refine ⟨log, hput, hstep, ?_⟩
  exact {
    lawful := hstep.lawful hm.lawful
    member := hm.member
    id := hm.id
    peers := hm.peers
    term := hm.term
    voted := hm.voted
    files := by
      refine ⟨_, hi', ?_⟩
      dsimp only
      rw [hentries]
      exact hm.kept_installed hq hterm hlow he rfl hheld
    covered := Nat.le_of_eq hi'.snapshotIndex
    applied := Nat.le_max_right _ _
    committed := by
      rw [hheld]
      -- a commit index beyond the snapshot stays where it is
      rcases Nat.le_total q.index node.commitIndex with hbehind | hahead
      . rw [Nat.max_eq_left hbehind, hm.installed_committed hq hterm hlow hbehind]
        exact hm.committed
      . rw [Nat.max_eq_right hahead]
        exact hle
    map := by
      rw [hheld, htake, hterm]
      exact hq.replay hmap
    settled := by
      rw [hheld]
      rcases Nat.le_total q.index node.commitIndex with hbehind | hahead
      . have hkept := hm.settled.mono hm.lawful he
        rw [← hm.installed_committed hq hterm hlow hbehind] at hkept
        rw [Nat.max_eq_left hbehind]
        exact hkept
      . rw [Nat.max_eq_right hahead]
        exact hm.installed_settled hq hterm he
    plays := by
      dsimp only
      rw [hrole]
      trivial }

theorem Mirror.agrees_applied (hm : Mirror K c n node) (hq : Ships K c source q)
    (hterm : c.term n = q.term) (hle : q.index ≤ node.lastApplied)
    : Agrees c n q.index := by
  have hl : c.leader (c.term n) ≠ none := by
    rw [hterm, hq.leader]
    simp
  exact (hm.agrees hl).of_le (Nat.le_trans hle hm.applied)

theorem Mirror.onSnapshotRequest (hm : Mirror K c n node) (hq : Ships K c source q)
    : Reaches K n c (Told K excepted node)
        (fun r _ c' => r.term < 2 ^ 64 ∧ (r.term ≤ q.term → q.index ≤ c'.acked n q.term))
        (NodeM.onSnapshotRequest q clock node) := by
  unfold NodeM.onSnapshotRequest
  apply hm.ensureRunning.bind
  rintro _ _ _ - - - ⟨rfl, rfl⟩
  rw [NodeM.bind_get]
  split
  . next hstale =>
    refine .of_mirror hm (.of_eq rfl) ⟨hm.term_lt, ?_⟩
    intro hle
    exact absurd hstale (Nat.not_lt.2 hle)
  . next hcurrent =>
    have hnode : node.term = c.term n := hm.term
    apply (hm.follow hq.term_lt (by omega) q.leader).bind
    rintro _ node₁ c₁ hev₁ hm₁ htold₁ ⟨hterm₁, hrole₁, -⟩
    have hq₁ := hq.mono hm.lawful (hev₁.extends hm.lawful)
    have hl₁ : c₁.leader (c₁.term n) ≠ none := by
      rw [hterm₁, hq₁.leader]
      simp
    apply Reaches.since _ htold₁ hm₁.lawful
    rw [NodeM.bind_get]
    split
    -- already applied: nothing is installed, and the index is acknowledged all the same
    . next hold =>
      obtain ⟨hstep, hm₂, hacked⟩ := hm₁.confirmed hl₁ (hm₁.agrees_applied hq₁ hterm₁ hold)
      rw [hterm₁] at hacked
      apply Reaches.before (.single hstep)
      exact .of_mirror hm₂ (.of_eq rfl) ⟨hm₁.term_lt, fun _ => hacked⟩
    . next hnew =>
      cases hmap : KeyMap.decode q.data with
      | error e => exact .of_error hm₁ (.of_eq rfl)
      | ok map =>
        obtain ⟨log, hput, hstep, hm₂⟩ := hm₁.installs hrole₁ hq₁ hterm₁ (by omega) hmap
        have hstored : NodeM.onLog (LogStore.putSnapshot q.index q.indexTerm q.data) clock node₁
            = .ok () { node₁ with log } := NodeM.onLog_ok hput
        have ha : Agrees (c₁.accept n (installed c₁ n q node₁)) n q.index := by
          obtain ⟨hle, htake⟩ := hm₁.installed_take hq₁ hterm₁
          apply Agrees.of_take_eq
          . simpa [Chronicle.accept] using hle
          . simpa [Chronicle.accept] using htake
        obtain ⟨hstep', hm₃, hacked⟩ := hm₂.confirmed hl₁ ha
        rw [show (c₁.accept n _).term n = q.term from hterm₁] at hacked
        dsimp only
        rw [NodeM.bind_of_ok hstored, NodeM.bind_modify]
        dsimp only
        rw [NodeM.bind_of_ok (NodeM.settleWhere_eq _ _), NodeM.bind_modify]
        dsimp only
        apply Reaches.before ((Relation.ReflTransGen.single hstep).tail hstep')
        refine .of_mirror { hm₃ with } ?_ ⟨hm₁.term_lt, fun _ => hacked⟩
        apply Told.of_indefinite
        . rfl
        . exact List.filter_subset_self _
        . rfl
        . exact Nat.le_of_lt (Nat.lt_of_not_le hnew)
        . intro _
          exact Nat.le_refl _
        . intro index hdefinite
          exact hdefinite

end Chronicle

end ReplicatedStore
