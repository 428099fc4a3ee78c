import ReplicatedStore.Proofs.Runs.CommittedLog
import ReplicatedStore.Proofs.Runs.LogMatching
import ReplicatedStore.Proofs.Runs.Transactions

/-!
Transactions that wrote something are as if they had been done one after the other, in the order of their
entries.
-/

namespace ReplicatedStore

open Chronicle

section Serial

variable {K : Cluster} {events : List Event} {scene : Scene} {chronicle : Nat → Chronicle}
  {log h : History} {x y : Node} {n : NodeId} {leader leader' : Handle}
  {proposal proposal' : Proposal} {term term' index index' ticket ticket' b b' e e' m m' : Nat}
  {s t : Transaction K events scene}

theorem Chronicle.Chronicled.begins (hc : Chronicled K events chronicle)
    (t : Beginning K events scene)
    : let held := (chronicle t.began).held (scene.nodes t.handle).member
      t.baseIndex ≤ held.length ∧ held.termAt t.baseIndex = t.baseTerm ∧
        History.replay (held.take t.baseIndex) = .ok t.node.map := by
  have hm := hc.mirror t.running.node
  have hle := Nat.le_trans hm.applied hm.committed
  refine ⟨hle, ?_, hm.map⟩
  unfold Beginning.baseTerm Node.readPoint
  rw [hm.shows.termAt? hm.covered hle]
  rfl

theorem Chronicle.Chronicled.base_valid (hc : Chronicled K events chronicle)
    (hcarried : t.Carries proposal) (hx : (K.moment events b).node? n = some x)
    (hvalid : NodeM.validateReads x.log proposal = .ok ()) (hreads : t.view.reads.isEmpty = false)
    : let held := (chronicle b).held n
      t.baseIndex ≤ held.length ∧
        ((chronicle t.began).held (scene.nodes t.handle).member).take t.baseIndex
          = held.take t.baseIndex ∧
        NodeM.checkEntries t.view.reads (held.drop t.baseIndex) = .ok () := by
  obtain ⟨hterm, hindex, hsame⟩ := hcarried.eq
  rw [← hsame] at hreads ⊢
  obtain ⟨hle, hlast, hcheck⟩ := (hc.mirror hx).shows.of_validateReads hreads hvalid
  rw [hindex] at hle hlast hcheck
  obtain ⟨hle', hlast', -⟩ := hc.begins t.toBeginning
  refine ⟨hle, ?_, hcheck⟩
  apply (hc.held_sound (Nat.le_max_left t.began b) _).take_eq
    (hc.held_sound (Nat.le_max_right t.began b) n) hle' hle
  rw [hlast', hlast, hterm]

theorem Chronicle.Chronicled.answersOn_eq (hc : Chronicled K events chronicle)
    (hcarried : t.Carries proposal) (hx : (K.moment events b).node? n = some x)
    (hvalid : NodeM.validateReads x.log proposal = .ok ()) (hp : h <+: (chronicle b).held n)
    (hbase : t.baseIndex ≤ ((chronicle b).held n).length → t.baseIndex ≤ h.length) {map : KeyMap}
    (hmap : History.replay h = .ok map)
    : t.answersOn map = t.answers := by
  apply t.answersOn_eq
  cases hempty : t.view.reads.isEmpty with
  | true =>
    rintro key ⟨r, hr, -⟩
    rw [List.isEmpty_iff.1 hempty] at hr
    cases hr
  | false =>
    obtain ⟨hle, hsame, hcheck⟩ := hc.base_valid hcarried hx hvalid hempty
    obtain ⟨-, -, hmap'⟩ := hc.begins t.toBeginning
    have hbefore : h.take t.baseIndex = ((chronicle b).held n).take t.baseIndex := by
      rw [List.prefix_iff_eq_take.1 hp, List.take_take, Nat.min_eq_left (hbase hle)]
    rw [hsame, ← hbefore] at hmap'
    rw [← List.take_append_drop t.baseIndex h, History.replay_append, hmap'] at hmap
    exact NodeM.agrees_of_checkEntries t.view_reads_ordered
      (NodeM.checkEntries_of_isPrefix (hp.drop t.baseIndex) hcheck) hmap

theorem Incarnation.Runs.keepsRunning {i : Incarnation} (hx : i.Runs K events m x)
    (hy : i.Runs K events m' y)
    : KeepsRunning events i.member m m' := by
  intro k hmk hk
  exact hy.keeps k (Nat.le_trans hx.since hmk) hk

theorem Incarnation.Runs.applied_le {i : Incarnation} (hc : Chronicled K events chronicle)
    (hx : i.Runs K events m x) (hy : i.Runs K events m' y) (hle : m ≤ m')
    : x.lastApplied ≤ y.lastApplied := by
  obtain ⟨y', hy', happlied⟩ := hc.applied_le hx.node hle (hx.keepsRunning hy)
  rw [hy.node] at hy'
  cases hy'
  exact happlied

theorem Chronicle.Chronicled.settles (hc : Chronicled K events chronicle)
    (hw : t.Writes term index leader proposal ticket b e)
    : term = (chronicle b).term (scene.nodes leader).member ∧
        index = ((chronicle b).held (scene.nodes leader).member).length + 1 ∧
        (∃ u, Settled K.ids (chronicle e) u ((chronicle b).held (scene.nodes leader).member ++
          [{ term, index, command := proposal.writes.encode }])) ∧
        ∃ y, (scene.nodes leader).Runs K events e y ∧ index ≤ y.lastApplied := by
  obtain ⟨-, clock, x, hacts, hreply⟩ := hw.appended
  obtain ⟨y, hok⟩ := NodeM.eq_ok_of_reply hreply
  obtain ⟨hterm, hindex, hgrown⟩ := hc.appended hacts.event hacts.runs.node hacts.possible hok
  obtain ⟨hy, hwatched⟩ := hc.admitted hacts.event hacts.runs.node hacts.possible hok
  obtain ⟨-, z, hz, hsettled⟩ := hw.settled
  have hkeeps : KeepsRunning events (scene.nodes leader).member (b + 1) e := by
    intro k hbk hke
    exact hacts.runs.keepsRunning hz k (by omega) hke
  obtain ⟨z', hz', hwatched'⟩ := hc.watched hy hwatched hw.lt hkeeps
  rw [hz.node] at hz'
  cases hz'
  obtain ⟨happlied, u, g, hg, hlength, hlast⟩ := hwatched'.wins _ hsettled rfl rfl
  have heq : g = (chronicle b).held (scene.nodes leader).member ++
      [{ term, index, command := proposal.writes.encode }] := by
    have hglog := (hg.sound (hc.lawful e)).isPrefix_log (by omega)
    rw [hlast] at hglog
    have hgrown' := hgrown.trans ((hc.later hw.lt).log term)
    apply (List.prefix_of_prefix_length_le hglog hgrown' ?_).eq_of_length
    . simp [hlength, hindex]
    . simp [hlength, hindex]
  rw [heq] at hg
  exact ⟨hterm, hindex, ⟨u, hg⟩, z, hz, happlied⟩

theorem Chronicle.Chronicled.lands (hc : Chronicled K events chronicle)
    (hlog : CommittedLog K events log) {u : Nat}
    (hsettled : Settled K.ids (chronicle events.length) u log)
    (hw : t.Writes term index leader proposal ticket b e)
    : (chronicle b).held (scene.nodes leader).member ++
        [{ term, index, command := proposal.writes.encode }] <+: log := by
  obtain ⟨-, hindex, ⟨v, hg⟩, y, hy, happlied⟩ := hc.settles hw
  apply hc.isPrefix_of_length_le hsettled hg
  have := (hlog.committed e _ y hy.node).1
  have := (hlog.applied e _ y hy.node).1
  rw [List.length_append, List.length_singleton, ← hindex]
  omega

theorem Chronicle.Chronicled.entry (hc : Chronicled K events chronicle)
    (hlog : CommittedLog K events log) {u : Nat}
    (hsettled : Settled K.ids (chronicle events.length) u log)
    (hw : t.Writes term index leader proposal ticket b e)
    (hshort : t.view.writes.encode.length < 2 ^ 64)
    : log[index - 1]? = some { term, index, command := t.view.writes.encode } := by
  obtain ⟨rest, hrest⟩ := hc.lands hlog hsettled hw
  obtain ⟨-, hindex, -⟩ := hc.settles hw
  rw [hw.carried.eq_proposal hshort] at hrest
  rw [← hrest]
  simp [hindex]

theorem Chronicle.Chronicled.applies (hc : Chronicled K events chronicle)
    (hw : t.Writes term index leader proposal ticket b e)
    : ∃ m y, m ≤ t.returned ∧ (scene.nodes t.handle).Runs K events m y ∧ index ≤ y.lastApplied := by
  rcases hw.home with rfl | ⟨m, hm, -, y, hy, hannounced⟩
  . obtain ⟨-, -, -, y, hy, happlied⟩ := hc.settles hw
    exact ⟨e, y, hw.le_returned, hy, happlied⟩
  . have hhost := (hc.depicts m).hosts (scene.nodes t.handle).member
    rw [Deployment.node?_eq_some.1 hy.node] at hhost
    exact ⟨m, y, hm, hy, Nat.le_trans hannounced hhost.2.announced⟩

theorem Chronicle.Chronicled.index_lt (hc : Chronicled K events chronicle)
    (hs : s.Writes term index leader proposal ticket b e)
    (ht : t.Writes term' index' leader' proposal' ticket' b' e') (hle : s.returned ≤ t.called)
    : index < index' := by
  by_contra hge
  obtain ⟨-, hindex, ⟨u, hg⟩, -⟩ := hc.settles hs
  obtain ⟨hterm', hindex', ⟨u', hg'⟩, -⟩ := hc.settles ht
  obtain ⟨-, clock, x, hacts, hreply⟩ := ht.appended
  obtain ⟨y, hok⟩ := NodeM.eq_ok_of_reply hreply
  have hm := hc.mirror hacts.runs.node
  have hheld := hm.held_eq_log (hm.leads (NodeM.of_propose hok).1)
  have heb : e ≤ b' := Nat.le_trans hs.le_returned (Nat.le_trans hle ht.called_le)
  -- the later entry would be part of what was committed before its leader made it
  have hp : (chronicle b').held (scene.nodes leader').member ++
      [{ term := term', index := index', command := proposal'.writes.encode }]
        <+: (chronicle b).held (scene.nodes leader).member ++
          [{ term, index, command := proposal.writes.encode }] := by
    apply hc.isPrefix_of_length_le hg hg'
    simp only [List.length_append, List.length_singleton]
    omega
  have hsound := ((hg.sound (hc.lawful e)).mono (hc.later heb)).of_isPrefix hp
  have hlog := hsound.isPrefix_log (by simp)
  rw [History.lastTerm_eq (by simp)] at hlog
  simp only [List.length_append, List.length_singleton, Nat.add_sub_cancel,
    List.getElem_append_right (Nat.le_refl _), Nat.sub_self, List.getElem_singleton] at hlog
  rw [hterm', ← hheld] at hlog
  have := hlog.length_le
  simp at this

theorem CommittedLog.replay_of_isPrefix (hlog : CommittedLog K events log) {g : History}
    (hx : (K.moment events m).node? n = some x) (hg : g <+: log) (hle : g.length ≤ x.lastApplied)
    : ∃ map, History.replay g = .ok map := by
  obtain ⟨happlied, hmap⟩ := hlog.applied m n x hx
  have hp : g <+: log.take x.lastApplied := List.prefix_take_iff.2 ⟨hg, hle⟩
  obtain ⟨rest, hrest⟩ := hp
  rw [← hrest, History.replay_append] at hmap
  cases hreplay : History.replay g with
  | ok map => exact ⟨map, rfl⟩
  | error fault =>
    rw [hreplay] at hmap
    cases hmap

/-- Transactions with writes, in the order of their entries: each read what it would have read after the
entries before its own, later commits get later entries, and whoever begins on the same node, while it keeps
running, has them in its base. The bound is that of the lengths in the stored form of the writes. -/
theorem writes_serializable (K : Cluster) (events : List Event) (scene : Scene)
    : (∀ t : Transaction K events scene, t.view.writes.encode.length < 2 ^ 64 →
        ((∃ term index, t.Wrote term index) ↔ t.view.writes.isEmpty = false)) ∧
      ∃ log, CommittedLog K events log ∧
        (∀ (t : Transaction K events scene) term index, t.Wrote term index →
          1 ≤ index ∧
          (t.view.writes.encode.length < 2 ^ 64 →
            log[index - 1]? = some { term, index, command := t.view.writes.encode }) ∧
          ∃ map, History.replay (log.take (index - 1)) = .ok map ∧ t.answersOn map = t.answers) ∧
        (∀ (s t : Transaction K events scene) term index term' index', s.Wrote term index →
          t.Wrote term' index' → s.returned ≤ t.called → index < index') ∧
        ∀ (t : Transaction K events scene) term index (later : Beginning K events scene),
          t.Wrote term index → later.handle = t.handle → t.returned ≤ later.began →
            index ≤ later.baseIndex := by
  obtain ⟨chronicle, hc⟩ := exists_chronicled K events
  obtain ⟨log, u, hlog, hsettled⟩ := hc.exists_committedLog
  refine ⟨fun t => t.exists_wrote_iff, log, hlog, ?_, ?_, ?_⟩
  . intro t term index hwrote
    obtain ⟨leader, proposal, ticket, b, e, hw⟩ := hwrote.writes
    obtain ⟨-, hindex, -, y, hy, happlied⟩ := hc.settles hw
    have hlands := hc.lands hlog hsettled hw
    have hbefore : (chronicle b).held (scene.nodes leader).member = log.take (index - 1) := by
      rw [hindex, Nat.add_sub_cancel]
      exact List.prefix_iff_eq_take.1 ((List.prefix_append _ _).trans hlands)
    obtain ⟨map, hmap⟩ := hlog.replay_of_isPrefix hy.node (List.take_prefix (index - 1) log)
      (Nat.le_trans (List.length_take_le _ _) (by omega))
    refine ⟨by omega, hc.entry hlog hsettled hw, map, hmap, ?_⟩
    obtain ⟨-, clock, x, hacts, hreply⟩ := hw.appended
    obtain ⟨y', hok⟩ := NodeM.eq_ok_of_reply hreply
    rw [← hbefore] at hmap
    exact hc.answersOn_eq hw.carried hacts.runs.node (NodeM.of_propose hok).2.1 (List.prefix_refl _)
      id hmap
  . intro s t term index term' index' hs ht hle
    obtain ⟨_, _, _, _, _, hs⟩ := hs.writes
    obtain ⟨_, _, _, _, _, ht⟩ := ht.writes
    exact hc.index_lt hs ht hle
  . intro t term index later hwrote hsame hle
    obtain ⟨_, _, _, _, _, hw⟩ := hwrote.writes
    obtain ⟨m, y, hm, hy, happlied⟩ := hc.applies hw
    have hrunning := later.running
    rw [hsame] at hrunning
    exact Nat.le_trans happlied (hy.applied_le hc hrunning (Nat.le_trans hm hle))

end Serial

-- Members a and b elect a. A transaction that begins on b is handed to a, and b applies its entry. Then b is
-- closed and opened again.

namespace Errand

open Comeback Process

def members : Cluster where
  ids := ["a", "b"]
  distinct := by decide
  short := by decide +kernel

def operations : List Operation := [.get [1], .put [1] [2]]

def proposal : Proposal where
  baseTerm := 0
  baseIndex := 0
  reads := ⟨[.single [1]]⟩
  writes := { puts := KeyMap.empty.insert [1] [2] }

def entry : LogEntry where
  term := 1
  index := 2
  command := proposal.writes.encode

def commitment : AppendRequest where
  term := 1
  leader := "a"
  prevIndex := 2
  prevTerm := 1
  entries := []
  commit := 2

def events : List Event :=
  [.open "a" {} ⟨0, 10⟩, .open "b" {} ⟨0, 10⟩, .act "a" ⟨20, 10⟩ .tick] ++
  elects ⟨20, 10⟩ "b" (ballot 1 "a" 0 0) ++
  brings ⟨20, 10⟩ "b" (offer 1 "a" 0 0 [noop 1 1]) ⟨1, true, 1, 0⟩ ++
  [.act "a" ⟨20, 10⟩ (.propose proposal)] ++
  brings ⟨20, 10⟩ "b" { offer 1 "a" 1 1 [entry] with commit := 1 } ⟨1, true, 2, 0⟩ ++
  [ .act "a" ⟨20, 10⟩ (.message "b"),
    .act "b" ⟨20, 10⟩ (.handle "a" (.append commitment)),
    .crash "b" false,
    .open "b" {} ⟨40, 10⟩]

def scene : Scene where
  nodes
    | 0 => ⟨"a", 1⟩
    | 1 => ⟨"b", 2⟩
    | _ => ⟨"b", 16⟩
  transactions _ := {
    view := (TransactionView.performAll { base := .empty } operations).2
    base := .member 1 0 0 false }

def deeds : List Deed := [
  ⟨8, 8, .planCommit 0, .forward 1 "a" proposal⟩,
  ⟨8, 8, .dispatch 1 "a" (.commit proposal.toRequest), .reaches 0⟩,
  ⟨8, 9, .propose 0 proposal, .ok (.appended 1 2 0)⟩,
  ⟨9, 9, .broadcast 0, ()⟩,
  ⟨9, 9, .config 0, ({} : ConsensusConfig)⟩,
  ⟨12, 12, .settlement 0 0, .ok ()⟩,
  ⟨12, 12, .reply 1 "a", .ok ()⟩,
  ⟨12, 12, .config 1, ({} : ConsensusConfig)⟩,
  ⟨14, 14, .applied 1 2, ()⟩,
  ⟨14, 14, .release 0, ()⟩]

theorem seen
    : (Seen members events 8 "b" (fun y => (y.role.isLeader, y.leader)) (false, some "a") ∧
        Seen members events 8 "b" (fun y => (y.map, y.readPoint)) (.empty, (0, 0))) ∧
      SeenBefore members events 8 "a" (.propose proposal)
        (fun x => NodeM.reply (NodeM.propose proposal ⟨20, 10⟩ x)) (.ok (.appended 1 2 0)) ∧
      Seen members events 12 "a" (·.settled) [(0, .ok ())] ∧
      Seen members events 14 "b" (·.announced) 2 ∧
      Seen members events 16 "b" (·.readPoint.1) 0 := by
  decide +kernel

theorem planned : Happens members events scene 8 8 (.planCommit 0) (.forward 1 "a" proposal) := by
  have hy : ∃ y, (scene.nodes 1).Runs members events 8 y ∧
      (y.role.isLeader, y.leader) = (false, some "a") :=
    Incarnation.exists_runs (by decide) rfl seen.1.1
  obtain ⟨y, hy, hys⟩ := hy
  obtain ⟨hrole, hleader⟩ := Prod.mk.inj hys
  have hplan := happens_planCommit scene 0 rfl rfl hy
  rw [hrole, hleader] at hplan
  exact hplan

theorem proposed
    : Happens members events scene 8 9 (.propose 0 proposal) (.ok (.appended 1 2 0)) :=
  happens_propose (Incarnation.exists_acts (by decide) rfl rfl seen.2.1)

theorem settled : Happens members events scene 12 12 (.settlement 0 0) (.ok ()) :=
  happens_settlement (Incarnation.exists_runs (by decide) rfl seen.2.2.1)

theorem applied : Happens members events scene 14 14 (.applied 1 2) () := by
  have hy : ∃ y, (scene.nodes 1).Runs members events 14 y ∧ y.announced = 2 :=
    Incarnation.exists_runs (by decide) rfl seen.2.2.2.1
  obtain ⟨y, hy, hannounced⟩ := hy
  exact ⟨rfl, y, hy, Nat.le_of_eq hannounced.symm⟩

theorem commitForwarded_eq
    : Script.commitForwarded (ρ := Except Error Unit) 0 proposal.toRequest
        =
      (do return .ofResult (← Script.submit 0 proposal)) := by
  have hrequest : Proposal.ofRequest proposal.toRequest = .ok proposal := by decide +kernel
  unfold Script.commitForwarded
  rw [hrequest]

theorem proceeds
    : Proceeds members events scene [] (Script.commit 0).toProcess 8 14 deeds (.answer (.ok ())) := by
  refine .step _ _ _ (Nat.le_refl 8) planned ?_
  refine .step _ _ _ (Nat.le_refl 8) ⟨Nat.le_refl 8, rfl⟩ ?_
  dsimp only
  rw [commitForwarded_eq]
  refine .step _ _ _ (Nat.le_refl 8) proposed ?_
  refine .step _ _ _ (Nat.le_refl 9) (Nat.le_refl 9) ?_
  refine .step _ _ _ (Nat.le_refl 9) (Nat.le_refl 9) (.setTimer ?_)
  refine .step _ _ _ (by omega) settled (.clearTimer ?_)
  refine .step _ _ _ (Nat.le_refl 12) (Nat.le_refl 12) ?_
  refine .step _ _ _ (Nat.le_refl 12) (Nat.le_refl 12) (.setTimer ?_)
  refine .step _ _ _ (by omega) applied (.clearTimer ?_)
  refine .step _ _ _ (Nat.le_refl 14) (Nat.le_refl 14) ?_
  exact .answer (Nat.le_refl 14)

theorem exists_transaction
    : ∃ t : Transaction members events scene, t.Follows 1 false .empty operations 8 14 deeds :=
  Transaction.exists_follows 0 8 rfl
    (Incarnation.exists_runs (by decide) rfl seen.1.2) (Nat.le_refl 8) proceeds

theorem view_writes {t : Transaction members events scene}
    (h : t.view = (TransactionView.performAll { base := .empty } operations).2)
    : t.view.writes = proposal.writes := by
  rw [h]
  rfl

theorem wrote {t : Transaction members events scene} (h : t.deeds = deeds) : t.Wrote 1 2 := by
  refine ⟨8, 9, 0, proposal, 0, ?_⟩
  rw [h]
  exact List.mem_cons_of_mem _ (List.mem_cons_of_mem _ List.mem_cons_self)

end Errand

theorem writes_serializable_errand
    : ∃ (t : Transaction Errand.members Errand.events Errand.scene)
        (later : Beginning Errand.members Errand.events Errand.scene) (log : History) (map : KeyMap),
        t.view.writes.isEmpty = false ∧ t.Wrote 1 2 ∧ later.handle = t.handle ∧
        t.returned ≤ later.began ∧ CommittedLog Errand.members Errand.events log ∧
        log[1]? = some Errand.entry ∧ History.replay (log.take 1) = .ok map ∧
        t.answersOn map = t.answers ∧ 2 ≤ later.baseIndex := by
  obtain ⟨t, ht⟩ := Errand.exists_transaction
  have hwrote := Errand.wrote ht.deeds
  have hwrites := Errand.view_writes ht.view
  have hshort : t.view.writes.encode.length < 2 ^ 64 := by
    rw [hwrites]
    decide +kernel
  obtain ⟨-, y, hy, -⟩ := Errand.applied
  let later : Beginning Errand.members Errand.events Errand.scene := {
    handle := 1
    stale := false
    gated := false
    began := 14
    node := y
    running := hy
    world := .showing Errand.scene 0 1 y
    shown := rfl }
  have hle : t.returned ≤ later.began := Nat.le_of_eq ht.returned
  obtain ⟨hwritten, log, hlog, hreads, -, hbase⟩ :=
    writes_serializable Errand.members Errand.events Errand.scene
  obtain ⟨-, hentry, map, hmap, hanswers⟩ := hreads t 1 2 hwrote
  have hentry := hentry hshort
  rw [hwrites] at hentry
  exact ⟨t, later, log, map, (hwritten t hshort).1 ⟨1, 2, hwrote⟩, hwrote, ht.handle.symm, hle, hlog,
    hentry, hmap, hanswers, hbase t 1 2 later hwrote ht.handle.symm hle⟩

theorem base_before_write_after_reopening
    : ∃ (t : Transaction Errand.members Errand.events Errand.scene)
        (later : Beginning Errand.members Errand.events Errand.scene),
        t.Wrote 1 2 ∧ t.returned ≤ later.began ∧
        (Errand.scene.nodes later.handle).member = (Errand.scene.nodes t.handle).member ∧
        later.baseIndex < 2 := by
  obtain ⟨t, ht⟩ := Errand.exists_transaction
  have hwrote := Errand.wrote ht.deeds
  have hy : ∃ y, (Errand.scene.nodes 2).Runs Errand.members Errand.events 16 y ∧
      y.readPoint.1 = 0 :=
    Incarnation.exists_runs (Nat.le_refl 16) rfl Errand.seen.2.2.2.2
  obtain ⟨y, hy, hbase⟩ := hy
  refine ⟨t, {
    handle := 2
    stale := false
    gated := false
    began := 16
    node := y
    running := hy
    world := .showing Errand.scene 0 2 y
    shown := rfl }, hwrote, ?_, ?_, ?_⟩
  . rw [ht.returned]
    exact Nat.le_add_right 14 2
  . rw [ht.handle]
    rfl
  . change y.readPoint.1 < 2
    rw [hbase]
    exact Nat.zero_lt_two

end ReplicatedStore
