import ReplicatedStore.Proofs.Consensus.Replaying

/-!
The life of one member: any messages, at any time, and any number of restarts from its directory. As long as
the node is not halted, its map is what its snapshot and the entries behind it lead to.
-/

namespace ReplicatedStore

theorem HardState.load_cases (v : Volume) : (∃ hard, load v = .ok hard v) ∨ ∃ e, load v = .error e v := by
  unfold load Disk.read?
  rw [bind_assoc, EStateM.bind_get]
  cases v.find? fileName with
  | none => exact .inl ⟨_, rfl⟩
  | some entry =>
    cases entry with
    | directory => exact .inr ⟨_, rfl⟩
    | file file =>
      rw [pure_bind]
      dsimp only
      cases decode file.content with
      | ok hard => exact .inl ⟨hard, rfl⟩
      | error e => exact .inr ⟨e, rfl⟩

namespace LogStore

variable {log : LogStore} {records : List LogEntry} {snapshot : Option Snapshot} {map : KeyMap}

theorem Regular.explains (h : log.Regular records snapshot)
    (hrestore : StandaloneStore.restore snapshot = .ok map)
    : log.Explains log.snapshotIndex log.snapshotIndex map := by
  obtain ⟨durable, hcoherent⟩ := h.coherent
  refine ⟨Nat.le_refl _, Nat.le_refl _, ?_, map, .inl ⟨snapshot, h.toKnows, hrestore⟩, ?_⟩
  . rw [lastIndex_eq hcoherent.follows]
    exact Nat.le_add_right _ _
  . rw [Nat.sub_self]
    rfl

theorem sound_close (h : ∃ records durable, log.Coherent records durable) (hcalm : log.disk.plan = [])
    : log.close.Sound := by
  obtain ⟨records, durable, h⟩ := h
  obtain ⟨log', hclose, hspools, hcoherent, -⟩ := h.close hcalm
  rw [hclose, ← Volume.calmed_eq (Volume.calm_of_suffix hspools.plan hcalm)]
  exact hcoherent.carries.sound

theorem yields_open_sound {v : Volume} (hv : v.Sound) (policy : SyncPolicy)
    : EStateM.Yields
        (fun log v' => log.disk = v' ∧ ∃ records snapshot, log.Regular records snapshot)
        (·.Sound) (LogStore.open policy v) := by
  rcases readSnapshot_cases v with ⟨snapshot, hread⟩ | ⟨e, hread⟩
  . obtain ⟨records, tail, hcontent, hfit, htail⟩ := LogRecord.exists_records ((v.content? logName).getD [])
    apply (yields_open (by rwa [Volume.calmed_eq hv.calm]) hread hcontent hfit htail policy).imp
    . rintro log v' ⟨hdisk, hopens⟩
      exact ⟨hdisk, records, snapshot, hopens.regular hread hv.calm⟩
    . rintro v' (hplan | ⟨hsound, hplan, -⟩)
      . exact (hplan hv.calm).elim
      . rwa [Volume.calmed_eq (Volume.calm_of_suffix hplan hv.calm)] at hsound
  . unfold LogStore.open
    rw [EStateM.bind_of_error hread]
    exact hv

end LogStore

theorem Node.reflects_open {v : Volume} (hv : v.Sound) (id : NodeId) (members : List NodeId)
    (config : ConsensusConfig) (clock : Clock)
    : EStateM.Yields (fun node _ => node.Reflects) (·.Sound) (Node.open id members config clock v) := by
  unfold Node.open
  apply (LogStore.yields_open_sound hv config.policy).bind
  . exact fun _ h => h
  rintro log v' ⟨rfl, records, snapshot, hregular⟩
  have hsound := hregular.sound
  rcases HardState.load_cases log.disk with ⟨hard, hload⟩ | ⟨e, hload⟩
  . rw [EStateM.bind_of_ok hload, EStateM.bind_of_ok hregular.reads]
    have hreflects : ∀ map, StandaloneStore.restore snapshot = .ok map →
        Node.Reflects {
          id
          peers := members.filter (· ≠ id)
          config
          log
          hard
          commitIndex := log.snapshotIndex
          lastApplied := log.snapshotIndex
          announced := log.snapshotIndex
          electionDue := clock.now + clock.electionTimeout
          map } := by
      intro map hrestore
      refine ⟨?_, hregular.calm, fun _ => hregular.explains hrestore⟩
      exact ⟨records, hregular.coherent⟩
    cases snapshot with
    | none => exact hreflects .empty rfl
    | some snapshot =>
      dsimp only
      cases hdecode : KeyMap.decode snapshot.data with
      | ok map => exact hreflects map hdecode
      | error e => exact hsound
  . rw [EStateM.bind_of_error hload]
    exact hsound

theorem Node.starts_of_open {id : NodeId} {members : List NodeId} {config : ConsensusConfig} {clock : Clock}
    {v v' : Volume} {x : Node} (h : Node.open id members config clock v = .ok x v')
    : x.role = .follower ∧ x.commitIndex = x.log.snapshotIndex ∧ x.lastApplied = x.log.snapshotIndex := by
  unfold Node.open at h
  obtain ⟨log, v₁, -, h⟩ := EStateM.of_bind h
  obtain ⟨hard, v₂, -, h⟩ := EStateM.of_bind h
  obtain ⟨snapshot, v₃, -, h⟩ := EStateM.of_bind h
  cases snapshot with
  | none =>
    cases h
    exact ⟨rfl, rfl, rfl⟩
  | some snapshot =>
    dsimp only at h
    cases hdecode : KeyMap.decode snapshot.data with
    | ok map =>
      rw [hdecode] at h
      cases h
      exact ⟨rfl, rfl, rfl⟩
    | error e =>
      rw [hdecode] at h
      cases h

namespace Move

variable {move : Move}

def InRange : Move → Prop
  | .handle _ request => request.InRange
  | _ => True

instance : (move : Move) → Decidable move.InRange
  | .handle _ request => inferInstanceAs (Decidable request.InRange)
  | .tick | .message _ | .openRound | .propose _ | .collect _ | .take .. | .stop => isTrue trivial

theorem InRange.accepted (h : move.InRange) : move.Accepted Request.InRange := by
  cases move with
  | handle source request => exact h
  | _ => exact trivial

end Move

inductive Episode where
  | act (clock : Clock) (move : Move)
  | close
  | «open» (members : List NodeId) (config : ConsensusConfig) (clock : Clock)

def Episode.InRange : Episode → Prop
  | .act _ move => move.InRange
  | _ => True

instance : (episode : Episode) → Decidable episode.InRange
  | .act _ move => inferInstanceAs (Decidable move.InRange)
  | .close => isTrue trivial
  | .open .. => isTrue trivial

namespace Host

def perform (id : NodeId) : Host → Episode → Host
  | .running node, .act clock move =>
    if move.fits node then
      match move.action id clock node with
      | .ok _ node => .running node
      | .error _ node => .running node
    else .running node
  | .running node, .close => .stopped node.log.close
  | .stopped disk, .open members config clock =>
    match Node.open id members config clock disk with
    | .ok node _ => .running node
    | .error _ disk => .stopped disk
  | host, _ => host

theorem perform_act {accepts : Request → Prop} {P : Node → Prop} (h : NodeM.Maintains accepts P) (id : NodeId)
    (clock : Clock) {x : Node} (hx : P x) {move : Move} (hmove : move.Accepted accepts)
    : ∃ y, Host.perform id (.running x) (.act clock move) = .running y ∧ P y := by
  unfold Host.perform
  dsimp only
  split
  . next hfits =>
    have hends := move.maintains h id clock hx hfits hmove
    cases haction : move.action id clock x with
    | ok sent y =>
      rw [haction] at hends
      exact ⟨y, rfl, hends.1⟩
    | error e y =>
      rw [haction] at hends
      exact ⟨y, rfl, hends⟩
  . exact ⟨x, rfl, hx⟩

theorem perform_open {disk : Volume} (h : disk.Sound) (id : NodeId) (members : List NodeId)
    (config : ConsensusConfig) (clock : Clock)
    : (∃ x, Host.perform id (.stopped disk) (.open members config clock) = .running x ∧ x.Reflects ∧
        x.commitIndex = x.log.snapshotIndex ∧ x.lastApplied = x.log.snapshotIndex) ∨
      ∃ v, Host.perform id (.stopped disk) (.open members config clock) = .stopped v ∧ v.Sound := by
  have hopen := Node.reflects_open h id members config clock
  unfold Host.perform
  dsimp only
  cases hresult : Node.open id members config clock disk with
  | ok x v =>
    rw [hresult] at hopen
    exact .inl ⟨x, rfl, hopen, (Node.starts_of_open hresult).2⟩
  | error e v =>
    rw [hresult] at hopen
    exact .inr ⟨v, rfl, hopen⟩

def Reflects : Host → Prop
  | .running node => node.Reflects
  | .stopped disk => disk.Sound

variable {host : Host} {id : NodeId} {episode : Episode}

def node? : Host → Option Node
  | .running node => some node
  | .stopped _ => none

theorem node?_eq_some {node : Node} : host.node? = some node ↔ host = .running node := by
  cases host <;> simp [node?]

theorem Reflects.perform (h : host.Reflects) (hrange : episode.InRange)
    : (host.perform id episode).Reflects := by
  cases host with
  | running node =>
    cases episode with
    | act clock move =>
      have hmove : move.InRange := hrange
      obtain ⟨y, hy, hreflects⟩ := perform_act NodeM.maintains_reflects id clock h hmove.accepted
      rw [hy]
      exact hreflects
    | close => exact LogStore.sound_close h.coherent h.calm
    | «open» members config clock => exact h
  | stopped disk =>
    cases episode with
    | act clock move => exact h
    | close => exact h
    | «open» members config clock =>
      rcases perform_open h id members config clock with ⟨x, hx, hreflects, -⟩ | ⟨v, hv, hsound⟩
      . rw [hx]
        exact hreflects
      . rw [hv]
        exact hsound

theorem Reflects.run (h : host.Reflects) {episodes : List Episode}
    (hrange : ∀ episode ∈ episodes, episode.InRange)
    : (episodes.foldl (Host.perform id) host).Reflects :=
  List.foldlRecOn episodes _ h fun _ hhost episode hepisode => hhost.perform (hrange episode hepisode)

end Host

namespace Follows

variable {base : Nat} {entries : List LogEntry}

theorem filter_through (h : Follows base entries) (index : Nat)
    : entries.filter (·.index ≤ index) = entries.take (index - base) := by
  induction entries generalizing base with
  | nil => rw [List.filter_nil, List.take_nil]
  | cons e rest ih =>
    have hindex := h.1
    by_cases hle : e.index ≤ index
    . rw [List.filter_cons_of_pos (by simpa using hle), ih h.2,
        show index - base = index - (base + 1) + 1 by omega, List.take_succ_cons]
    . rw [show index - base = 0 by omega, List.take_zero, List.filter_eq_nil_iff]
      intro e' he'
      have hlt := h.lt_of_mem he'
      simp only [decide_eq_true_eq]
      omega

theorem map_index (h : Follows base entries)
    : entries.map (·.index) = List.range' (base + 1) entries.length := by
  induction entries generalizing base with
  | nil => rfl
  | cons e rest ih => rw [List.map_cons, h.1, ih h.2, List.length_cons, List.range'_succ]

end Follows

theorem LogStore.between_snapshotIndex {log : LogStore} (h : Follows log.snapshotIndex log.entries)
    (index : Nat)
    : log.between log.snapshotIndex index = log.entries.take (index - log.snapshotIndex) := by
  rw [← h.filter_through]
  unfold between
  apply List.filter_congr
  intro e he
  have hlt := h.lt_of_mem he
  simp [hlt]

theorem NodeM.writes_of_foldlM {entries : List LogEntry} {base map : KeyMap}
    (h : entries.foldlM (fun map entry => change entry map) base = .ok map)
    : ∃ writes, ((entries.filter (!·.isNoop)).map (·.command)).mapM WriteSet.decode = .ok writes ∧
        writes.foldl (fun map writes => writes.performOn map) base = map := by
  induction entries generalizing base with
  | nil =>
    cases h
    exact ⟨[], rfl, rfl⟩
  | cons entry rest ih =>
    obtain ⟨next, hchange, hrest⟩ := Except.of_bind h
    -- the rest starts at the map that the first entry makes of `base`
    obtain ⟨writes, hdecode, hmap⟩ := ih hrest
    unfold change at hchange
    beta_reduce at hchange
    cases hnoop : entry.isNoop with
    | true =>
      rw [hnoop] at hchange
      cases hchange
      rw [List.filter_cons_of_neg (by simp [hnoop])]
      exact ⟨writes, hdecode, hmap⟩
    | false =>
      rw [hnoop] at hchange
      obtain ⟨first, hfirst, hnext⟩ := Except.of_bind hchange
      cases hnext
      refine ⟨first :: writes, ?_, hmap⟩
      rw [List.filter_cons_of_pos (by simp [hnoop]), List.map_cons, List.mapM_cons, hfirst, hdecode]
      rfl

structure Node.Replays (node : Node) (snapshot : Option Snapshot) (writes : List WriteSet) : Prop where
  stored : LogStore.storedSnapshot node.log = .ok snapshot node.log
  snapshotIndex : node.log.snapshotIndex = (snapshot.map (·.index)).getD 0
  covered : node.log.snapshotIndex ≤ node.lastApplied
  numbered : (node.log.between node.log.snapshotIndex node.lastApplied).map (·.index)
    = List.range' (node.log.snapshotIndex + 1) (node.lastApplied - node.log.snapshotIndex)
  decoded : (((node.log.between node.log.snapshotIndex node.lastApplied).filter (!·.isNoop)).map
    (·.command)).mapM WriteSet.decode = .ok writes
  map : (StandaloneStore.restore snapshot).map (writes.foldl fun map writes => writes.performOn map)
    = .ok node.map

theorem Node.Reflects.replays {node : Node} (h : node.Reflects) (hrunning : node.halted = false)
    (hshort : ∀ content ∈ node.log.disk.content? LogStore.snapshotName, content.length < 2 ^ 64)
    : ∃ snapshot writes, node.Replays snapshot writes := by
  obtain ⟨records, durable, hcoherent⟩ := h.coherent
  have hexplains := h.explains hrunning
  obtain ⟨base, hfounds, hreplayed⟩ := hexplains.replayed
  have hfollows := hcoherent.follows
  have hbetween := LogStore.between_snapshotIndex hfollows node.lastApplied
  rw [← hbetween] at hreplayed
  obtain ⟨writes, hdecoded, hmap⟩ := NodeM.writes_of_foldlM hreplayed
  rcases hfounds with ⟨snapshot, hknows, hrestore⟩ | ⟨snapshot, -, hlong, hholds⟩
  . refine ⟨snapshot, writes, hknows.storedSnapshot, hknows.snapshotIndex, hexplains.covered, ?_,
      hdecoded, ?_⟩
    . rw [hbetween, (hfollows.take _).map_index, List.length_take,
        Nat.min_eq_left (hexplains.applied_le hcoherent)]
    . rw [hrestore, ← hmap]
      rfl
  -- a snapshot whose data is too long to be read makes a file that is too long
  . obtain ⟨id, hfile⟩ := hholds
    have hlt : snapshot.encode.length < 2 ^ 64 := hshort _ (LogStore.content?_of_file hfile)
    have hle := snapshot.length_data_le
    omega

/-- Whatever reaches a member, whenever it is opened again, and with whatever threshold: unless it is
halted, its map is that of its snapshot with the entries behind it that were applied, each of them once. No
file has 2^64 bytes. -/
theorem lifetime_replays {v : Volume} (hv : v.Sound) (id : NodeId) {episodes : List Episode}
    (hrange : ∀ episode ∈ episodes, episode.InRange) {node : Node}
    (hlife : episodes.foldl (Host.perform id) (.stopped v) = .running node) (hrunning : node.halted = false)
    (hshort : ∀ content ∈ node.log.disk.content? LogStore.snapshotName, content.length < 2 ^ 64)
    : ∃ snapshot writes, node.Replays snapshot writes := by
  have hstart : (Host.stopped v).Reflects := hv
  have hreflects : (episodes.foldl (Host.perform id) (.stopped v)).Reflects := hstart.run hrange
  rw [hlife] at hreflects
  exact hreflects.replays hrunning hshort

namespace Reinstated

def clock : Clock := ⟨0, 0⟩

def putting (key value : Nat) : Bytes :=
  (WriteSet.put {} [UInt8.ofNat key] [UInt8.ofNat value]).encode

-- Two entries that become a snapshot, a newer snapshot from the leader, a restart, and an entry behind it.
def episodes : List Episode :=
  [.open ["a", "b", "c"] { snapshotThreshold := 1, policy := .never } clock,
    .act clock (.handle "b" (.append {
      term := 1, leader := "b", prevIndex := 0, prevTerm := 0, commit := 2,
      entries := [⟨1, 1, []⟩, ⟨1, 2, putting 1 10⟩] })),
    .act clock (.handle "b" (.snapshot {
      term := 1, leader := "b", index := 5, indexTerm := 1, data := (KeyMap.empty.insert [2] [20]).encode })),
    .close,
    .open ["a", "b", "c"] {} clock,
    .act clock (.handle "b" (.append {
      term := 1, leader := "b", prevIndex := 5, prevTerm := 1, commit := 6,
      entries := [⟨1, 6, putting 3 30⟩] }))]

end Reinstated

theorem lifetime_replays_reinstated
    : ∃ node, Reinstated.episodes.foldl (Host.perform "a") (.stopped {}) = .running node ∧
        node.map.pairs = [([2], [20]), ([3], [30])] ∧ node.log.snapshotIndex = 5 ∧ node.lastApplied = 6 ∧
        ∃ snapshot writes, node.Replays snapshot writes := by
  have hseen : (Reinstated.episodes.foldl (Host.perform "a") (.stopped {})).node?.map (fun node =>
      (node.map.pairs, node.log.snapshotIndex, node.lastApplied, node.halted,
        decide (∀ content ∈ node.log.disk.content? LogStore.snapshotName, content.length < 2 ^ 64)))
        =
      some ([([2], [20]), ([3], [30])], 5, 6, false, true) := by
    decide +kernel
  obtain ⟨node, hnode, hsame⟩ := Option.map_eq_some_iff.1 hseen
  simp only [Prod.mk.injEq] at hsame
  obtain ⟨hmap, hindex, happlied, hrunning, hshort⟩ := hsame
  have hlife := Host.node?_eq_some.1 hnode
  exact ⟨node, hlife, hmap, hindex, happlied,
    lifetime_replays Volume.sound_empty "a" (by decide +kernel) hlife hrunning (of_decide_eq_true hshort)⟩

end ReplicatedStore
