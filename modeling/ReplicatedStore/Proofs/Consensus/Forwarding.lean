import ReplicatedStore.Cluster.Scheduler
import ReplicatedStore.Proofs.Consensus.Proposing
import ReplicatedStore.Proofs.Consensus.View
import ReplicatedStore.Proofs.KeySpace.Conflicts
import ReplicatedStore.Proofs.Runs.Deployment

/-!
Commits that other members hand on, with the reads as the message lists them. The leader finds a removal in any
list of ranges, and a put where the list is in order around its key.
-/

namespace ReplicatedStore

namespace WriteSet

variable {writes : WriteSet} {reads : KeyRanges} {key : Bytes}

theorem decode_nil_ne : decode [] ≠ .ok writes :=
  nofun

theorem disturbs_of_write (hwrite : writes.puts.get? key ≠ none ∨ writes.removes.Covers key)
    (hread : reads.Covers key) (hfound : writes.removes.Covers key ∨ reads.OrderedAround key)
    : writes.disturbs reads = true := by
  rcases hfound with hremoved | hordered
  . exact disturbs_of_removed hremoved hread
  . rcases hwrite with hput | hremoved
    . exact disturbs_of_put hput hordered.contains
    . exact disturbs_of_removed hremoved hread

end WriteSet

theorem Proposal.of_ofRequest {request : CommitRequest} {proposal : Proposal}
    (h : Proposal.ofRequest request = .ok proposal)
    : proposal.baseIndex = request.baseIndex ∧ proposal.reads = request.reads := by
  unfold Proposal.ofRequest at h
  dsimp only at h
  split at h
  all_goals
    obtain ⟨writes, -, hproposal⟩ := Except.of_bind h
    cases hproposal
    exact ⟨rfl, rfl⟩

namespace NodeM

variable {reads : KeyRanges} {entries : List LogEntry} {entry : LogEntry} {writes : WriteSet}
  {log : LogStore} {h : History} {proposal : Proposal} {node : Node} {e : Error}

def Legible (entry : LogEntry) : Prop :=
  entry.isNoop = true ∨ ∃ writes, WriteSet.decode entry.command = .ok writes

theorem checkEntries_conflict (hlegible : ∀ e ∈ entries, Legible e) (hentry : entry ∈ entries)
    (hwrites : WriteSet.decode entry.command = .ok writes) (hdisturbs : writes.disturbs reads = true)
    : ∃ what, checkEntries reads entries = .error (.conflict what) := by
  induction entries with
  | nil => cases hentry
  | cons e rest ih =>
    have hrest : ∀ e ∈ rest, Legible e := fun e he => hlegible e (List.mem_cons_of_mem _ he)
    unfold checkEntries
    rcases List.mem_cons.1 hentry with rfl | hentry
    . have hnoop : ¬ entry.isNoop = true := by
        intro hnoop
        rw [List.isEmpty_iff.1 hnoop] at hwrites
        exact WriteSet.decode_nil_ne hwrites
      rw [if_neg hnoop, hwrites]
      dsimp only
      rw [if_pos hdisturbs]
      exact ⟨_, rfl⟩
    . split
      . exact ih hrest hentry
      . next hnoop =>
        obtain ⟨others, hothers⟩ := (hlegible e List.mem_cons_self).resolve_left hnoop
        rw [hothers]
        dsimp only
        split
        . exact ⟨_, rfl⟩
        . exact ih hrest hentry

theorem validateReads_conflict (hlog : log.Shows h) (hlegible : ∀ e ∈ log.entries, Legible e)
    (hentry : entry ∈ h) (hbehind : proposal.baseIndex < entry.index)
    (hwrites : WriteSet.decode entry.command = .ok writes) (hdisturbs : writes.disturbs proposal.reads = true)
    : ∃ what, validateReads log proposal = .error (.conflict what) := by
  have hreads : ¬ proposal.reads.isEmpty = true := by
    intro hempty
    unfold WriteSet.disturbs at hdisturbs
    rw [hempty] at hdisturbs
    cases hdisturbs
  unfold validateReads
  dsimp only
  rw [if_neg hreads]
  split
  . exact ⟨_, rfl⟩
  . next hkept =>
    split
    . exact ⟨_, rfl⟩
    . obtain ⟨k, hk, rfl⟩ := List.mem_iff_getElem.1 hentry
      have hindex := hlog.numbered k hk
      apply checkEntries_conflict (fun e he => hlegible e (List.mem_of_mem_filter he)) _ hwrites hdisturbs
      rw [List.mem_filter, hlog.entries, hlog.lastIndex, Bool.and_eq_true, decide_eq_true_iff,
        decide_eq_true_iff]
      refine ⟨?_, hbehind, by omega⟩
      rw [List.mem_drop_iff_getElem]
      refine ⟨k - log.snapshotIndex, by omega, ?_⟩
      congr 1
      omega

theorem propose_of_invalid (clock : Clock) (hrunning : node.halted = false) (hleads : node.role.isLeader = true)
    (hinvalid : validateReads node.log proposal = .error e)
    : propose proposal clock node = .error e node := by
  unfold propose ensureLeader
  rw [bind_assoc, bind_get, hrunning, hleads]
  dsimp only
  rw [if_neg (by decide), pure_bind, bind_get, hinvalid]
  rfl

end NodeM

namespace World

variable {ρ α β : Type} {world between after : World ρ} {me : Nat} {a : α} {b : β} {handle : Handle} {node : Node}
  {e : Error}

def Answers (world : World ρ) (me : Nat) (script : Script ρ α) (a : α) (after : World ρ) : Prop :=
  ∀ next, advance me (script next) world = advance me (next a) after

theorem answers_pure (world : World ρ) (me : Nat) (a : α) : world.Answers me (pure a) a world :=
  fun _ => rfl

theorem Answers.bind {script : Script ρ α} {f : α → Script ρ β} (h : world.Answers me script a between)
    (h' : between.Answers me (f a) b after)
    : world.Answers me (script >>= f) b after :=
  fun next => (h fun a => f a next).trans (h' next)

theorem answers_perform {effect : Effect} {reply : effect.Reply}
    (h : world.perform me effect = (some reply, after))
    : world.Answers me (Script.perform effect) reply (after.setWait me .nothing) := by
  intro next
  show advance me (.step effect next) world = _
  rw [advance, h]

theorem answers_submit_of_error {proposal : Proposal}
    (h : (world.onNode handle (NodeM.propose proposal)).1 = .error e)
    : world.Answers me (Script.submit handle proposal) (.error e)
        ((world.onNode handle (NodeM.propose proposal)).2.setWait me .nothing) := by
  have hperform : world.perform me (.propose handle proposal)
      = (some (.error e), (world.onNode handle (NodeM.propose proposal)).2) := by
    unfold perform
    dsimp only
    rw [h]
  exact (answers_perform hperform).bind (answers_pure _ me _)

theorem onNode_of_error {action : NodeM α} (hnode : world.node? handle = some node)
    (hfails : ∀ clock, action clock node = .error e node)
    : (world.onNode handle action).1 = .error e ∧
        ∀ h, (world.onNode handle action).2.node? h = world.node? h := by
  unfold onNode
  rw [hnode]
  dsimp only
  rw [hfails]
  dsimp only
  rw [List.drop_length]
  refine ⟨rfl, ?_⟩
  intro h
  rw [if_pos rfl]
  refine (lookup_map_snd world.nodes (fun h old => if h = handle then node else old) h).trans ?_
  split
  . next heq =>
    rw [heq]
    show (world.node? handle).map (fun _ => node) = world.node? handle
    rw [hnode]
    rfl
  . exact Option.map_id'

/-- A commit that was handed on is checked against every range that it lists: if an entry after its base writes
to a key in one of them, be it still in the log of the leader or in its snapshot, its answer is a conflict, and no
node changes. Only a put may be overlooked, where the list is not in order around the key, as it is in every list
that a transaction notes (`Ordered.orderedAround`). -/
theorem forwarded_checked {h : History} {request : CommitRequest} {proposal : Proposal} {entry : LogEntry}
    {writes : WriteSet} {key : Bytes} (me : Nat) (hnode : world.node? handle = some node)
    (hrunning : node.halted = false) (hleads : node.role.isLeader = true) (hlog : node.log.Shows h)
    (hlegible : ∀ e ∈ node.log.entries, NodeM.Legible e)
    (hrequest : Proposal.ofRequest request = .ok proposal) (hentry : entry ∈ h)
    (hbehind : request.baseIndex < entry.index) (hwrites : WriteSet.decode entry.command = .ok writes)
    (hwrite : writes.puts.get? key ≠ none ∨ writes.removes.Covers key) (hread : request.reads.Covers key)
    : (∃ what after, world.Answers me (Script.commitForwarded handle request) (.conflict what) after ∧
          ∀ h, after.node? h = world.node? h) ∨
        ¬ writes.removes.Covers key ∧ ¬ request.reads.OrderedAround key := by
  by_cases hfound : writes.removes.Covers key ∨ request.reads.OrderedAround key
  . left
    have hsame := Proposal.of_ofRequest hrequest
    have hdisturbs : writes.disturbs proposal.reads = true := by
      rw [hsame.2]
      exact WriteSet.disturbs_of_write hwrite hread hfound
    obtain ⟨what, hinvalid⟩ :=
      NodeM.validateReads_conflict hlog hlegible hentry (hsame.1 ▸ hbehind) hwrites hdisturbs
    obtain ⟨hreply, hafter⟩ := onNode_of_error hnode
      fun clock => NodeM.propose_of_invalid clock hrunning hleads hinvalid
    refine ⟨what, (world.onNode handle (NodeM.propose proposal)).2.setWait me .nothing, ?_, hafter⟩
    unfold Script.commitForwarded
    rw [hrequest]
    exact (answers_submit_of_error hreply).bind (answers_pure _ me _)
  . exact .inr (not_or.1 hfound)

end World

def Process.answer? {ρ : Type} : Process ρ → Option ρ
  | .answer result => some result
  | _ => none

theorem Process.eq_answer {ρ : Type} {process : Process ρ} {result : ρ} (h : process.answer? = some result)
    : process = .answer result := by
  cases process with
  | answer other =>
    cases h
    rfl
  | _ => cases h

-- A member that leads alone writes a key. A reader whose base is the entry before lists the range of that
-- key.

namespace Overlooked

def members : Cluster where
  ids := ["a"]
  distinct := by decide
  short := by decide +kernel

def key : Bytes := [0x6d]

def written : WriteSet where
  puts := KeyMap.empty.insert key [2]

def events : List Event := [
  .open "a" {} ⟨0, 10⟩,
  .act "a" ⟨20, 10⟩ .tick,
  .act "a" ⟨20, 10⟩ (.propose { baseTerm := 0, baseIndex := 0, writes := written })]

def leader? : Option Node :=
  (members.moment events 3).node? "a"

def entry : LogEntry where
  term := 1
  index := 2
  command := written.encode

def log : History := [{ term := 1, index := 1, command := [] }, entry]

-- Ranges in no order, one of them the wrong way round, but those before the range of the key begin below it.
def around : KeyRanges where
  ranges := [⟨[0x61], some [0x62]⟩, ⟨[0x6a], some [0x6b]⟩, ⟨[0x65], some [0x60]⟩, ⟨[0x6d], some [0x6e]⟩,
    ⟨[0x78], some [0x79]⟩, ⟨[0x70], some [0x71]⟩]

-- The search goes on to the last range, which begins below the key as well.
def astray : KeyRanges where
  ranges := [⟨[0x6d], some [0x6e]⟩, ⟨[0x61], some [0x62]⟩]

def reaction : WriteSet where
  puts := KeyMap.empty.insert [0x7a] [3]

def proposal (reads : KeyRanges) : Proposal where
  baseTerm := 1
  baseIndex := 1
  reads := reads
  writes := reaction

def world (node : Node) : World CommitOutcome where
  members := []
  network := .unconnected
  nodes := [(0, node)]

structure Meets (request : CommitRequest) (reads : KeyRanges) (node : Node) : Prop where
  led : leader? = some node
  running : node.halted = false
  leads : node.role.isLeader = true
  shows : node.log.Shows log
  legible : ∀ e ∈ node.log.entries, NodeM.Legible e
  arrives : Wire.decode CommitRequest (Wire.write request) = .ok request
  proposed : Proposal.ofRequest request = .ok (proposal reads)
  listed : request.reads = reads ∧ reads.Covers key
  behind : request.baseIndex < entry.index
  wrote : WriteSet.decode entry.command = .ok written ∧ written.puts.get? key ≠ none

theorem exists_meets (reads : KeyRanges) (hcovers : reads.Covers key)
    (harrives : Wire.decode CommitRequest (Wire.write (proposal reads).toRequest) = .ok (proposal reads).toRequest)
    : ∃ node, Meets (proposal reads).toRequest reads node := by
  have hseen : leader?.map (fun x => (x.halted, x.role.isLeader, x.log.snapshotIndex, x.log.snapshotTerm,
      x.log.entries)) = some (false, true, 0, 0, log) := by
    decide +kernel
  obtain ⟨node, hnode, hfacts⟩ := Option.map_eq_some_iff.1 hseen
  simp only [Prod.mk.injEq] at hfacts
  obtain ⟨hrunning, hleads, hindex, hterm, hentries⟩ := hfacts
  have hwrote : WriteSet.decode entry.command = .ok written := by decide +kernel
  have hshort : reaction.encode.length < 2 ^ 64 := by decide +kernel
  have hshows : node.log.Shows log := by
    constructor
    . unfold History.Numbered
      decide
    . rw [hindex]
      exact Nat.zero_le _
    . rw [hindex, hentries]
      rfl
    . rw [hterm, hindex]
      rfl
  have hlegible : ∀ e ∈ node.log.entries, NodeM.Legible e := by
    rw [hentries]
    intro e he
    rcases List.mem_cons.1 he with rfl | he
    . exact .inl rfl
    . rw [List.mem_singleton.1 he]
      exact .inr ⟨written, hwrote⟩
  exact ⟨node, {
    led := hnode
    running := hrunning
    leads := hleads
    shows := hshows
    legible := hlegible
    arrives := harrives
    proposed := Proposal.ofRequest_toRequest KeyRanges.ordered_empty hshort
    listed := ⟨rfl, hcovers⟩
    behind := Nat.lt_succ_self 1
    wrote := ⟨hwrote, by decide +kernel⟩ }⟩

end Overlooked

theorem World.forwarded_checked_unsorted
    : ∃ node what after, Overlooked.Meets (Overlooked.proposal Overlooked.around).toRequest Overlooked.around node ∧
        (Overlooked.world node).Answers World.main
          (Script.commitForwarded 0 (Overlooked.proposal Overlooked.around).toRequest) (.conflict what) after ∧
        ∀ h, after.node? h = (Overlooked.world node).node? h := by
  have haround : Overlooked.around.OrderedAround Overlooked.key :=
    ⟨Overlooked.around.ranges.take 3, ⟨[0x6d], some [0x6e]⟩, Overlooked.around.ranges.drop 4, rfl, by decide,
      by decide, by decide⟩
  obtain ⟨node, hmeets⟩ := Overlooked.exists_meets Overlooked.around
    ⟨⟨[0x6d], some [0x6e]⟩, by decide, by decide⟩ (by decide +kernel)
  have hnode : (Overlooked.world node).node? 0 = some node := rfl
  have hchecked := World.forwarded_checked World.main hnode hmeets.running hmeets.leads hmeets.shows
    hmeets.legible hmeets.proposed (List.mem_cons_of_mem _ List.mem_cons_self) hmeets.behind hmeets.wrote.1
    (.inl hmeets.wrote.2) hmeets.listed.2
  rcases hchecked with ⟨what, after, hanswers, hafter⟩ | ⟨-, hastray⟩
  . exact ⟨node, what, after, hmeets, hanswers, hafter⟩
  . exact absurd haround hastray

theorem World.forwarded_read_overlooked
    : ∃ node after, Overlooked.Meets (Overlooked.proposal Overlooked.astray).toRequest Overlooked.astray node ∧
        World.advance World.main
          (Script.commitForwarded 0 (Overlooked.proposal Overlooked.astray).toRequest).toProcess
          (Overlooked.world node) = (.answer (.committed 1 3), after) ∧
        (after.node? 0).map (·.log.lastIndex) = some 3 := by
  obtain ⟨node, hmeets⟩ := Overlooked.exists_meets Overlooked.astray
    ⟨⟨[0x6d], some [0x6e]⟩, by decide, by decide⟩ (by decide +kernel)
  have hran : Overlooked.leader?.map (fun node =>
      let result := World.advance World.main
        (Script.commitForwarded 0 (Overlooked.proposal Overlooked.astray).toRequest).toProcess (Overlooked.world node)
      (result.1.answer?, (result.2.node? 0).map (·.log.lastIndex))) = some (some (.committed 1 3), some 3) := by
    decide +kernel
  rw [hmeets.led, Option.map_some, Option.some.injEq, Prod.mk.injEq] at hran
  exact ⟨node, _, hmeets, Prod.ext (Process.eq_answer hran.1) rfl, hran.2⟩

end ReplicatedStore
