import Mathlib.Data.List.Induction
import ReplicatedStore.Proofs.Consensus.Invariance
import ReplicatedStore.Proofs.Storage.Faltering

/-!
What a node that acknowledges entries has of them on its disk: with the policy `always` a loss of power
leaves all entries of its log, except those that a failed request left in memory and that nothing has
forced to the disk since.
-/

namespace ReplicatedStore

namespace NodeM

open LogStore

variable {α : Type} {clock : Clock} {x : Node} {snapshot : Option Snapshot}

theorem yields_onLog {operation : LogM α} {Q : α → LogStore → Prop} {E : LogStore → Prop}
    (h : EStateM.Yields Q E (operation x.log))
    : EStateM.Yields (fun a y => ∃ log, y = { x with log } ∧ Q a log)
        (fun y => ∃ log, y = { x with log } ∧ E log) (onLog operation clock x) := by
  cases hr : operation x.log with
  | ok a log =>
    rw [hr] at h
    rw [onLog_ok hr]
    exact ⟨log, rfl, h⟩
  | error e log =>
    rw [hr] at h
    rw [onLog_error hr]
    exact ⟨log, rfl, h⟩

theorem logName_ne_hardState
    : logName ≠ HardState.fileName ∧ logName ≠ Disk.temporary HardState.fileName := by
  decide

theorem snapshotName_ne_hardState
    : snapshotName ≠ HardState.fileName ∧ snapshotName ≠ Disk.temporary HardState.fileName := by
  decide

theorem moves_of_touches {log : LogStore} {disk : Volume} (h : log.Standing) (hk : log.Knows snapshot)
    (htouches : log.disk.Touches disk HardState.fileName)
    : Moves snapshot log { log with disk } := by
  obtain ⟨records, durable, hcoherent⟩ := h.coherent
  obtain ⟨written, hfile, hbytes⟩ := hcoherent.carries.file
  have hlog := htouches.other _ logName_ne_hardState.1 logName_ne_hardState.2
  have hkeeps : log.Keeps { log with disk } := {
    snapshotIndex := rfl
    snapshotTerm := rfl
    policy := rfl
    plan := htouches.plan
    snapshot := htouches.other _ snapshotName_ne_hardState.1 snapshotName_ne_hardState.2 }
  have hcarries : Carries { log with disk } (records.flatMap LogRecord.encode) durable :=
    ⟨htouches.sound, written, hlog.trans hfile, hbytes⟩
  apply hkeeps.moves h hk
  . exact ⟨⟨hcoherent.fit, hcoherent.selects, hcoherent.parallel, hcoherent.fileLength⟩, hcarries⟩
  . exact .carried rfl fun e he => he.of_carries hcoherent.carries hcarries hkeeps.snapshot

theorem yields_saveHardState (h : x.log.Standing) (hk : x.log.Knows snapshot)
    : EStateM.Yields
        (fun _ y => Moves snapshot x.log y.log ∧ y.log.entries = x.log.entries)
        (fun y => Moves snapshot x.log y.log ∧ y.log.entries = x.log.entries)
        (saveHardState clock x) := by
  obtain ⟨records, durable, hcoherent⟩ := h.coherent
  unfold saveHardState
  rw [bind_get]
  apply (yields_onLog (yields_onDisk (Disk.yields_replace hcoherent.carries.sound _ _))).imp
  . rintro _ _ ⟨_, rfl, disk, rfl, htouches, -⟩
    exact ⟨moves_of_touches h hk htouches, rfl⟩
  . rintro _ ⟨_, rfl, disk, rfl, htouches, -⟩
    exact ⟨moves_of_touches h hk htouches, rfl⟩

theorem yields_adoptTerm (h : x.log.Standing) (hk : x.log.Knows snapshot) (term : Nat)
    (leader : Option NodeId)
    : EStateM.Yields
        (fun _ y => Moves snapshot x.log y.log ∧ y.log.entries = x.log.entries)
        (fun y => Moves snapshot x.log y.log ∧ y.log.entries = x.log.entries)
        (adoptTerm term leader clock x) := by
  unfold adoptTerm
  rw [bind_get]
  split
  . rw [bind_modify]
    apply EStateM.Yields.bind (x := saveHardState clock)
      (yields_saveHardState (x := { x with hard := { term } }) h hk)
    . exact fun _ hy => hy
    . exact fun _ _ hy => hy
  . exact ⟨.refl h hk, rfl⟩

theorem yields_follow (h : x.log.Standing) (hk : x.log.Knows snapshot) (term : Nat) (leader : NodeId)
    : EStateM.Yields
        (fun _ y => Moves snapshot x.log y.log ∧ y.log.entries = x.log.entries)
        (fun y => Moves snapshot x.log y.log ∧ y.log.entries = x.log.entries)
        (follow term leader clock x) := by
  unfold follow
  apply EStateM.Yields.bind (x := adoptTerm term (some leader) clock) (yields_adoptTerm h hk term _)
  . exact fun _ hy => hy
  . exact fun _ _ hy => hy

theorem yields_reconcile (h : x.log.Standing) (hk : x.log.Knows snapshot) (index : Nat)
    (entries : List LogEntry)
    : EStateM.Yields
        (fun missing y => Moves snapshot x.log y.log ∧ missing ⊆ entries ∧
          (y.log = x.log ∨ ∃ entry rest, missing = entry :: rest ∧ entry ∉ x.log.entries))
        (fun y => x.log.Falters y.log)
        (reconcile index entries clock x) := by
  induction entries with
  | nil => exact ⟨.refl h hk, fun _ he => he, .inl rfl⟩
  | cons entry rest ih =>
    have hrest : EStateM.Yields
        (fun missing y => Moves snapshot x.log y.log ∧ missing ⊆ entry :: rest ∧
          (y.log = x.log ∨ ∃ entry rest, missing = entry :: rest ∧ entry ∉ x.log.entries))
        (fun y => x.log.Falters y.log)
        (reconcile index rest clock x) := by
      apply ih.imp
      . rintro missing y ⟨hmoves, hsub, houtcome⟩
        exact ⟨hmoves, fun e he => List.mem_cons_of_mem _ (hsub he), houtcome⟩
      . exact fun _ hy => hy
    have hmissing : entry :: rest.filter (index < ·.index) ⊆ entry :: rest :=
      List.cons_subset_cons _ List.filter_sublist.subset
    unfold reconcile
    split
    . exact hrest
    rw [bind_get]
    dsimp only
    cases hterm : x.log.termAt? entry.index with
    | none => exact ⟨.refl h hk, hmissing, .inl rfl⟩
    | some term =>
      dsimp only
      split
      . exact hrest
      next hne =>
      rw [bind_get]
      split
      . exact (Moves.refl h hk).falters
      apply EStateM.Yields.bind (x := onLog (discardFrom entry.index) clock)
        (yields_onLog (h.yields_discardFrom hk entry.index))
      . rintro _ ⟨log, rfl, hfalters⟩
        exact hfalters
      rintro _ _ ⟨log, rfl, hmoves⟩
      beta_reduce
      rw [bind_of_ok (rejectFrom_eq entry.index)]
      refine ⟨hmoves, hmissing, .inr ⟨entry, _, rfl, ?_⟩⟩
      -- the log has another term there
      intro hmem
      obtain ⟨records, durable, hcoherent⟩ := h.coherent
      rw [termAt?_of_mem hcoherent.follows hmem] at hterm
      exact hne (Option.some.inj hterm).symm

theorem yields_appendMissing {y : Node} {missing : List LogEntry} (hmoves : Moves snapshot x.log y.log)
    (hfirst : y.log = x.log ∨ ∃ entry rest, missing = entry :: rest ∧ entry ∉ x.log.entries)
    (hrange : ∀ e ∈ missing, e.InRange)
    : EStateM.Yields (fun _ z => Moves snapshot x.log z.log) (fun z => x.log.Falters z.log)
        (onLog (append missing) clock y) := by
  apply (yields_onLog (hmoves.standing.yields_append hmoves.knows hrange)).imp
  . rintro _ _ ⟨log, rfl, hmoves'⟩
    exact hmoves.trans hmoves'
  rintro _ ⟨log, rfl, hstanding, hlasts, hfollows, n, hentries⟩
  refine ⟨hstanding, ?_⟩
  intro e he hheld hx
  have hlasts' : e ∈ y.log.entries → Lasts log.disk e := fun he => hlasts e (hmoves.turns.lasts hx he)
  rcases hfirst with hsame | ⟨entry, rest, rfl, hnew⟩
  . apply hlasts'
    rw [hsame]
    exact hheld e he (Nat.le_refl _)
  dsimp only at he hheld
  rw [hentries] at he hheld hfollows
  rcases List.mem_append.1 he with he | he
  . exact hlasts' he
  . -- the first that was added comes before it, and was not there
    exfalso
    cases n with
    | zero => cases he
    | succ n =>
      have hright := hfollows.right
      rw [List.take_succ_cons] at he hheld hright
      have hlt := hright.lt_of_mem he
      have hfirst := hright.1
      exact hnew (hheld entry (by simp) (by omega))

inductive Compacts (log : LogStore) : LogStore → Prop where
  | none : Compacts log log
  | put {e : LogEntry} {data : Bytes} (he : e ∈ log.entries)
      : Compacts log (log.after (.putSnapshot e.index e.term data))

theorem Compacts.standing {log log' : LogStore} (hc : Compacts log log') (h : log.Standing)
    (hk : log.Knows snapshot) (hin : log'.InStep)
    : log'.Standing ∧ log.Turns log' := by
  cases hc with
  | none => exact ⟨h, .carried rfl fun _ h => h⟩
  | put he => exact h.after_putSnapshot hk he hin

theorem yields_compact (hfollows : Follows x.log.snapshotIndex x.log.entries)
    : EStateM.Yields (fun _ y => Compacts x.log y.log) (fun _ => False) (compact clock x) := by
  unfold compact
  rw [bind_get]
  split
  . exact .none
  next hbehind =>
  cases hterm : x.log.termAt? x.lastApplied with
  | none => exact .none
  | some term =>
    obtain ⟨e, he, hindex, rfl⟩ := mem_of_termAt? hfollows (by omega) hterm
    obtain ⟨result, hattempt⟩ := attempt_putSnapshot clock x x.lastApplied e.term x.map.encode
    dsimp only
    rw [bind_of_ok hattempt, ← hindex]
    exact .put he

theorem yields_applyNext (count : Nat)
    : EStateM.Yields (fun _ y => y.log = x.log) (fun _ => False) (applyNext count clock x) := by
  induction count generalizing x with
  | zero => exact rfl
  | succ count ih =>
    unfold applyNext
    rw [bind_get]
    cases x.log.get? (x.lastApplied + 1) with
    | none => exact rfl
    | some entry =>
      dsimp only
      cases change entry x.map with
      | error e => exact rfl
      | ok map =>
        dsimp only
        rw [bind_modify]
        have hresolve := @resolve_eq clock { x with map, lastApplied := x.lastApplied + 1 }
          (x.lastApplied + 1) entry.term
        cases hwaiter : x.pending.lookup (x.lastApplied + 1) with
        | none =>
          rw [hwaiter] at hresolve
          rw [bind_of_ok hresolve]
          exact ih (x := { x with map, lastApplied := x.lastApplied + 1 })
        | some waiter =>
          rw [hwaiter] at hresolve
          rw [bind_of_ok hresolve]
          exact ih

theorem yields_applyBacklog (hfollows : Follows x.log.snapshotIndex x.log.entries)
    : EStateM.Yields (fun _ y => Compacts x.log y.log) (fun _ => False) (applyBacklog clock x) := by
  unfold applyBacklog
  rw [bind_get]
  split
  . exact .none
  apply EStateM.Yields.bind (x := applyNext _ clock) (yields_applyNext _)
  . exact fun _ hy => hy
  intro applied y hlog
  rw [← hlog] at hfollows ⊢
  beta_reduce
  split
  . rw [bind_modify]
    exact yields_compact (x := { y with announced := y.lastApplied }) hfollows
  . exact .none

theorem yields_commitThrough (hfollows : Follows x.log.snapshotIndex x.log.entries) (index : Nat)
    : EStateM.Yields (fun _ y => Compacts x.log y.log) (fun _ => False) (commitThrough index clock x) := by
  unfold commitThrough
  rw [bind_get]
  split
  . rw [bind_modify]
    exact yields_applyBacklog (x := { x with commitIndex := index }) hfollows
  . exact .none

theorem yields_onAppendRequest {request : AppendRequest} (h : x.log.Standing) (hk : x.log.Knows snapshot)
    (hrange : ∀ e ∈ request.entries, e.InRange)
    : EStateM.Yields (fun _ y => y.log.InStep → y.log.Standing ∧ x.log.Turns y.log)
        (fun y => x.log.Falters y.log) (onAppendRequest request clock x) := by
  have hidle := Moves.refl h hk
  unfold onAppendRequest ensureRunning
  rw [bind_assoc, bind_get]
  split
  . exact hidle.falters
  rw [pure_bind, bind_get]
  split
  . exact fun _ => ⟨h, hidle.turns⟩
  apply EStateM.Yields.bind (x := follow request.term request.leader clock) (yields_follow h hk _ _)
  . exact fun _ hy => hy.1.falters
  rintro _ y ⟨hfollowed, hsame⟩
  beta_reduce
  rw [bind_get]
  dsimp only
  split
  . exact fun _ => ⟨hfollowed.standing, hfollowed.turns⟩
  apply EStateM.Yields.bind (x := reconcile y.log.snapshotIndex request.entries clock)
    (yields_reconcile hfollowed.standing hfollowed.knows _ _)
  . exact fun _ hfalters => hfollowed.falters_trans hsame hfalters
  rintro missing z ⟨hreconciled, hsub, hfirst⟩
  apply EStateM.Yields.bind (x := onLog (append missing) clock)
    (yields_appendMissing hreconciled hfirst fun e he => hrange e (hsub he))
  . exact fun _ hfalters => hfollowed.falters_trans hsame hfalters
  intro _ w happended
  have hmoves := hfollowed.trans happended
  obtain ⟨records, durable, hcoherent⟩ := hmoves.standing.coherent
  apply EStateM.Yields.bind (x := commitThrough _ clock) (yields_commitThrough hcoherent.follows _)
  . exact fun _ hfalse => hfalse.elim
  intro _ u hcompacts hin
  obtain ⟨hstanding, hturns⟩ := hcompacts.standing hmoves.standing hmoves.knows hin
  exact ⟨hstanding, hmoves.turns.trans hturns⟩

end NodeM

namespace Node

def after (node : Node) (request : AppendRequest × Clock) : Node :=
  match NodeM.onAppendRequest request.1 request.2 node with
  | .ok _ node => node
  | .error _ node => node

def answer? (node : Node) (request : AppendRequest × Clock) : Option AppendResponse :=
  EStateM.value? (NodeM.onAppendRequest request.1 request.2 node)

def serve (node : Node) (requests : List (AppendRequest × Clock)) : Node :=
  requests.foldl after node

inductive Lingers (directory : Volume) (node : Node) (e : LogEntry)
    : List (AppendRequest × Clock) → Prop where
  | opened (held : e ∈ node.log.entries)
      (unforced : ¬ ∃ content, directory.Holds LogStore.logName content) :
    Lingers directory node e []
  | failed {requests request} (held : e ∈ (node.serve (requests ++ [request])).log.entries)
      (unanswered : (node.serve requests).answer? request = none)
      (added : ∃ e' ∈ (node.serve (requests ++ [request])).log.entries, e'.index ≤ e.index ∧
        e' ∉ (node.serve requests).log.entries) :
    Lingers directory node e (requests ++ [request])
  | stays {requests request} (lingers : Lingers directory node e requests)
      (unchanged : (node.serve requests).answer? request ≠ none →
        (node.serve (requests ++ [request])).log.entries = (node.serve requests).log.entries) :
    Lingers directory node e (requests ++ [request])

open LogStore

variable {x node : Node} {request : AppendRequest × Clock} {requests : List (AppendRequest × Clock)}
  {v v' : Volume} {e : LogEntry}

theorem serve_append (node : Node) (requests : List (AppendRequest × Clock))
    (request : AppendRequest × Clock)
    : node.serve (requests ++ [request]) = (node.serve requests).after request := by
  unfold serve
  rw [List.foldl_append]
  rfl

theorem standing_after (h : x.log.Standing) (hk : ∃ snapshot, x.log.Knows snapshot)
    (hrange : ∀ e ∈ request.1.entries, e.InRange) (hin : (x.after request).log.InStep)
    : (x.after request).log.Standing ∧
        ((∃ answer, x.answer? request = some answer) ∧ x.log.Turns (x.after request).log ∨
          x.answer? request = none ∧ x.log.Falters (x.after request).log) := by
  obtain ⟨snapshot, hk⟩ := hk
  have hyields : EStateM.Yields _ _ (NodeM.onAppendRequest request.1 request.2 x) :=
    NodeM.yields_onAppendRequest h hk hrange
  unfold after at hin ⊢
  unfold answer?
  cases hresult : NodeM.onAppendRequest request.1 request.2 x with
  | ok answer y =>
    rw [hresult] at hyields hin
    obtain ⟨hstanding, hturns⟩ := hyields hin
    exact ⟨hstanding, .inl ⟨⟨answer, rfl⟩, hturns⟩⟩
  | error error y =>
    rw [hresult] at hyields hin
    exact ⟨hyields.standing hin.aligned, .inr ⟨rfl, hyields⟩⟩

theorem lasts_of_turns (h : x.log.Turns (x.after request).log) {P : Prop}
    (hx : e ∈ x.log.entries → Lasts x.log.disk e ∨ P)
    (he : e ∈ (x.after request).log.entries)
    : Lasts (x.after request).log.disk e ∨ P ∧ (x.after request).log.entries = x.log.entries := by
  cases h with
  | forced lasts => exact .inl (lasts e he)
  | carried entries lasts =>
    rw [entries] at he
    exact (hx he).imp (lasts e) fun hlingers => ⟨hlingers, entries⟩

theorem serve_lasts (h : node.log.Standing)
    (hopened : ∀ e ∈ node.log.entries, Lasts node.log.disk e ∨ node.Lingers v e [])
    (hrange : ∀ request ∈ requests, ∀ e ∈ request.1.entries, e.InRange)
    (hstep : ∀ served, served <+: requests → (node.serve served).log.InStep)
    : (node.serve requests).log.Standing ∧
        ∀ e ∈ (node.serve requests).log.entries,
          Lasts (node.serve requests).log.disk e ∨ node.Lingers v e requests := by
  -- from the back: each request is served by what the ones before it left
  induction requests using List.reverseRecOn with
  | nil => exact ⟨h, hopened⟩
  | append_singleton requests request ih =>
    obtain ⟨hstanding, hlasts⟩ := ih
      (fun r hr => hrange r (List.mem_append_left _ hr))
      fun served hserved => hstep served (hserved.trans (List.prefix_append _ _))
    have hin := hstep _ (List.prefix_refl _)
    have hknows := (hstep requests (List.prefix_append _ _)).knows
    have hentries := hrange request (by simp)
    have hlater := serve_append node requests request
    rw [hlater] at hin ⊢
    obtain ⟨hstanding', hanswered | hfailed⟩ := standing_after hstanding hknows hentries hin
    . refine ⟨hstanding', fun e he => ?_⟩
      apply (lasts_of_turns hanswered.2 (hlasts e) he).imp_right
      rintro ⟨hlingers, hsame⟩
      refine .stays hlingers fun _ => ?_
      rw [hlater]
      exact hsame
    . obtain ⟨hnone, hfalters⟩ := hfailed
      refine ⟨hstanding', fun e he => ?_⟩
      by_cases hheld : ∀ e' ∈ ((node.serve requests).after request).log.entries, e'.index ≤ e.index →
          e' ∈ (node.serve requests).log.entries
      . apply (hlasts e (hheld e he (Nat.le_refl _))).imp (hfalters.lasts e he hheld)
        exact fun hlingers => .stays hlingers fun hanswer => (hanswer hnone).elim
      . push Not at hheld
        rw [← hlater] at he hheld
        exact .inr (.failed he hnone hheld)

theorem yields_open (id : NodeId) (members : List NodeId) (config : ConsensusConfig) (clock : Clock)
    (v : Volume)
    : EStateM.Yields (fun node _ => ∃ v', LogStore.open config.policy v = .ok node.log v')
        (fun _ => True) (Node.open id members config clock v) := by
  have htrivial : ∀ {α : Type} (r : EStateM.Result Error Volume α),
      EStateM.Yields (fun _ _ => True) (fun _ => True) r := by
    rintro α (_ | _) <;> trivial
  unfold Node.open
  cases hlog : LogStore.open config.policy v with
  | error e v₁ =>
    rw [EStateM.bind_of_error hlog]
    trivial
  | ok log v₁ =>
    rw [EStateM.bind_of_ok hlog]
    apply (htrivial (HardState.load v₁)).bind
    . exact fun _ h => h
    intro hard v₂ _
    apply (htrivial (readSnapshot v₂)).bind
    . exact fun _ h => h
    intro snapshot v₃ _
    cases snapshot with
    | none => exact ⟨v₁, rfl⟩
    | some snapshot =>
      dsimp only
      cases KeyMap.decode snapshot.data with
      | ok map => exact ⟨v₁, rfl⟩
      | error e => trivial

theorem standing_of_open {id : NodeId} {members : List NodeId} {config : ConsensusConfig} {clock : Clock}
    (hv : v.calmed.Sound) (hsettled : ∃ content, v.Holds snapshotName content)
    (halways : config.policy = .always) (hopen : Node.open id members config clock v = .ok node v')
    (hk : ∃ snapshot, node.log.Knows snapshot)
    : node.log.Standing ∧ ∀ e ∈ node.log.entries, Lasts node.log.disk e ∨ node.Lingers v e [] := by
  have hlog := yields_open id members config clock v
  rw [hopen] at hlog
  obtain ⟨v₁, hlog⟩ := hlog
  rw [halways] at hlog
  obtain ⟨_, records, -, -, -, -, hopens⟩ := opens_of_ok hv hlog
  have hstanding := hopens.standing hsettled
  obtain ⟨durable, hcoherent, hforced⟩ := hopens.coherent
  refine ⟨hstanding, fun e he => ?_⟩
  by_cases hfile : ∃ content, v.Holds logName content
  . obtain ⟨content, hholds⟩ := hfile
    rw [hforced content hholds] at hcoherent
    obtain ⟨snapshot, hk⟩ := hk
    exact .inl (hcoherent.lasts hstanding.settled hk he)
  . exact .inr (.opened he hfile)

end Node

/-- With the policy `always`, and whatever fails, as long as the log is in step with its files: when a node
answers a request, a loss of power leaves every entry of its log, those that the answer acknowledges among
them, unless the entry lingered in memory before and the answer left the entries as they were. -/
theorem acknowledged_recovered {v v' : Volume} {id : NodeId} {members : List NodeId}
    {config : ConsensusConfig} {clock : Clock} {node : Node} (hv : v.calmed.Sound)
    (hsettled : ∃ content, v.Holds LogStore.snapshotName content) (halways : config.policy = .always)
    (hopen : Node.open id members config clock v = .ok node v') {requests : List (AppendRequest × Clock)}
    {request : AppendRequest × Clock}
    (hrange : ∀ r ∈ requests ++ [request], ∀ e ∈ r.1.entries, e.InRange)
    (hstep : ∀ served, served <+: requests ++ [request] → (node.serve served).log.InStep)
    {answer : AppendResponse} (hanswer : (node.serve requests).answer? request = some answer) {e : LogEntry}
    (he : e ∈ (node.serve (requests ++ [request])).log.entries) (policy : SyncPolicy)
    : (∃ log, LogStore.open policy (node.serve (requests ++ [request])).log.disk.crash.calmed
          = .ok log log.disk ∧ log.get? e.index = some e) ∨
        node.Lingers v e requests ∧
          (node.serve (requests ++ [request])).log.entries = (node.serve requests).log.entries := by
  obtain ⟨hopened, hread⟩ := Node.standing_of_open hv hsettled halways hopen
    (hstep [] (List.nil_prefix)).knows
  obtain ⟨hstanding, hlasts⟩ := Node.serve_lasts hopened hread
    (fun r hr => hrange r (List.mem_append_left _ hr))
    fun served hserved => hstep served (hserved.trans (List.prefix_append _ _))
  have hin := hstep _ (List.prefix_refl _)
  have hknows := (hstep requests (List.prefix_append _ _)).knows
  have hentries := hrange request (by simp)
  rw [Node.serve_append] at he hin ⊢
  obtain ⟨hstanding', ⟨-, hturns⟩ | ⟨hnone, -⟩⟩ := Node.standing_after hstanding hknows hentries hin
  . apply (Node.lasts_of_turns hturns (hlasts e) he).imp_left
    intro hlasts'
    obtain ⟨records, durable, hcoherent⟩ := hstanding'.coherent
    obtain ⟨snapshot, hk⟩ := hin.knows
    exact hlasts'.recover_entry hk hcoherent.follows he policy
  . rw [hanswer] at hnone
    cases hnone

namespace Resent

-- The hard state is saved and the first entry is written, but not forced to the disk.
def plan : List (Option Fault) :=
  [none, none, none, none, none, some {}]

def clock : Clock := ⟨0, 0⟩

def node : Node where
  id := "a"
  peers := ["b", "c"]
  config := {}
  log := LogStore.fresh .always plan

def request (entries : List LogEntry) : AppendRequest × Clock :=
  ({ term := 1, leader := "b", prevIndex := 0, prevTerm := 0, entries, commit := 0 }, clock)

def first : AppendRequest × Clock := request [⟨1, 1, [1]⟩]

def second : AppendRequest × Clock := request [⟨1, 1, [1]⟩, ⟨1, 2, [2]⟩]

theorem open_node
    : Node.open "a" ["a", "b", "c"] {} clock { plan := none :: none :: plan } = .ok node node.log.disk := by
  rfl

end Resent

theorem acknowledged_recovered_resent
    : (∃ log, LogStore.open .never
          (Resent.node.serve ([Resent.first] ++ [Resent.second])).log.disk.crash.calmed = .ok log log.disk ∧
          log.get? 1 = some ⟨1, 1, [1]⟩) ∨
        Resent.node.Lingers { plan := none :: none :: Resent.plan } ⟨1, 1, [1]⟩ [Resent.first] ∧
          (Resent.node.serve ([Resent.first] ++ [Resent.second])).log.entries
            = (Resent.node.serve [Resent.first]).log.entries := by
  have hsound : (Volume.calmed { plan := none :: none :: Resent.plan }).Sound := Volume.sound_empty
  have hrange : ∀ r ∈ [Resent.first] ++ [Resent.second], ∀ e ∈ r.1.entries, e.InRange := by
    decide
  have htake : ∀ n ≤ 2, (Resent.node.serve (([Resent.first] ++ [Resent.second]).take n)).log.InStep := by
    decide +kernel
  have hstep : ∀ served, served <+: [Resent.first] ++ [Resent.second] →
      (Resent.node.serve served).log.InStep := by
    intro served hserved
    rw [List.prefix_iff_eq_take.1 hserved]
    exact htake _ hserved.length_le
  have hanswer : (Resent.node.serve [Resent.first]).answer? Resent.second = some ⟨1, true, 2, 0⟩ := by
    decide +kernel
  have he : (⟨1, 1, [1]⟩ : LogEntry) ∈
      (Resent.node.serve ([Resent.first] ++ [Resent.second])).log.entries := by
    decide +kernel
  exact acknowledged_recovered hsound ⟨none, rfl⟩ rfl Resent.open_node hrange hstep hanswer he .never

theorem acknowledged_lost
    : ∃ log v', Node.open "a" ["a", "b", "c"] {} Resent.clock { plan := none :: none :: Resent.plan }
          = .ok Resent.node Resent.node.log.disk ∧
        (Resent.node.serve [Resent.first]).answer? Resent.first = some ⟨1, true, 1, 0⟩ ∧
        (Resent.node.serve [Resent.first, Resent.first]).log.get? 1 = some ⟨1, 1, [1]⟩ ∧
        LogStore.open .always (Resent.node.serve [Resent.first, Resent.first]).log.disk.crash.calmed
          = .ok log v' ∧
        log.get? 1 = none := by
  have hlost : (EStateM.value? (LogStore.open .always
      (Resent.node.serve [Resent.first, Resent.first]).log.disk.crash.calmed)).map (·.get? 1)
        = some none := by
    decide +kernel
  obtain ⟨log, hvalue, hget⟩ := Option.map_eq_some_iff.1 hlost
  obtain ⟨v', hopen⟩ := EStateM.eq_ok_of_value? hvalue
  exact ⟨log, v', Resent.open_node, by decide +kernel, by decide +kernel, hopen, hget⟩

end ReplicatedStore
