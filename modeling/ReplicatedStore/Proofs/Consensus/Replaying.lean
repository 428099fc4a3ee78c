import ReplicatedStore.Proofs.Consensus.Acknowledging
import ReplicatedStore.Proofs.Consensus.Preserving
import ReplicatedStore.Proofs.KeySpace.KeyMap
import ReplicatedStore.Proofs.Storage.Folding
import ReplicatedStore.StandaloneStore

/-!
The map of a node as what its log leads to: the map of the snapshot in its directory, and on it the entries
that were applied since. Each handler keeps this, whatever it is given, as long as no step on the directory
fails.
-/

namespace ReplicatedStore

namespace LogStore

variable {log log' : LogStore} {base map : KeyMap} {applied committed : Nat} {records added : List LogEntry}
  {durable : Bytes}

def Founds (log : LogStore) (base : KeyMap) : Prop :=
  (∃ snapshot, log.Knows snapshot ∧ StandaloneStore.restore snapshot = .ok base) ∨
    ∃ snapshot : Snapshot, snapshot.Fits ∧ 2 ^ 64 ≤ snapshot.data.length ∧
      log.disk.Holds snapshotName (some snapshot.encode)

structure Explains (log : LogStore) (applied committed : Nat) (map : KeyMap) : Prop where
  covered : log.snapshotIndex ≤ applied
  committed : applied ≤ committed
  held : applied ≤ log.lastIndex
  replayed : ∃ base, log.Founds base ∧
    (log.entries.take (applied - log.snapshotIndex)).foldlM (fun map entry => NodeM.change entry map) base
      = .ok map

theorem Keeps.founds (h : log.Keeps log') (hfounds : log.Founds base) : log'.Founds base := by
  rcases hfounds with ⟨snapshot, hknows, hrestore⟩ | ⟨snapshot, hfits, hlong, hholds⟩
  . exact .inl ⟨snapshot, h.knows hknows, hrestore⟩
  . exact .inr ⟨snapshot, hfits, hlong, hholds.of_eq h.snapshot⟩

theorem founds_of_holds {snapshot : Snapshot} (hfits : snapshot.Fits)
    (hholds : log.disk.Holds snapshotName (some snapshot.encode))
    (hindex : log.snapshotIndex = snapshot.index)
    (hterm : log.snapshotTerm = snapshot.term)
    (hdecode : snapshot.data.length < 2 ^ 64 → KeyMap.decode snapshot.data = .ok base)
    : log.Founds base := by
  rcases Nat.lt_or_ge snapshot.data.length (2 ^ 64) with hshort | hlong
  . refine .inl ⟨some snapshot, ⟨?_, hindex, hterm⟩, hdecode hshort⟩
    rw [readSnapshot_encode hfits hholds, if_pos hshort]
  . exact .inr ⟨snapshot, hfits, hlong, hholds⟩

theorem Explains.of_keeps (h : log.Explains applied committed map) (hkeeps : log.Keeps log')
    (hentries : log'.entries.take (applied - log.snapshotIndex)
      = log.entries.take (applied - log.snapshotIndex))
    (hheld : applied ≤ log'.lastIndex)
    : log'.Explains applied committed map := by
  obtain ⟨base, hfounds, hreplayed⟩ := h.replayed
  refine ⟨?_, h.committed, hheld, base, hkeeps.founds hfounds, ?_⟩
  . rw [hkeeps.snapshotIndex]
    exact h.covered
  . rw [hkeeps.snapshotIndex, hentries]
    exact hreplayed

theorem Explains.applied_le (h : log.Explains applied committed map)
    (hcoherent : log.Coherent records durable)
    : applied - log.snapshotIndex ≤ log.entries.length := by
  have hheld := h.held
  rw [lastIndex_eq hcoherent.follows] at hheld
  omega

theorem Explains.of_extends (h : log.Explains applied committed map)
    (hcoherent : log.Coherent records durable)
    {records' : List LogEntry} {durable' : Bytes} (hcoherent' : log'.Coherent records' durable')
    (hextends : log.Extends log' added)
    : log'.Explains applied committed map := by
  apply h.of_keeps hextends.toKeeps
  . rw [hextends.entries, List.take_append_of_le_length (h.applied_le hcoherent)]
  . have hheld := h.held
    rw [lastIndex_eq hcoherent.follows] at hheld
    rw [lastIndex_eq hcoherent'.follows, hextends.snapshotIndex, hextends.entries, List.length_append]
    omega

theorem Explains.of_discards (h : log.Explains applied committed map)
    (hcoherent : log.Coherent records durable)
    {records' : List LogEntry} {durable' : Bytes} (hcoherent' : log'.Coherent records' durable') {index : Nat}
    (hdiscards : log.Discards log' index records durable) (hindex : committed < index)
    : log'.Explains applied committed map := by
  have hcommitted := h.committed
  have hcovered := h.covered
  have happlied := h.applied_le hcoherent
  have hheld := h.held
  rw [lastIndex_eq hcoherent.follows] at hheld
  rcases hdiscards.outcome with ⟨hentries, -⟩ | ⟨hentries, -⟩
  . apply h.of_keeps hdiscards.toKeeps
    . rw [hentries]
    . rw [lastIndex_eq hcoherent'.follows, hdiscards.snapshotIndex, hentries]
      exact hheld
  . have hle : applied - log.snapshotIndex ≤ log.position index := by
      unfold position
      omega
    apply h.of_keeps hdiscards.toKeeps
    . rw [hentries, List.take_take, Nat.min_eq_left hle]
    . rw [lastIndex_eq hcoherent'.follows, hdiscards.snapshotIndex, hentries, List.length_take]
      omega

theorem Explains.commit (h : log.Explains applied committed map) {index : Nat} (hindex : committed ≤ index)
    : log.Explains applied index map :=
  { h with committed := Nat.le_trans h.committed hindex }

theorem Explains.succ (h : log.Explains applied committed map) (hcoherent : log.Coherent records durable)
    (hlt : applied < committed) {entry : LogEntry} (hget : log.get? (applied + 1) = some entry)
    {map' : KeyMap}
    (hchange : NodeM.change entry map = .ok map')
    : log.Explains (applied + 1) committed map' := by
  have hcovered := h.covered
  unfold get? position at hget
  rw [if_neg (by omega),
    show applied + 1 - log.snapshotIndex - 1 = applied - log.snapshotIndex by omega] at hget
  obtain ⟨hposition, rfl⟩ := List.getElem?_eq_some_iff.1 hget
  refine ⟨Nat.le_succ_of_le hcovered, hlt, ?_, ?_⟩
  . rw [lastIndex_eq hcoherent.follows]
    omega
  . obtain ⟨base, hfounds, hreplayed⟩ := h.replayed
    refine ⟨base, hfounds, ?_⟩
    rw [show applied + 1 - log.snapshotIndex = applied - log.snapshotIndex + 1 by omega,
      List.take_succ_eq_append_getElem hposition, List.foldlM_append, hreplayed]
    show List.foldlM (fun map entry => NodeM.change entry map) map [_] = .ok map'
    rw [List.foldlM_cons, hchange]
    rfl

theorem explains_of_holds {snapshot : Snapshot} (hcoherent : log.Coherent records durable)
    (hfits : snapshot.Fits)
    (hholds : log.disk.Holds snapshotName (some snapshot.encode))
    (hindex : log.snapshotIndex = snapshot.index)
    (hterm : log.snapshotTerm = snapshot.term)
    (hdecode : snapshot.data.length < 2 ^ 64 → KeyMap.decode snapshot.data = .ok map)
    (hcommitted : snapshot.index ≤ committed)
    : log.Explains snapshot.index committed map := by
  refine ⟨Nat.le_of_eq hindex, hcommitted, ?_, map, founds_of_holds hfits hholds hindex hterm hdecode, ?_⟩
  . rw [lastIndex_eq hcoherent.follows, hindex]
    exact Nat.le_add_right _ _
  . rw [hindex, Nat.sub_self]
    rfl

end LogStore

def Request.InRange : Request → Prop
  | .append request => ∀ e ∈ request.entries, e.InRange
  | .snapshot request => Snapshot.Fits ⟨request.index, request.indexTerm, request.data⟩
  | _ => True

instance : (request : Request) → Decidable request.InRange
  | .append request => inferInstanceAs (Decidable (∀ e ∈ request.entries, e.InRange))
  | .snapshot request =>
    inferInstanceAs (Decidable (Snapshot.Fits ⟨request.index, request.indexTerm, request.data⟩))
  | .vote _ => isTrue trivial
  | .commit _ => isTrue trivial

structure Node.Reflects (node : Node) : Prop where
  coherent : ∃ records durable, node.log.Coherent records durable
  calm : node.log.disk.plan = []
  explains : node.halted = false → node.log.Explains node.lastApplied node.commitIndex node.map

namespace NodeM

open LogStore

variable {α : Type} {clock : Clock} {x : Node}

theorem reflects_onLog {operation : LogM α} {R : α → LogStore → Prop} (hx : x.Reflects)
    (h : EStateM.Ends
      (fun log => (∃ records durable, log.Coherent records durable) ∧ log.disk.plan <:+ x.log.disk.plan ∧
        (x.halted = false → log.Explains x.lastApplied x.commitIndex x.map)) R (operation x.log))
    : EStateM.Ends (·.Reflects) (fun _ _ => True) (onLog operation clock x) := by
  cases hr : operation x.log with
  | ok a log =>
    rw [hr] at h
    rw [onLog_ok hr]
    exact ⟨⟨h.1.1, Volume.calm_of_suffix h.1.2.1 hx.calm, h.1.2.2⟩, trivial⟩
  | error e log =>
    rw [hr] at h
    rw [onLog_error hr]
    exact ⟨h.1, Volume.calm_of_suffix h.2.1 hx.calm, h.2.2⟩

theorem reflects_save (hx : x.Reflects) (hard : HardState)
    : EStateM.Ends (fun disk => Node.Reflects { x with log := { x.log with disk } }) (fun _ _ => True)
        (HardState.save hard x.log.disk) := by
  obtain ⟨records, durable, hcoherent⟩ := hx.coherent
  have hreflects : ∀ disk, x.log.disk.Touches disk HardState.fileName →
      Node.Reflects { x with log := { x.log with disk } } := by
    intro disk htouches
    have hkeeps : x.log.Keeps { x.log with disk } := {
      snapshotIndex := rfl
      snapshotTerm := rfl
      policy := rfl
      plan := htouches.plan
      snapshot := htouches.other _ snapshotName_ne_hardState.1 snapshotName_ne_hardState.2 }
    have hsame := htouches.other _ logName_ne_hardState.1 logName_ne_hardState.2
    refine ⟨⟨_, _, hcoherent.of_touches htouches hsame⟩, Volume.calm_of_suffix htouches.plan hx.calm, ?_⟩
    intro hrunning
    have hexplains := hx.explains hrunning
    exact hexplains.of_keeps hkeeps rfl hexplains.held
  apply EStateM.Yields.ends
  apply (Disk.yields_replace hcoherent.carries.sound _ _).imp
  . exact fun _ disk h => hreflects disk h.1
  . exact fun disk h => hreflects disk h.1

theorem reflects_appendLog (clock : Clock) (hx : x.Reflects) {entries : List LogEntry}
    (hrange : ∀ e ∈ entries, e.InRange)
    : EStateM.Ends (·.Reflects) (fun _ _ => True) (onLog (append entries) clock x) := by
  obtain ⟨records, durable, hcoherent⟩ := hx.coherent
  apply reflects_onLog hx
  apply EStateM.Yields.ends
  apply (yields_appendEntries hcoherent hrange).imp
  . rintro _ log ⟨hextends, -, durable', hcoherent', -⟩
    exact ⟨⟨_, _, hcoherent'⟩, hextends.plan, fun hrunning =>
      (hx.explains hrunning).of_extends hcoherent hcoherent' hextends⟩
  . rintro log ⟨n, hextends, hstands, -⟩
    have hcoherent' := hstands.coherent (.inl hx.calm)
    exact ⟨⟨_, _, hcoherent'⟩, hextends.plan, fun hrunning =>
      (hx.explains hrunning).of_extends hcoherent hcoherent' hextends⟩

theorem reflects_discardLog (clock : Clock) (hx : x.Reflects) {index : Nat} (hindex : x.commitIndex < index)
    : EStateM.Ends (·.Reflects) (fun _ _ => True) (onLog (discardFrom index) clock x) := by
  obtain ⟨records, durable, hcoherent⟩ := hx.coherent
  have hdiscarded : ∀ log, x.log.Discards log index records durable →
      (∃ records durable, log.Coherent records durable) ∧ log.disk.plan <:+ x.log.disk.plan ∧
        (x.halted = false → log.Explains x.lastApplied x.commitIndex x.map) := by
    intro log hdiscards
    obtain ⟨records', durable', hcoherent'⟩ := hdiscards.passes.coherent (.inl hx.calm)
    exact ⟨⟨_, _, hcoherent'⟩, hdiscards.plan, fun hrunning =>
      (hx.explains hrunning).of_discards hcoherent hcoherent' hdiscards hindex⟩
  apply reflects_onLog hx
  apply EStateM.Yields.ends
  exact (yields_discardFrom hcoherent index).imp (fun _ log h => hdiscarded log h.1)
    fun log h => hdiscarded log h.1

end NodeM

theorem Node.Reflects.compacted {x : Node} (hx : x.Reflects) {term : Nat}
    (hterm : x.log.termAt? x.lastApplied = some term) (hlt : x.log.snapshotIndex < x.lastApplied)
    : Reflects { x with log := x.log.after (.putSnapshot x.lastApplied term x.map.encode) } := by
  obtain ⟨records, durable, hcoherent⟩ := hx.coherent
  obtain ⟨hinstalls, hcoherent'⟩ := hcoherent.folds x.lastApplied term x.map.encode (.inl hx.calm)
  obtain ⟨e, he, hindex, rfl⟩ := LogStore.mem_of_termAt? hcoherent.follows hlt hterm
  have hentry := hcoherent.entry_fits he
  have hfits : Snapshot.Fits ⟨x.lastApplied, e.term, x.map.encode⟩ := by
    rw [← hindex]
    exact ⟨hentry.index, hentry.term⟩
  refine ⟨hcoherent', Volume.calm_of_suffix hinstalls.plan_suffix hx.calm, fun hrunning => ?_⟩
  have hexplains := hx.explains hrunning
  obtain ⟨records', durable', hcoherent'⟩ := hcoherent'
  cases hinstalls with
  | before keeps entries _ _ =>
    apply hexplains.of_keeps keeps
    . rw [entries]
    . rw [LogStore.lastIndex_congr entries keeps.snapshotIndex]
      exact hexplains.held
  | between _ _ faulty => exact (faulty hx.calm).elim
  | after _ _ _ snapshotIndex snapshotTerm _ _ _ _ _ hsnapshot =>
    exact LogStore.explains_of_holds hcoherent' hfits hsnapshot snapshotIndex snapshotTerm
      (fun hshort => KeyMap.decode_encode (KeyMap.fits_of_length hshort)) hexplains.committed

theorem Node.Reflects.installed {x : Node} (hx : x.Reflects) {index term : Nat} {data : Bytes} {map : KeyMap}
    {log : LogStore} (hfits : Snapshot.Fits ⟨index, term, data⟩) (hnew : x.lastApplied < index)
    (hdecode : KeyMap.decode data = .ok map) (hput : LogStore.putSnapshot index term data x.log = .ok () log)
    : Reflects { x with log, map, commitIndex := max x.commitIndex index, lastApplied := index } := by
  obtain ⟨records, durable, hcoherent⟩ := hx.coherent
  have hyields := LogStore.yields_putSnapshot hcoherent index term data
  rw [hput] at hyields
  obtain ⟨hinstalls, hindex, haligned⟩ := hyields
  obtain ⟨records', durable', hcoherent'⟩ := hinstalls.coherent (.inr haligned)
  refine ⟨⟨_, _, hcoherent'⟩, Volume.calm_of_suffix hinstalls.plan_suffix hx.calm, fun hrunning => ?_⟩
  cases hinstalls with
  | before keeps _ _ _ =>
    have hcovered := (hx.explains hrunning).covered
    rw [keeps.snapshotIndex] at hindex
    omega
  | between _ _ faulty => exact (faulty hx.calm).elim
  | after _ _ _ snapshotIndex snapshotTerm _ _ _ _ _ hsnapshot =>
    exact LogStore.explains_of_holds hcoherent' hfits hsnapshot snapshotIndex snapshotTerm
      (fun _ => hdecode) (Nat.le_max_right _ _)

namespace NodeM

open LogStore

variable {clock : Clock} {x : Node}

theorem survives_reflects : Survives (·.Reflects) where
  halted hx := { hx with explains := nofun }
  told _ _ _ hx := { hx with }
  applied hlt hget hchange hx := by
    obtain ⟨records, durable, hcoherent⟩ := hx.coherent
    exact { hx with explains := fun hrunning => (hx.explains hrunning).succ hcoherent hlt hget hchange }
  folded hlt hterm hx := hx.compacted hterm hlt

theorem reflects_commitThrough (clock : Clock) (hx : x.Reflects) (index : Nat)
    : EStateM.Ends (·.Reflects) (fun _ _ => True) (commitThrough index clock x) := by
  apply survives_reflects.commitThrough clock hx
  intro hlt
  exact { hx with explains := fun hrunning => (hx.explains hrunning).commit (Nat.le_of_lt hlt) }

theorem reflects_taken (clock : Clock) (hx : x.Reflects) {request : AppendRequest}
    (hrange : ∀ e ∈ request.entries, e.InRange) (index lastNew : Nat)
    : EStateM.Ends (·.Reflects) (fun _ _ => True)
        ((do
          onLog (append (← reconcile index request.entries))
          commitThrough (min request.commit lastNew) : NodeM Unit) clock x) := by
  apply EStateM.Ends.bind (x := reconcile index request.entries clock)
    (ends_reconcile (fun _ _ hy => { hy with }) (fun hindex hy => reflects_discardLog clock hy hindex) hx _ _)
  intro missing y hy hsub
  apply EStateM.Ends.bind (x := onLog (append missing) clock)
    (reflects_appendLog clock hy fun e he => hrange e (hsub he))
  exact fun _ z hz _ => reflects_commitThrough clock hz _

theorem maintains_reflects : Maintains Request.InRange (·.Reflects) where
  aside _ _ _ _ _ _ _ hx := { hx with }
  role _ _ hx := { hx with }
  raised _ hx := { hx with }
  voted hx := { hx with }
  saved hard hx := reflects_save hx hard
  halted hx := { hx with explains := nofun }
  appended {clock x} command hterm hindex hx := by
    apply reflects_appendLog clock hx
    intro e he
    rw [List.mem_singleton.1 he]
    exact ⟨hterm, hindex⟩
  committed _ hx := reflects_commitThrough _ hx _
  taken clock x request haccepts _ hx := reflects_taken clock hx haccepts _ _
  installed {x request map} haccepts _ hnew hdecode hx := by
    obtain ⟨records, durable, hcoherent⟩ := hx.coherent
    have hyields := yields_putSnapshot hcoherent request.index request.indexTerm request.data
    cases hput : putSnapshot request.index request.indexTerm request.data x.log with
    | ok _ log => exact hx.installed haccepts hnew hdecode hput
    | error e log =>
      rw [hput] at hyields
      show Node.Reflects { x with log }
      rw [hyields.2 hx.calm]
      exact hx

end NodeM

end ReplicatedStore
