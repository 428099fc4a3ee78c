import ReplicatedStore.Proofs.Runs.Lifetimes

/-!
The indexes of a node, in order and never falling, and what it took to be committed, which stays. A node keeps
to this whatever its peers send; it takes only requests whose entries are numbered one after the other, and a
directory none of whose steps fails.
-/

namespace ReplicatedStore

namespace LogStore

variable {log log' log'' : LogStore} {added records : List LogEntry} {durable data : Bytes} {i j index : Nat}

/-- Entries up to an index stay as they are, unless a snapshot comes to cover them, and then it is stored. -/
structure Safeguards (log log' : LogStore) (index : Nat) : Prop where
  snapshotIndex : log.snapshotIndex ≤ log'.snapshotIndex
  entries : ∀ i ≤ index, log'.snapshotIndex < i → log'.get? i = log.get? i
  stored : log'.snapshotIndex = log.snapshotIndex ∧
      log'.disk.find? snapshotName = log.disk.find? snapshotName ∨
    ∃ snapshot : Snapshot, snapshot.index = log'.snapshotIndex ∧
      log'.disk.Holds snapshotName (some snapshot.encode)

theorem Safeguards.refl (log : LogStore) (index : Nat) : log.Safeguards log index where
  snapshotIndex := Nat.le_refl _
  entries _ _ _ := rfl
  stored := .inl ⟨rfl, rfl⟩

theorem Safeguards.trans (h : log.Safeguards log' i) (h' : log'.Safeguards log'' j) (hle : i ≤ j)
    : log.Safeguards log'' i where
  snapshotIndex := Nat.le_trans h.snapshotIndex h'.snapshotIndex
  entries k hk hlt := by
    rw [h'.entries k (Nat.le_trans hk hle) hlt]
    exact h.entries k hk (Nat.lt_of_le_of_lt h'.snapshotIndex hlt)
  stored := by
    rcases h'.stored with ⟨hindex', hfile'⟩ | hstored'
    . rcases h.stored with ⟨hindex, hfile⟩ | ⟨snapshot, hindex, hholds⟩
      . exact .inl ⟨hindex'.trans hindex, hfile'.trans hfile⟩
      . exact .inr ⟨snapshot, hindex.trans hindex'.symm, hholds.of_eq hfile'⟩
    . exact .inr hstored'

theorem Keeps.safeguards (h : log.Keeps log') (hentries : ∀ i ≤ index, log'.get? i = log.get? i)
    : log.Safeguards log' index where
  snapshotIndex := Nat.le_of_eq h.snapshotIndex.symm
  entries i hi _ := hentries i hi
  stored := .inl ⟨h.snapshotIndex, h.snapshot⟩

theorem get?_of_take (hindex : log'.snapshotIndex = log.snapshotIndex) {n : Nat}
    (hentries : log'.entries.take n = log.entries.take n) (hi : i ≤ log.snapshotIndex + n)
    : log'.get? i = log.get? i := by
  unfold get? position
  rw [hindex]
  split
  . rfl
  . have hlt : i - log.snapshotIndex - 1 < n := by omega
    rw [← List.getElem?_take_of_lt hlt, hentries, List.getElem?_take_of_lt hlt]

theorem Extends.safeguards (h : log.Extends log' added) (hfollows : Follows log.snapshotIndex log.entries)
    (hindex : index ≤ log.lastIndex)
    : log.Safeguards log' index := by
  rw [LogStore.lastIndex_eq hfollows] at hindex
  apply h.toKeeps.safeguards
  intro i hi
  apply get?_of_take h.snapshotIndex (n := log.entries.length)
  . rw [h.entries, List.take_append_of_le_length (Nat.le_refl _)]
  . omega

theorem Discards.safeguards (h : log.Discards log' index records durable) (hi : i < index)
    : log.Safeguards log' i := by
  apply h.toKeeps.safeguards
  intro j hj
  rcases h.outcome with ⟨hentries, -⟩ | ⟨hentries, -⟩
  . apply get?_of_take h.snapshotIndex (n := log.entries.length + j)
    . rw [hentries]
    . omega
  . apply get?_of_take h.snapshotIndex (n := log.position index)
    . rw [hentries, List.take_take, Nat.min_self]
    . unfold position
      omega

theorem Discards.le_lastIndex (h : log.Discards log' index records durable)
    (hfollows : Follows log.snapshotIndex log.entries) (hfollows' : Follows log'.snapshotIndex log'.entries)
    (hi : i < index) (hlast : i ≤ log.lastIndex)
    : i ≤ log'.lastIndex := by
  rw [LogStore.lastIndex_eq hfollows] at hlast
  rw [LogStore.lastIndex_eq hfollows', h.snapshotIndex]
  rcases h.outcome with ⟨hentries, -⟩ | ⟨hentries, -⟩
  . rw [hentries]
    exact hlast
  . rw [hentries, List.length_take]
    unfold position
    omega

theorem le_lastIndex_of_termAt? {term : Nat} (hfollows : Follows log.snapshotIndex log.entries)
    (hterm : log.termAt? index = some term)
    : index ≤ log.lastIndex := by
  rw [LogStore.lastIndex_eq hfollows]
  by_cases hlt : log.snapshotIndex < index
  . obtain ⟨e, he, rfl, -⟩ := mem_of_termAt? hfollows hlt hterm
    obtain ⟨k, hk, rfl⟩ := List.mem_iff_getElem.1 he
    rw [hfollows.index_eq hk]
    omega
  . omega

theorem filter_of_follows {base : Nat} {entries : List LogEntry} (h : Follows base entries) (hle : i ≤ base)
    : entries.filter (i < ·.index) = entries := by
  apply List.filter_eq_self.2
  intro e he
  have hlt := h.lt_of_mem he
  exact decide_eq_true (by omega)

theorem get?_of_retained {term : Nat} (hfollows : Follows log.snapshotIndex log.entries)
    (hle : log.snapshotIndex ≤ index)
    (hterm : log.termAt? index = some term) (hindex : log'.snapshotIndex = index)
    (hentries : log'.entries = log.retained index term) (hi : index < i)
    : log'.get? i = log.get? i := by
  rw [retained_eq term hfollows hle, if_pos hterm] at hentries
  unfold get? position
  rw [if_neg (by omega), if_neg (by omega), hentries, hindex, List.getElem?_drop]
  congr 1
  omega

end LogStore

open LogStore

structure Node.Ordered (x : Node) : Prop where
  covered : x.log.snapshotIndex ≤ x.lastApplied
  applied : x.lastApplied ≤ x.commitIndex
  committed : x.commitIndex ≤ x.log.lastIndex
  current : x.halted = false → x.lastApplied = x.commitIndex

structure Node.Advances (x y : Node) : Prop where
  term : x.term ≤ y.term
  applied : x.lastApplied ≤ y.lastApplied
  committed : x.commitIndex ≤ y.commitIndex
  log : x.log.Safeguards y.log x.commitIndex

structure Node.Proceeds (x y : Node) : Prop where
  advances : x.Advances y
  coherent : ∃ records durable, y.log.Coherent records durable
  calm : y.log.disk.plan = []
  covered : y.log.snapshotIndex ≤ y.lastApplied
  applied : y.lastApplied ≤ y.commitIndex
  committed : y.commitIndex ≤ y.log.lastIndex

namespace Node.Proceeds

variable {x y z : Node} {index : Nat}

theorem of_eq (h : x.Proceeds y) (hterm : y.term ≤ z.term) (hlog : z.log = y.log)
    (happlied : z.lastApplied = y.lastApplied) (hcommitted : z.commitIndex = y.commitIndex)
    : x.Proceeds z where
  advances := {
    term := Nat.le_trans h.advances.term hterm
    applied := happlied ▸ h.advances.applied
    committed := hcommitted ▸ h.advances.committed
    log := hlog ▸ h.advances.log }
  coherent := hlog ▸ h.coherent
  calm := hlog ▸ h.calm
  covered := by
    rw [hlog, happlied]
    exact h.covered
  applied := by
    rw [happlied, hcommitted]
    exact h.applied
  committed := by
    rw [hlog, hcommitted]
    exact h.committed

theorem commit (h : x.Proceeds y) (hle : y.commitIndex ≤ index) (hindex : index ≤ y.log.lastIndex)
    : x.Proceeds { y with commitIndex := index } :=
  { h with
    advances := { h.advances with committed := Nat.le_trans h.advances.committed hle }
    applied := Nat.le_trans h.applied hle
    committed := hindex }

theorem apply (h : x.Proceeds y) (hlt : y.lastApplied < y.commitIndex) (map : KeyMap)
    : x.Proceeds { y with map, lastApplied := y.lastApplied + 1 } :=
  { h with
    advances := { h.advances with applied := Nat.le_succ_of_le h.advances.applied }
    covered := Nat.le_succ_of_le h.covered
    applied := hlt }

theorem onLog (h : x.Proceeds y) {log : LogStore} (hsafeguards : y.log.Safeguards log y.commitIndex)
    (hcoherent : ∃ records durable, log.Coherent records durable)
    (hplan : log.disk.plan <:+ y.log.disk.plan)
    (hcovered : log.snapshotIndex ≤ y.lastApplied) (hcommitted : y.commitIndex ≤ log.lastIndex)
    : x.Proceeds { y with log } :=
  { h with
    advances := { h.advances with log := h.advances.log.trans hsafeguards h.advances.committed }
    coherent := hcoherent
    calm := Volume.calm_of_suffix hplan h.calm
    covered := hcovered
    committed := hcommitted }

theorem extended (h : x.Proceeds y) {log : LogStore} {added : List LogEntry}
    (hextends : y.log.Extends log added) (hcoherent : ∃ records durable, log.Coherent records durable)
    : x.Proceeds { y with log } := by
  obtain ⟨records, durable, hbefore⟩ := h.coherent
  obtain ⟨records', durable', hafter⟩ := hcoherent
  have hcovered := h.covered
  have hcommitted := h.committed
  have hlast := hextends.lastIndex_eq hbefore.follows hafter.follows
  apply h.onLog (hextends.safeguards hbefore.follows hcommitted) ⟨_, _, hafter⟩ hextends.plan
  . rw [hextends.snapshotIndex]
    exact hcovered
  . omega

theorem kept (h : x.Proceeds y) {log : LogStore} (hkeeps : y.log.Keeps log)
    (hentries : log.entries = y.log.entries) (hcoherent : ∃ records durable, log.Coherent records durable)
    : x.Proceeds { y with log } := by
  have hextends : y.log.Extends log [] := { hkeeps with entries := hentries.trans (List.append_nil _).symm }
  exact h.extended hextends hcoherent

theorem saved (h : x.Proceeds y) {disk : Volume} (htouches : y.log.disk.Touches disk HardState.fileName)
    : x.Proceeds { y with log := { y.log with disk } } := by
  obtain ⟨records, durable, hcoherent⟩ := h.coherent
  have hsame := htouches.other _ NodeM.logName_ne_hardState.1 NodeM.logName_ne_hardState.2
  refine h.kept ?_ rfl ⟨_, _, hcoherent.of_touches htouches hsame⟩
  exact {
    snapshotIndex := rfl
    snapshotTerm := rfl
    policy := rfl
    plan := htouches.plan
    snapshot := htouches.other _ NodeM.snapshotName_ne_hardState.1 NodeM.snapshotName_ne_hardState.2 }

theorem compacted (h : x.Proceeds y) {term : Nat} (hterm : y.log.termAt? y.lastApplied = some term)
    : x.Proceeds { y with log := y.log.after (.putSnapshot y.lastApplied term y.map.encode) } := by
  obtain ⟨records, durable, hcoherent⟩ := h.coherent
  obtain ⟨hinstalls, hcoherent'⟩ := hcoherent.folds y.lastApplied term y.map.encode (.inl h.calm)
  have hcovered := h.covered
  have happlied := h.applied
  have hcommitted := h.committed
  cases hinstalls with
  | before keeps entries _ _ => exact h.kept keeps entries hcoherent'
  | between _ _ faulty => exact (faulty h.calm).elim
  | after _ plan _ snapshotIndex _ entries describes _ _ _ hsnapshot =>
    have hsafeguards : y.log.Safeguards (y.log.after (.putSnapshot y.lastApplied term y.map.encode))
        y.commitIndex := by
      refine ⟨?_, ?_, .inr ⟨_, snapshotIndex.symm, hsnapshot⟩⟩
      . rw [snapshotIndex]
        exact hcovered
      . intro i _ hi
        rw [snapshotIndex] at hi
        exact get?_of_retained hcoherent.follows hcovered hterm snapshotIndex entries hi
    apply h.onLog hsafeguards hcoherent' plan
    . exact Nat.le_of_eq snapshotIndex
    . rw [LogStore.lastIndex_eq hcoherent.follows] at hcommitted
      rw [LogStore.lastIndex_eq describes.follows, snapshotIndex, entries,
        retained_eq term hcoherent.follows hcovered, if_pos hterm, List.length_drop]
      omega

theorem installed (h : x.Proceeds y) {term : Nat} {data : Bytes} (map : KeyMap) {log : LogStore}
    (hcurrent : y.lastApplied = y.commitIndex) (hnew : y.lastApplied < index)
    (hput : LogStore.putSnapshot index term data y.log = .ok () log)
    : x.Proceeds { y with log, map, commitIndex := max y.commitIndex index, lastApplied := index } := by
  obtain ⟨records, durable, hcoherent⟩ := h.coherent
  have hyields := LogStore.yields_putSnapshot hcoherent index term data
  rw [hput] at hyields
  obtain ⟨hinstalls, hindex, haligned⟩ := hyields
  obtain ⟨records', durable', hcoherent'⟩ := hinstalls.coherent (.inr haligned)
  have hcovered := h.covered
  have hadvances := h.advances
  have happlied := hadvances.applied
  have hcommitted := hadvances.committed
  have hsafeguards : y.log.Safeguards log y.commitIndex := by
    cases hinstalls with
    | before keeps _ _ _ =>
      rw [keeps.snapshotIndex] at hindex
      omega
    | between _ _ faulty => exact (faulty h.calm).elim
    | after _ _ _ _ _ _ _ _ _ _ hsnapshot =>
      refine ⟨by omega, ?_, .inr ⟨_, hindex.symm, hsnapshot⟩⟩
      intro i hi hlt
      omega
  have hlast := LogStore.lastIndex_eq hcoherent'.follows
  exact {
    advances := {
      term := hadvances.term
      applied := show x.lastApplied ≤ index by omega
      committed := show x.commitIndex ≤ max y.commitIndex index by omega
      log := hadvances.log.trans hsafeguards hcommitted }
    coherent := ⟨_, _, hcoherent'⟩
    calm := Volume.calm_of_suffix hinstalls.plan_suffix h.calm
    covered := Nat.le_of_eq hindex
    applied := Nat.le_max_right _ _
    committed := show max y.commitIndex index ≤ log.lastIndex by omega }

end Node.Proceeds

structure Node.Progresses (x y : Node) : Prop extends x.Proceeds y where
  current : y.halted = false → y.lastApplied = y.commitIndex

theorem Node.Progresses.of_same {x y z : Node} (h : x.Progresses y) (hterm : y.term ≤ z.term)
    (hlog : z.log = y.log) (happlied : z.lastApplied = y.lastApplied)
    (hcommitted : z.commitIndex = y.commitIndex) (hhalted : z.halted = y.halted)
    : x.Progresses z := by
  refine ⟨h.of_eq hterm hlog happlied hcommitted, ?_⟩
  rw [hhalted, happlied, hcommitted]
  exact h.current

namespace NodeM

variable {α : Type} {clock : Clock} {x y : Node}

theorem progresses_appendLog (hy : x.Progresses y) {added : List LogEntry} (hrange : ∀ e ∈ added, e.InRange)
    : EStateM.Ends (x.Progresses ·) (fun _ z => z.log.lastIndex = y.log.lastIndex + added.length)
        (onLog (append added) clock y) := by
  obtain ⟨records, durable, hcoherent⟩ := hy.coherent
  have hyields := yields_appendEntries hcoherent hrange
  cases hr : append added y.log with
  | ok _ log =>
    rw [hr] at hyields
    obtain ⟨hextends, -, durable', hcoherent', -⟩ := hyields
    rw [onLog_ok hr]
    exact ⟨⟨hy.extended hextends ⟨_, _, hcoherent'⟩, hy.current⟩,
      hextends.lastIndex_eq hcoherent.follows hcoherent'.follows⟩
  | error e log =>
    rw [hr] at hyields
    obtain ⟨n, hextends, hstands, -⟩ := hyields
    rw [onLog_error hr]
    exact ⟨hy.extended hextends ⟨_, _, hstands.coherent (.inl hy.calm)⟩, hy.current⟩

theorem progresses_discardLog (hy : x.Progresses y) {index : Nat} (hindex : y.commitIndex < index)
    : EStateM.Ends (x.Progresses ·)
        (fun _ z => z.log.snapshotIndex = y.log.snapshotIndex ∧
          ∀ i < index, i ≤ y.log.lastIndex → i ≤ z.log.lastIndex)
        (onLog (discardFrom index) clock y) := by
  obtain ⟨records, durable, hcoherent⟩ := hy.coherent
  have hdiscarded : ∀ log, y.log.Discards log index records durable →
      x.Progresses { y with log } ∧ log.snapshotIndex = y.log.snapshotIndex ∧
        ∀ i < index, i ≤ y.log.lastIndex → i ≤ log.lastIndex := by
    intro log hdiscards
    obtain ⟨records', durable', hcoherent'⟩ := hdiscards.passes.coherent (.inl hy.calm)
    have hlast : ∀ i < index, i ≤ y.log.lastIndex → i ≤ log.lastIndex :=
      fun i hi => hdiscards.le_lastIndex hcoherent.follows hcoherent'.follows hi
    have hproceeds := hy.onLog (hdiscards.safeguards hindex) ⟨_, _, hcoherent'⟩ hdiscards.plan
      (hdiscards.snapshotIndex ▸ hy.covered) (hlast _ hindex hy.committed)
    exact ⟨⟨hproceeds, hy.current⟩, hdiscards.snapshotIndex, hlast⟩
  have hyields := yields_discardFrom hcoherent index
  cases hr : discardFrom index y.log with
  | ok _ log =>
    rw [hr] at hyields
    rw [onLog_ok hr]
    exact hdiscarded log hyields.1
  | error e log =>
    rw [hr] at hyields
    rw [onLog_error hr]
    exact (hdiscarded log hyields.1).1

theorem survives_proceeds (x : Node) : Survives (x.Proceeds ·) where
  halted hy := hy.of_eq (Nat.le_refl _) rfl rfl rfl
  told _ _ _ hy := hy.of_eq (Nat.le_refl _) rfl rfl rfl
  applied hlt _ _ hy := hy.apply hlt _
  folded _ hterm hy := hy.compacted hterm

theorem progresses_commitThrough (hy : x.Progresses y) {index : Nat} (hindex : index ≤ y.log.lastIndex)
    : EStateM.Ends (x.Progresses ·) (fun _ _ => True) (commitThrough index clock y) := by
  unfold commitThrough
  rw [bind_get]
  split
  . next hlt =>
    rw [bind_modify]
    apply ((survives_proceeds x).applyBacklog clock (hy.commit (Nat.le_of_lt hlt) hindex)).imp
    . exact fun z hz => ⟨hz.1, fun hrunning => Nat.le_antisymm hz.1.applied (hz.2 hrunning)⟩
    . exact fun _ _ _ hq => hq
  . exact ⟨hy, trivial⟩

theorem progresses_reconcile (hy : x.Progresses y) {base : Nat} {entries : List LogEntry}
    (hfollows : Follows base entries) (hbase : base ≤ y.log.lastIndex)
    : EStateM.Ends (x.Progresses ·)
        (fun missing z => missing ⊆ entries ∧
          base + entries.length ≤ z.log.lastIndex + missing.length)
        (reconcile y.log.snapshotIndex entries clock y) := by
  induction entries generalizing base with
  | nil => exact ⟨hy, fun _ he => he, hbase⟩
  | cons entry rest ih =>
    obtain ⟨hindex, hrest⟩ := hfollows
    obtain ⟨records, durable, hcoherent⟩ := hy.coherent
    have hfollowed := hcoherent.follows
    have hskip (hle : base + 1 ≤ y.log.lastIndex) : EStateM.Ends (x.Progresses ·)
        (fun missing z => missing ⊆ entry :: rest ∧
          base + (entry :: rest).length ≤ z.log.lastIndex + missing.length)
        (reconcile y.log.snapshotIndex rest clock y) := by
      apply (ih hrest hle).imp (fun _ hz => hz)
      rintro missing z _ ⟨hsub, hlength⟩
      refine ⟨fun _ he => List.mem_cons_of_mem _ (hsub he), ?_⟩
      rw [List.length_cons]
      omega
    unfold reconcile
    split
    . next hle =>
      have hlast := LogStore.lastIndex_eq hfollowed
      exact hskip (by omega)
    next hgt =>
    rw [filter_of_follows hrest (by omega), bind_get]
    dsimp only
    cases hterm : y.log.termAt? entry.index with
    | none =>
      refine ⟨hy, List.Subset.refl _, ?_⟩
      omega
    | some term =>
      dsimp only
      split
      . apply hskip
        rw [← hindex]
        exact le_lastIndex_of_termAt? hfollowed hterm
      rw [bind_get]
      split
      . exact hy
      -- what is committed is never discarded
      next huncommitted =>
      apply EStateM.Ends.bind (x := onLog (discardFrom entry.index) clock)
        (progresses_discardLog hy (Nat.not_le.1 huncommitted))
      rintro _ z hz ⟨-, hlast⟩
      beta_reduce
      rw [bind_of_ok (rejectFrom_eq entry.index)]
      refine ⟨hz.of_same (Nat.le_refl _) rfl rfl rfl rfl, List.Subset.refl _, ?_⟩
      have hle := hlast base (by omega) hbase
      exact Nat.add_le_add_right hle _

theorem progresses_taken (hy : x.Progresses y) {request : AppendRequest}
    (hrange : ∀ e ∈ request.entries, e.InRange) (hfollows : Follows request.prevIndex request.entries)
    (hprev : y.log.snapshotIndex ≤ request.prevIndex →
      y.log.termAt? request.prevIndex = some request.prevTerm)
    : EStateM.Ends (x.Progresses ·) (fun _ _ => True)
        ((do
          onLog (append (← reconcile y.log.snapshotIndex request.entries))
          commitThrough (min request.commit (request.prevIndex + request.entries.length)) : NodeM Unit)
            clock y) := by
  have hbase : request.prevIndex ≤ y.log.lastIndex := by
    obtain ⟨records, durable, hcoherent⟩ := hy.coherent
    by_cases hle : y.log.snapshotIndex ≤ request.prevIndex
    . exact le_lastIndex_of_termAt? hcoherent.follows (hprev hle)
    . rw [LogStore.lastIndex_eq hcoherent.follows]
      omega
  apply EStateM.Ends.bind (x := reconcile y.log.snapshotIndex request.entries clock)
    (progresses_reconcile hy hfollows hbase)
  rintro missing z hz ⟨hsub, hlength⟩
  apply EStateM.Ends.bind (x := onLog (append missing) clock)
    (progresses_appendLog hz fun e he => hrange e (hsub he))
  intro _ w hw hlast
  apply progresses_commitThrough hw
  rw [hlast]
  omega

end NodeM

def Request.Consecutive : Request → Prop
  | .append request => Follows request.prevIndex request.entries
  | _ => True

instance : (request : Request) → Decidable request.Consecutive
  | .append request => inferInstanceAs (Decidable (Follows request.prevIndex request.entries))
  | .vote _ | .snapshot _ | .commit _ => isTrue trivial

def Request.Orderly (request : Request) : Prop :=
  request.InRange ∧ request.Consecutive

instance (request : Request) : Decidable request.Orderly :=
  inferInstanceAs (Decidable (request.InRange ∧ request.Consecutive))

namespace NodeM

theorem maintains_progresses (x : Node) : Maintains Request.Orderly (x.Progresses ·) where
  aside _ _ _ _ _ _ _ hy := hy.of_same (Nat.le_refl _) rfl rfl rfl rfl
  role _ _ hy := hy.of_same (Nat.le_refl _) rfl rfl rfl rfl
  raised hlt hy := hy.of_same (Nat.le_of_lt hlt) rfl rfl rfl rfl
  saved {y} hard hy := by
    obtain ⟨records, durable, hcoherent⟩ := hy.coherent
    apply EStateM.Yields.ends
    apply (Disk.yields_replace hcoherent.carries.sound _ _).imp
    . exact fun _ disk h => ⟨hy.saved h.1, hy.current⟩
    . exact fun disk h => ⟨hy.saved h.1, hy.current⟩
  halted hy := ⟨hy.of_eq (Nat.le_refl _) rfl rfl rfl, nofun⟩
  voted hy := hy.of_same (Nat.le_refl _) rfl rfl rfl rfl
  appended {clock y} command hterm hindex hy := by
    apply (progresses_appendLog hy _).imp (fun _ hz => hz) fun _ _ _ _ => trivial
    intro e he
    rw [List.mem_singleton.1 he]
    exact ⟨hterm, hindex⟩
  committed {clock y index term} hterm hy := by
    obtain ⟨records, durable, hcoherent⟩ := hy.coherent
    exact progresses_commitThrough hy (le_lastIndex_of_termAt? hcoherent.follows hterm)
  taken clock y request haccepts hprev hy := progresses_taken hy haccepts.1 haccepts.2 hprev
  installed {y request map} _ hrunning hnew _ hy := by
    obtain ⟨records, durable, hcoherent⟩ := hy.coherent
    have hyields := yields_putSnapshot hcoherent request.index request.indexTerm request.data
    cases hput : putSnapshot request.index request.indexTerm request.data y.log with
    | ok _ log =>
      have hcurrent := hy.current hrunning
      have hinstalled := hy.installed map hcurrent hnew hput
      refine ⟨hinstalled, fun _ => ?_⟩
      show request.index = max y.commitIndex request.index
      omega
    | error e log =>
      rw [hput] at hyields
      show x.Progresses { y with log }
      rw [hyields.2 hy.calm]
      exact hy

end NodeM

theorem Node.Progresses.restart {x y : Node} (h : x.Progresses y) : y.Progresses y :=
  ⟨{ h with advances := ⟨Nat.le_refl _, Nat.le_refl _, Nat.le_refl _, .refl _ _⟩ }, h.current⟩

theorem Node.Progresses.ordered {x y : Node} (h : x.Progresses y) : y.Ordered :=
  ⟨h.covered, h.applied, h.committed, h.current⟩

def Episode.Orderly : Episode → Prop
  | .act _ move => move.Accepted Request.Orderly
  | _ => True

instance : (episode : Episode) → Decidable episode.Orderly
  | .act _ move => inferInstanceAs (Decidable (move.Accepted Request.Orderly))
  | .close => isTrue trivial
  | .open .. => isTrue trivial

namespace Host

variable {host : Host} {id : NodeId} {episode : Episode}

def Orderly : Host → Prop
  | .running node => node.Progresses node
  | .stopped disk => disk.Sound

theorem Orderly.perform (h : host.Orderly) (horderly : episode.Orderly) : (host.perform id episode).Orderly := by
  cases host with
  | running node =>
    cases episode with
    | act clock move =>
      obtain ⟨z, hz, hprogresses⟩ := Host.perform_act (NodeM.maintains_progresses node) id clock h horderly
      rw [hz]
      exact hprogresses.restart
    | close => exact LogStore.sound_close h.coherent h.calm
    | «open» members config clock => exact h
  | stopped disk =>
    cases episode with
    | act clock move => exact h
    | close => exact h
    | «open» members config clock =>
      rcases perform_open h id members config clock with ⟨x, hx, hreflects, hcommitted, happlied⟩ | ⟨v, hv, hsound⟩
      . obtain ⟨records, durable, hcoherent⟩ := hreflects.coherent
        have hlast := LogStore.lastIndex_eq hcoherent.follows
        rw [hx]
        exact {
          advances := ⟨Nat.le_refl _, Nat.le_refl _, Nat.le_refl _, .refl _ _⟩
          coherent := hreflects.coherent
          calm := hreflects.calm
          covered := by omega
          applied := by omega
          committed := by omega
          current := fun _ => by omega }
      . rw [hv]
        exact hsound

theorem Orderly.run (h : host.Orderly) {episodes : List Episode}
    (horderly : ∀ episode ∈ episodes, episode.Orderly)
    : (episodes.foldl (Host.perform id) host).Orderly :=
  List.foldlRecOn episodes _ h fun _ hhost episode hepisode => hhost.perform (horderly episode hepisode)

end Host

theorem Node.Progresses.run {x y : Node} (h : x.Progresses y) (id : NodeId) {steps : List (Clock × Move)}
    (hsteps : ∀ step ∈ steps, step.2.Accepted Request.Orderly)
    : ∃ z, (steps.map fun step => Episode.act step.1 step.2).foldl (Host.perform id) (.running y) = .running z ∧
        x.Progresses z := by
  induction steps generalizing y with
  | nil => exact ⟨y, rfl, h⟩
  | cons step rest ih =>
    obtain ⟨z, hz, hprogresses⟩ := Host.perform_act (NodeM.maintains_progresses x) id step.1 h
      (hsteps step List.mem_cons_self)
    rw [List.map_cons, List.foldl_cons, hz]
    exact ih hprogresses fun step hstep => hsteps step (List.mem_cons_of_mem _ hstep)

/-- Whatever peers send, as long as they number entries one after the other: from any moment of a node's life
on, its indexes stay in order, none of them falls, nor does its term, and an entry that is committed is
neither replaced nor removed, except for being covered by the snapshot that is stored. -/
theorem indexes_advance {v : Volume} (hv : v.Sound) (id : NodeId) {before : List Episode}
    (hbefore : ∀ episode ∈ before, episode.Orderly) {x : Node}
    (hx : before.foldl (Host.perform id) (.stopped v) = .running x) {steps : List (Clock × Move)}
    (hsteps : ∀ step ∈ steps, step.2.Accepted Request.Orderly)
    : ∃ y, (steps.map fun step => Episode.act step.1 step.2).foldl (Host.perform id) (.running x) = .running y ∧
        x.Ordered ∧ y.Ordered ∧ x.Advances y := by
  have hstart : (Host.stopped v).Orderly := hv
  have horderly : (before.foldl (Host.perform id) (.stopped v)).Orderly := hstart.run hbefore
  rw [hx] at horderly
  obtain ⟨y, hy, hprogresses⟩ := Node.Progresses.run horderly id hsteps
  exact ⟨y, hy, Node.Progresses.ordered horderly, hprogresses.ordered, hprogresses.advances⟩

namespace Usurped

def clock : Clock := ⟨0, 0⟩

-- Two entries from one leader, of which the first is committed.
def before : List Episode :=
  [.open ["a", "b", "c"] {} clock,
    .act clock (.handle "b" (.append {
      term := 1, leader := "b", prevIndex := 0, prevTerm := 0, commit := 1,
      entries := [⟨1, 1, []⟩, ⟨1, 2, []⟩] }))]

-- Another leader replaces the second entry, tries to replace the first, and sends a snapshot.
def steps : List (Clock × Move) :=
  [(clock, .handle "c" (.append {
      term := 2, leader := "c", prevIndex := 1, prevTerm := 1, commit := 9, entries := [⟨2, 2, []⟩] })),
    (clock, .handle "c" (.append {
      term := 2, leader := "c", prevIndex := 0, prevTerm := 0, commit := 9, entries := [⟨2, 1, []⟩] })),
    (clock, .handle "c" (.snapshot {
      term := 2, leader := "c", index := 5, indexTerm := 2, data := KeyMap.empty.encode }))]

def after : List Episode :=
  steps.map fun step => .act step.1 step.2

def indexes (node : Node) : List Nat :=
  [node.log.snapshotIndex, node.lastApplied, node.commitIndex, node.log.lastIndex]

end Usurped

theorem indexes_advance_usurped
    : ∃ x y, Usurped.before.foldl (Host.perform "a") (.stopped {}) = .running x ∧
        Usurped.after.foldl (Host.perform "a") (.running x) = .running y ∧
        Usurped.indexes x = [0, 1, 1, 2] ∧ Usurped.indexes y = [5, 5, 5, 5] ∧
        x.Ordered ∧ y.Ordered ∧ x.Advances y := by
  have hstart : (Usurped.before.foldl (Host.perform "a") (.stopped {})).node?.map Usurped.indexes
      = some [0, 1, 1, 2] := by
    decide +kernel
  have hend : ((Usurped.before ++ Usurped.after).foldl (Host.perform "a") (.stopped {})).node?.map
      Usurped.indexes = some [5, 5, 5, 5] := by
    decide +kernel
  have hsteps : ∀ step ∈ Usurped.steps, step.2.Accepted Request.Orderly := by
    decide +kernel
  obtain ⟨x, hnode, hindexes⟩ := Option.map_eq_some_iff.1 hstart
  have hx := Host.node?_eq_some.1 hnode
  obtain ⟨y, hy, hadvances⟩ := indexes_advance Volume.sound_empty "a" (by decide +kernel) hx hsteps
  rw [List.foldl_append, hx, Usurped.after, hy] at hend
  exact ⟨x, y, hx, hy, hindexes, Option.some.inj hend, hadvances⟩

end ReplicatedStore
