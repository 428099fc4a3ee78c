import ReplicatedStore.Proofs.Consensus.Indexes
import ReplicatedStore.Proofs.Consensus.Proposing

/-!
How a leader finds the place from which it has to send entries to a peer: it tries, the peer says why not, and
the leader tries again further to the front, but never at what is known to agree.
-/

namespace ReplicatedStore

inductive Probe where
  | idle
  | snapshot (request : SnapshotRequest)
  | accepted (peer : Node)
  | rejected (leader peer : Node) (orders : List Order)
  | failed

namespace Node

def probe (peer : NodeId) (here there : Clock) (x y : Node) : Probe :=
  match NodeM.messageFor peer here x with
  | .error _ _ => .failed
  | .ok none _ => .idle
  | .ok (some (.snapshot request)) _ => .snapshot request
  | .ok (some (.append request)) x =>
    match NodeM.onAppendRequest request there y with
    | .error _ _ => .failed
    | .ok response y =>
      if response.success then .accepted y
      else
        match NodeM.onAppendResponse peer request.term (!request.entries.isEmpty) response here x with
        | .ok (true, orders) x => .rejected x y orders
        | _ => .failed

structure BacksOff (x x' : Node) (peer : NodeId) (p p' : Progress) (orders : List Order) : Prop where
  progress : x.progress? peer = some p
  progress' : x'.progress? peer = some p'
  matched : p'.matched = p.matched
  above : p'.matched < p'.next
  lower : p'.next < p.next
  again : orders = [.replicate peer]

/-- At whatever times they are made, fewer than so many probes are rejected, and each of them makes the leader
back off; then the leader sends its snapshot, or the peer accepts. -/
def Settles (peer : NodeId) : Nat → Node → Node → Prop
  | 0, _, _ => False
  | n + 1, x, y =>
    ∀ here there,
      match probe peer here there x y with
      | .snapshot _ => True
      | .accepted _ => True
      | .rejected x' y' orders => (∃ p p', x.BacksOff x' peer p p' orders) ∧ Settles peer n x' y'
      | .idle => False
      | .failed => False

def fails (peer : NodeId) (clock : Clock) : Nat → Node → Node → Bool
  | 0, _, _ => false
  | n + 1, x, y =>
    match probe peer clock clock x y with
    | .failed => true
    | .rejected x' y' _ => fails peer clock n x' y'
    | _ => false

structure Holds (x : Node) (h : History) : Prop where
  running : x.halted = false
  shows : x.log.Shows h
  coherent : ∃ records durable, x.log.Coherent records durable
  calm : x.log.disk.plan = []

structure Faces (x y : Node) (peer : NodeId) (p : Progress) (h g : History) : Prop where
  leader : x.Holds h
  stored : ∃ snapshot, x.log.Knows snapshot
  progress : x.progress? peer = some p
  follower : y.Holds g
  term : y.term ≤ x.term
  snapshot : g.take y.log.snapshotIndex <+: h
  held : p.matched ≤ g.length
  agrees : g.take p.matched <+: h
  next : p.matched < p.next

end Node

namespace LogStore

variable {log : LogStore} {added records : List LogEntry} {durable : Bytes} {index : Nat}

theorem append_total (hcoherent : log.Coherent records durable) (hcalm : log.disk.plan = [])
    (hfits : ∀ e ∈ added, e.Fits) (hfollows : Follows log.lastIndex added)
    : ∃ log', append added log = .ok () log' := by
  have hyields := yields_appendEntries hcoherent fun e he => ⟨(hfits e he).term, (hfits e he).index⟩
  cases hr : append added log with
  | ok _ log' => exact ⟨log', rfl⟩
  | error e log' =>
    rw [hr] at hyields
    obtain ⟨n, -, -, -, hrefuses⟩ := hyields
    have hadmits : log.Admits added := ⟨hfollows, fun e he => (hfits e he).command⟩
    exact absurd (hadmits.take (n + 1)) (hrefuses hcalm)

theorem discardFrom_total (hcoherent : log.Coherent records durable) (hcalm : log.disk.plan = [])
    (hindex : log.snapshotIndex < index) (hlast : index ≤ log.lastIndex)
    : ∃ log', discardFrom index log = .ok () log' ∧ (∃ records durable, log'.Coherent records durable) ∧
        log'.disk.plan = [] ∧ log'.lastIndex + 1 = index := by
  have hyields := yields_discardFrom hcoherent index
  cases hr : discardFrom index log with
  | ok _ log' =>
    rw [hr] at hyields
    obtain ⟨hdiscards, ⟨records', durable', hcoherent'⟩, hentries⟩ := hyields
    refine ⟨log', rfl, ⟨_, _, hcoherent'⟩, Volume.calm_of_suffix hdiscards.plan hcalm, ?_⟩
    rw [LogStore.lastIndex_eq hcoherent.follows] at hlast
    rw [LogStore.lastIndex_eq hcoherent'.follows, hdiscards.snapshotIndex, hentries, List.length_take]
    unfold position
    omega
  | error e log' =>
    rw [hr] at hyields
    exact absurd (hyields.2 hcalm) (Nat.not_le.2 hindex)

end LogStore

open LogStore

variable {clock : Clock} {x y : Node} {h g : History} {peer : NodeId} {p : Progress}

theorem Node.Holds.of_disk (hy : y.Holds g) {disk : Volume} (htouches : y.log.disk.Touches disk HardState.fileName)
    : Node.Holds { y with log := { y.log with disk } } g := by
  obtain ⟨records, durable, hcoherent⟩ := hy.coherent
  have hshows := hy.shows
  have hsame := htouches.other _ NodeM.logName_ne_hardState.1 NodeM.logName_ne_hardState.2
  exact {
    running := hy.running
    shows := ⟨hshows.numbered, hshows.covered, hshows.entries, hshows.term⟩
    coherent := ⟨_, _, hcoherent.of_touches htouches hsame⟩
    calm := Volume.calm_of_suffix htouches.plan hy.calm }

namespace Node

theorem leads_of_progress? (hp : x.progress? peer = some p) : x.role.isLeader = true := by
  unfold progress? at hp
  cases hrole : x.role with
  | leader leadership => rfl
  | _ =>
    rw [hrole] at hp
    cases hp

theorem progress?_updateProgress (x : Node) (peer : NodeId) (f : Progress → Progress)
    : (x.updateProgress peer f).progress? peer = (x.progress? peer).map f := by
  unfold updateProgress progress?
  cases hrole : x.role with
  | leader leadership =>
    dsimp only
    rw [lookup_map_snd _ fun id p => if id = peer then f p else p]
    simp
  | _ =>
    dsimp only
    rw [hrole]
    rfl

variable (x : Node) (peer : NodeId) (f : Progress → Progress)

@[simp]
theorem updateProgress_log : (x.updateProgress peer f).log = x.log := by
  unfold updateProgress
  split <;> rfl

@[simp]
theorem updateProgress_hard : (x.updateProgress peer f).hard = x.hard := by
  unfold updateProgress
  split <;> rfl

@[simp]
theorem updateProgress_halted : (x.updateProgress peer f).halted = x.halted := by
  unfold updateProgress
  split <;> rfl

end Node

namespace NodeM

theorem saveHardState_total (clock : Clock) (hy : y.Holds g)
    : ∃ disk, saveHardState clock y = .ok () { y with log := { y.log with disk } } ∧
        Node.Holds { y with log := { y.log with disk } } g := by
  obtain ⟨records, durable, hcoherent⟩ := hy.coherent
  have hyields := Disk.yields_replace hcoherent.carries.sound HardState.fileName y.hard.encode
  rw [saveHardState_eq]
  unfold HardState.save
  cases hr : Disk.replace HardState.fileName y.hard.encode y.log.disk with
  | ok _ disk =>
    rw [hr] at hyields
    exact ⟨disk, rfl, hy.of_disk hyields.1⟩
  | error e disk =>
    rw [hr] at hyields
    exact absurd hy.calm hyields.2.2

theorem follow_total (clock : Clock) (hy : y.Holds g) {term : Nat} (hterm : y.term ≤ term) (leader : NodeId)
    : ∃ z, follow term leader clock y = .ok () z ∧ z.Holds g ∧ z.term = term ∧
        z.log.snapshotIndex = y.log.snapshotIndex ∧ z.commitIndex = y.commitIndex := by
  unfold follow adoptTerm
  rw [bind_assoc, bind_get]
  split
  . have hraised : Node.Holds { y with hard := { term } } g := { hy with }
    obtain ⟨disk, hsave, hsaved⟩ := saveHardState_total clock hraised
    rw [bind_assoc, bind_modify, bind_assoc, bind_of_ok hsave]
    exact ⟨_, rfl, { hsaved with }, rfl, rfl, rfl⟩
  . next hnot =>
    refine ⟨_, rfl, { hy with }, ?_, rfl, rfl⟩
    exact Nat.le_antisymm hterm (Nat.not_lt.1 hnot)

theorem reconcile_total (clock : Clock) (hy : y.Holds g) {base : Nat} {entries : List LogEntry}
    (hfollows : Follows base entries) (hbase : base ≤ g.length)
    (hkept : ∀ e ∈ entries, e.index ≤ y.commitIndex → e.index ≤ g.length → g.termAt e.index = e.term)
    : ∃ missing z, reconcile y.log.snapshotIndex entries clock y = .ok missing z ∧ missing ⊆ entries ∧
        Follows z.log.lastIndex missing ∧ (∃ records durable, z.log.Coherent records durable) ∧
        z.log.disk.plan = [] := by
  induction entries generalizing base with
  | nil => exact ⟨[], y, rfl, List.Subset.refl _, trivial, hy.coherent, hy.calm⟩
  | cons entry rest ih =>
    obtain ⟨hindex, hrest⟩ := hfollows
    have hskip (hle : base + 1 ≤ g.length) :
        ∃ missing z, reconcile y.log.snapshotIndex rest clock y = .ok missing z ∧ missing ⊆ entry :: rest ∧
          Follows z.log.lastIndex missing ∧ (∃ records durable, z.log.Coherent records durable) ∧
          z.log.disk.plan = [] := by
      obtain ⟨missing, z, hr, hsub, hz⟩ := ih hrest hle fun e he => hkept e (List.mem_cons_of_mem _ he)
      exact ⟨missing, z, hr, fun _ he => List.mem_cons_of_mem _ (hsub he), hz⟩
    unfold reconcile
    split
    . next hle =>
      have hcovered := hy.shows.covered
      exact hskip (by omega)
    next hgt =>
    rw [filter_of_follows hrest (by omega), bind_get]
    dsimp only
    cases hterm : y.log.termAt? entry.index with
    | none =>
      -- past the end of the log: this entry and all after it are missing
      have hlast : ¬ entry.index ≤ g.length := by
        intro hle
        rw [hy.shows.termAt? (by omega) hle] at hterm
        cases hterm
      refine ⟨_, y, rfl, List.Subset.refl _, ?_, hy.coherent, hy.calm⟩
      rw [hy.shows.lastIndex, show g.length = base by omega]
      exact ⟨hindex, hrest⟩
    | some term =>
      obtain ⟨hle, hsame⟩ := hy.shows.of_termAt? hterm
      dsimp only
      split
      . exact hskip (by omega)
      next hconflict =>
      -- an entry that differs is not committed, so it may be discarded
      rw [bind_get, if_neg]
      swap
      . intro hcommitted
        exact hconflict (hsame ▸ hkept entry List.mem_cons_self hcommitted hle)
      obtain ⟨records, durable, hcoherent⟩ := hy.coherent
      obtain ⟨log, hdiscard, hcoherent', hcalm, hlast⟩ :=
        discardFrom_total hcoherent hy.calm (by omega) (hy.shows.lastIndex ▸ hle)
      rw [bind_of_ok (onLog_ok hdiscard), bind_of_ok (rejectFrom_eq entry.index)]
      refine ⟨_, _, rfl, List.Subset.refl _, ?_, hcoherent', hcalm⟩
      show Follows log.lastIndex (entry :: rest)
      rw [show log.lastIndex = base by omega]
      exact ⟨hindex, hrest⟩

theorem onAppendRequest_total (clock : Clock) (hy : y.Holds g) {request : AppendRequest} (hterm : y.term ≤ request.term)
    (hfollows : Follows request.prevIndex request.entries) (hfits : ∀ e ∈ request.entries, e.Fits)
    (hkept : ∀ e ∈ request.entries, e.index ≤ y.commitIndex → e.index ≤ g.length →
      g.termAt e.index = e.term)
    : ∃ response z, onAppendRequest request clock y = .ok response z ∧ (response.success = true ∨
        response.success = false ∧ response.term = request.term ∧ z.Holds g ∧ z.term = request.term ∧
          z.log.snapshotIndex = y.log.snapshotIndex ∧ z.commitIndex = y.commitIndex ∧
          ¬ (request.prevIndex ≤ g.length ∧ g.termAt request.prevIndex = request.prevTerm)) := by
  obtain ⟨z, hfollow, hz, hzterm, hindex, hcommitted⟩ := follow_total clock hy hterm request.leader
  unfold onAppendRequest ensureRunning
  rw [bind_assoc, bind_get, hy.running, if_neg Bool.false_ne_true, pure_bind, bind_get,
    if_neg (Nat.not_lt.2 hterm), bind_of_ok hfollow, bind_get]
  dsimp only
  split
  . next hmissing =>
    refine ⟨_, z, rfl, .inr ⟨rfl, hzterm, hz, hzterm, hindex, hcommitted, ?_⟩⟩
    rintro ⟨hle, hsame⟩
    rw [hz.shows.termAt? hmissing.1 hle, hsame] at hmissing
    exact hmissing.2 rfl
  next hmatches =>
  have hbase : request.prevIndex ≤ g.length := by
    by_cases hle : z.log.snapshotIndex ≤ request.prevIndex
    . by_contra hlt
      exact hmatches ⟨hle, by simp [hz.shows.termAt?_none (Nat.not_le.1 hlt)]⟩
    . have hcovered := hz.shows.covered
      omega
  rw [← hcommitted] at hkept
  obtain ⟨missing, w, hreconcile, hsub, hgoes, ⟨records, durable, hcoherent⟩, hcalm⟩ :=
    reconcile_total clock hz hfollows hbase hkept
  obtain ⟨log, happend⟩ := append_total hcoherent hcalm (fun e he => hfits e (hsub he)) hgoes
  obtain ⟨z', hcommit⟩ := commitThrough_total clock { w with log }
    (min request.commit (request.prevIndex + request.entries.length))
  rw [bind_of_ok hreconcile, bind_of_ok (onLog_ok happend), bind_of_ok hcommit]
  exact ⟨_, z', rfl, .inl rfl⟩

theorem messageFor_total (clock : Clock) (hx : x.Holds h) (hstored : ∃ snapshot, x.log.Knows snapshot)
    (hp : x.progress? peer = some p) (hnext : 0 < p.next)
    : (∃ request, messageFor peer clock x = .ok (some (.snapshot request)) x) ∨
        ∃ request, messageFor peer clock x = .ok (some (.append request)) x ∧ request.term = x.term ∧
          request.prevIndex + 1 = min p.next (h.length + 1) ∧
          request.prevTerm = h.termAt request.prevIndex ∧
          Follows request.prevIndex request.entries ∧ ∀ e ∈ request.entries, e ∈ h ∧ e.Fits := by
  have hleads := Node.leads_of_progress? hp
  have hplace : max 1 (min (((x.progress? peer).map (·.next)).getD (x.log.lastIndex + 1))
      (x.log.lastIndex + 1)) = min p.next (h.length + 1) := by
    rw [hp, hx.shows.lastIndex]
    show max 1 (min p.next (h.length + 1)) = min p.next (h.length + 1)
    omega
  have hmessage : messageFor peer clock x = nextMessage peer clock x := by
    unfold messageFor
    rw [bind_get, hx.running, hleads]
    rfl
  -- what the log no longer has is sent as the snapshot that covers it
  by_cases hbehind : min p.next (h.length + 1) ≤ x.log.snapshotIndex
  . obtain ⟨snapshot, hknows⟩ := hstored
    have hindex := hknows.snapshotIndex
    cases snapshot with
    | none =>
      change x.log.snapshotIndex = 0 at hindex
      omega
    | some snapshot =>
      refine .inl ⟨⟨x.term, x.id, snapshot.index, snapshot.term, snapshot.data⟩, ?_⟩
      rw [hmessage]
      unfold nextMessage
      rw [bind_get, hplace, if_pos hbehind, bind_of_ok (attempt_ok (onLog_ok hknows.storedSnapshot))]
      rfl
  . have hlow : x.log.snapshotIndex ≤ min p.next (h.length + 1) - 1 := by omega
    have hterm := hx.shows.termAt? hlow (by omega)
    have hentries := hx.shows.takeFrom (Nat.not_le.1 hbehind) (max 1 x.config.entriesPerAppend)
    refine .inr ⟨⟨x.term, x.id, min p.next (h.length + 1) - 1, h.termAt (min p.next (h.length + 1) - 1),
      x.log.takeFrom (min p.next (h.length + 1)) (max 1 x.config.entriesPerAppend), x.commitIndex⟩,
      ?_, rfl, ?_, rfl, ?_, ?_⟩
    . rw [hmessage]
      unfold nextMessage
      rw [bind_get, hplace, if_neg hbehind, hterm]
      rfl
    . show min p.next (h.length + 1) - 1 + 1 = min p.next (h.length + 1)
      omega
    . dsimp only
      rw [hentries]
      exact hx.shows.numbered.follows.take _
    . intro e he
      obtain ⟨records, durable, hcoherent⟩ := hx.coherent
      dsimp only at he
      have hmem : e ∈ h := by
        rw [hentries] at he
        exact List.mem_of_mem_drop (List.mem_of_mem_take he)
      unfold LogStore.takeFrom at he
      rw [if_neg hbehind] at he
      exact ⟨hmem, hcoherent.entry_fits (List.mem_of_mem_drop (List.mem_of_mem_take he))⟩

theorem acknowledged_eq (hrunning : x.halted = false) (hleads : x.role.isLeader = true) {responseTerm : Nat}
    (hterm : responseTerm = x.term)
    : acknowledged peer x.term responseTerm clock x
        = .ok true (x.updateProgress peer fun p => { p with ackedAt := some clock.now }) := by
  unfold acknowledged
  rw [bind_get, hrunning, if_neg Bool.false_ne_true, if_neg (by omega), hleads, if_neg (by simp)]
  rfl

theorem onAppendResponse_rejected (clock : Clock) (hrunning : x.halted = false) (hp : x.progress? peer = some p)
    {response : AppendResponse} (hno : response.success = false) (hterm : response.term = x.term) (carried : Bool)
    : ∃ x', onAppendResponse peer x.term carried response clock x
          = .ok (true, if backOff p response.resumeAt ≠ p.next then [.replicate peer] else []) x' ∧
        x'.progress? peer = some { p with ackedAt := some clock.now, next := backOff p response.resumeAt } ∧
        x'.log = x.log ∧ x'.hard = x.hard ∧ x'.halted = x.halted := by
  have hacked := x.progress?_updateProgress peer fun p => { p with ackedAt := some clock.now }
  rw [hp] at hacked
  unfold onAppendResponse
  rw [bind_of_ok (acknowledged_eq hrunning (Node.leads_of_progress? hp) hterm), if_pos rfl, hno,
    if_neg Bool.false_ne_true, bind_get, hacked]
  refine ⟨_, rfl, ?_, ?_, ?_, ?_⟩
  . rw [Node.progress?_updateProgress, hacked]
    rfl
  . rw [Node.updateProgress_log, Node.updateProgress_log]
  . rw [Node.updateProgress_hard, Node.updateProgress_hard]
  . rw [Node.updateProgress_halted, Node.updateProgress_halted]

end NodeM

namespace Node

theorem backOff_between (hint : Nat) (hlt : p.matched + 1 < p.next)
    : p.matched < NodeM.backOff p hint ∧ NodeM.backOff p hint < p.next := by
  unfold NodeM.backOff
  split <;> omega

theorem Faces.termAt_of_mem (hf : x.Faces y peer p h g) (hcommitted : g.take y.commitIndex <+: h) {e : LogEntry}
    (he : e ∈ h) (hle : e.index ≤ y.commitIndex) (hheld : e.index ≤ g.length)
    : g.termAt e.index = e.term := by
  obtain ⟨-, hsame⟩ := hf.leader.shows.numbered.termAt_index he
  rw [← hsame, History.termAt_of_isPrefix hcommitted (by rw [List.length_take]; omega), History.termAt_take hle]

theorem Faces.matched_lt (hf : x.Faces y peer p h g) {index : Nat} (hindex : index + 1 = min p.next (h.length + 1))
    (hmissing : ¬ (index ≤ g.length ∧ g.termAt index = h.termAt index))
    : p.matched + 1 < p.next := by
  have hlength := hf.agrees.length_le
  rw [List.length_take] at hlength
  have hheld := hf.held
  have hnext := hf.next
  by_contra hle
  have hplace : index = p.matched := by omega
  apply hmissing
  rw [hplace]
  refine ⟨hheld, ?_⟩
  rw [History.termAt_of_isPrefix hf.agrees (by rw [List.length_take]; omega),
    History.termAt_take (Nat.le_refl _)]

theorem Faces.probe (hf : x.Faces y peer p h g) (hcommitted : g.take y.commitIndex <+: h) (here there : Clock)
    : (∃ request, x.probe peer here there y = .snapshot request) ∨
        (∃ z, x.probe peer here there y = .accepted z) ∨
        ∃ x' y' p' orders, x.probe peer here there y = .rejected x' y' orders ∧
          x.BacksOff x' peer p p' orders ∧ x'.Faces y' peer p' h g ∧ y'.commitIndex = y.commitIndex := by
  have hnext := hf.next
  rcases NodeM.messageFor_total here hf.leader hf.stored hf.progress (by omega) with
    ⟨request, hsend⟩ | ⟨request, hsend, hterm, hprev, hprevTerm, hfollows, hentries⟩
  . left
    unfold Node.probe
    rw [hsend]
    exact ⟨request, rfl⟩
  right
  obtain ⟨response, z, hanswer, hresponse⟩ := NodeM.onAppendRequest_total there hf.follower
    (hterm ▸ hf.term) hfollows (fun e he => (hentries e he).2)
    fun e he => hf.termAt_of_mem hcommitted (hentries e he).1
  unfold Node.probe
  rw [hsend]
  dsimp only
  rw [hanswer]
  dsimp only
  rcases hresponse with hyes | ⟨hno, hsame, hz, hzterm, hindex, hcommit, hmissing⟩
  . rw [hyes]
    exact .inl ⟨z, rfl⟩
  right
  -- a rejected place lies beyond what the two share, so there is room to back off
  have hlt := hf.matched_lt hprev (hprevTerm ▸ hmissing)
  obtain ⟨x', hresult, hprogress, hlog, hhard, hhalted⟩ := NodeM.onAppendResponse_rejected here
    hf.leader.running hf.progress hno (hsame.trans hterm) (!request.entries.isEmpty)
  obtain ⟨habove, hlower⟩ := backOff_between response.resumeAt hlt
  rw [hno, if_neg Bool.false_ne_true, hterm, hresult]
  refine ⟨x', z, _, _, rfl, ⟨hf.progress, hprogress, rfl, habove, hlower, if_pos (Nat.ne_of_lt hlower)⟩,
    ?_, hcommit⟩
  exact {
    leader := ⟨hhalted ▸ hf.leader.running, hlog ▸ hf.leader.shows, hlog ▸ hf.leader.coherent,
      hlog ▸ hf.leader.calm⟩
    stored := hlog ▸ hf.stored
    progress := hprogress
    follower := hz
    term := by
      show z.term ≤ x'.hard.term
      rw [hzterm, hterm, hhard]
      exact Nat.le_refl _
    snapshot := hindex ▸ hf.snapshot
    held := hf.held
    agrees := hf.agrees
    next := habove }

theorem Faces.settles_of_le {n : Nat} (hf : x.Faces y peer p h g) (hcommitted : g.take y.commitIndex <+: h)
    (hn : p.next - p.matched ≤ n)
    : x.Settles peer n y := by
  -- a rejection lowers what is sent next, and it stays above what agrees
  induction n generalizing x y p with
  | zero =>
    have hnext := hf.next
    omega
  | succ n ih =>
    intro here there
    rcases hf.probe hcommitted here there with
      ⟨request, hprobe⟩ | ⟨z, hprobe⟩ | ⟨x', y', p', orders, hprobe, hbacks, hf', hcommit⟩
    . rw [hprobe]
      trivial
    . rw [hprobe]
      trivial
    . rw [hprobe]
      refine ⟨⟨p, p', hbacks⟩, ih hf' (hcommit ▸ hcommitted) ?_⟩
      have hlower := hbacks.lower
      have hsame := hbacks.matched
      omega

theorem not_settles_of_fails {m : Nat} (hfails : x.fails peer clock m y = true) (n : Nat)
    : ¬ x.Settles peer n y := by
  induction m generalizing x y n with
  | zero => cases hfails
  | succ m ih =>
    cases n with
    | zero => exact False.elim
    | succ n =>
      intro hsettles
      have hprobe := hsettles clock clock
      unfold fails at hfails
      cases hr : x.probe peer clock clock y with
      | rejected x' y' orders =>
        rw [hr] at hfails hprobe
        exact ih hfails n hprobe.2
      | failed =>
        rw [hr] at hprobe
        exact hprobe
      | _ =>
        rw [hr] at hfails
        cases hfails

end Node

/-- A leader that is rejected tries again further to the front, and behind what is known to agree, until it
sends its snapshot or the peer accepts. The hint of the peer may be anything. What the peer has committed is in
the leader's history; it would not remove it. -/
theorem backingOff_settles (hf : x.Faces y peer p h g) (hcommitted : g.take y.commitIndex <+: h)
    : x.Settles peer (p.next - p.matched) y :=
  hf.settles_of_le hcommitted (Nat.le_refl _)

theorem LogStore.knows_none {log : LogStore} (hfile : log.disk.find? snapshotName = none)
    (hindex : log.snapshotIndex = 0) (hterm : log.snapshotTerm = 0)
    : log.Knows none := by
  refine ⟨?_, hindex, hterm⟩
  unfold readSnapshot
  rw [EStateM.bind_of_ok (Disk.read?_holds (show log.disk.Holds snapshotName none from hfile))]
  rfl

namespace Contested

def start : Clock := ⟨0, 0⟩

-- A node that has an entry of the leader of term 2, and is elected in term 3.
def electing : List Episode :=
  [.open ["a", "b", "c"] {} start,
    .act start (.handle "b" (.append {
      term := 2, leader := "b", prevIndex := 0, prevTerm := 0, commit := 0, entries := [⟨2, 1, []⟩] })),
    .act start .tick,
    .act start (.take "b" (.vote { term := 3, candidate := "c", lastIndex := 1, lastTerm := 2 })
      (.vote { term := 3, granted := true }))]

-- A node that has an entry of the leader of term 1.
def following (commit : Nat) : List Episode :=
  [.open ["a", "b", "c"] {} start,
    .act start (.handle "b" (.append {
      term := 1, leader := "b", prevIndex := 0, prevTerm := 0, commit, entries := [⟨1, 1, []⟩] }))]

def led : History := [⟨2, 1, []⟩, ⟨3, 2, []⟩]

def followed : History := [⟨1, 1, []⟩]

def progress : Progress := { next := 2 }

def leader? : Option Node := (electing.foldl (Host.perform "c") (.stopped {})).node?

def follower? (commit : Nat) : Option Node := ((following commit).foldl (Host.perform "a") (.stopped {})).node?

structure Facts where
  halted : Bool := false
  term : Nat
  snapshotIndex : Nat := 0
  snapshotTerm : Nat := 0
  entries : List LogEntry
  stored : Bool := false
  deriving DecidableEq

def facts (x : Node) : Facts where
  halted := x.halted
  term := x.term
  snapshotIndex := x.log.snapshotIndex
  snapshotTerm := x.log.snapshotTerm
  entries := x.log.entries
  stored := (x.log.disk.find? LogStore.snapshotName).isSome

theorem holds_of_facts {id : NodeId} {episodes : List Episode} (horderly : ∀ e ∈ episodes, e.Orderly)
    (hlife : (episodes.foldl (Host.perform id) (.stopped {})).node? = some x) {term : Nat}
    (hfacts : facts x = { term, entries := h }) (hnumbered : h.Numbered)
    : x.Holds h ∧ x.log.Knows none ∧ x.term = term := by
  have hstart : (Host.stopped {}).Orderly := Volume.sound_empty
  have hprogresses : (episodes.foldl (Host.perform id) (.stopped {})).Orderly := hstart.run horderly
  rw [Host.node?_eq_some.1 hlife] at hprogresses
  have hprogresses : x.Progresses x := hprogresses
  unfold facts at hfacts
  simp only [Facts.mk.injEq, Option.isSome_eq_false_iff, Option.isNone_iff_eq_none] at hfacts
  obtain ⟨hrunning, hterm, hindex, hsnapshotTerm, hentries, hfile⟩ := hfacts
  refine ⟨⟨hrunning, ⟨hnumbered, ?_, ?_, ?_⟩, hprogresses.coherent, hprogresses.calm⟩,
    LogStore.knows_none hfile hindex hsnapshotTerm, hterm⟩
  . omega
  . rw [hentries, hindex]
    rfl
  . rw [hsnapshotTerm, hindex]
    rfl

theorem exists_faces {commit : Nat} (horderly : ∀ e ∈ following commit, e.Orderly)
    (hseen : (follower? commit).map (fun y => (facts y, y.commitIndex))
      = some ({ term := 1, entries := followed }, commit))
    : ∃ x y, leader? = some x ∧ follower? commit = some y ∧ y.commitIndex = commit ∧
        x.Faces y "a" progress led followed := by
  have hled : leader?.map (fun x => (facts x, x.progress? "a"))
      = some ({ term := 3, entries := led }, some progress) := by
    decide +kernel
  have hnumbered : led.Numbered ∧ followed.Numbered := by
    unfold History.Numbered
    decide
  obtain ⟨x, hx, hsame⟩ := Option.map_eq_some_iff.1 hled
  obtain ⟨hfacts, hprogress⟩ := Prod.mk.inj hsame
  obtain ⟨y, hy, hsame'⟩ := Option.map_eq_some_iff.1 hseen
  obtain ⟨hfacts', hcommit⟩ := Prod.mk.inj hsame'
  obtain ⟨hleader, hknows, hterm⟩ := holds_of_facts (by decide +kernel) hx hfacts hnumbered.1
  obtain ⟨hfollower, hknows', hterm'⟩ := holds_of_facts horderly hy hfacts' hnumbered.2
  have hindex : y.log.snapshotIndex = 0 := hknows'.snapshotIndex
  refine ⟨x, y, hx, hy, hcommit, hleader, ⟨none, hknows⟩, hprogress, hfollower, ?_, ?_, ?_, ?_, ?_⟩
  . omega
  . rw [hindex]
    exact List.nil_prefix
  . exact Nat.zero_le _
  . exact List.nil_prefix
  . decide

end Contested

theorem backingOff_settles_contested
    : ∃ x y, Contested.leader? = some x ∧ Contested.follower? 0 = some y ∧
        x.Faces y "a" Contested.progress Contested.led Contested.followed ∧ x.Settles "a" 2 y := by
  have horderly : ∀ e ∈ Contested.following 0, e.Orderly := by
    decide +kernel
  obtain ⟨x, y, hx, hy, hcommit, hfaces⟩ := Contested.exists_faces horderly (by decide +kernel)
  refine ⟨x, y, hx, hy, hfaces, backingOff_settles hfaces ?_⟩
  rw [hcommit]
  exact List.nil_prefix

theorem backingOff_refused
    : ∃ (x y : Node) (p : Progress) (h g : History), x.Faces y "a" p h g ∧
        h.Pairwise (·.term ≤ ·.term) ∧ g.Pairwise (·.term ≤ ·.term) ∧
        (∀ i ≤ min h.length g.length, h.termAt i = g.termAt i → h.take i = g.take i) ∧
        ∀ n, ¬ x.Settles "a" n y := by
  have horderly : ∀ e ∈ Contested.following 1, e.Orderly := by
    decide +kernel
  obtain ⟨x, y, hx, hy, -, hfaces⟩ := Contested.exists_faces horderly (by decide +kernel)
  have hfails : (do
      let x ← Contested.leader?
      let y ← Contested.follower? 1
      return x.fails "a" Contested.start 2 y) = some true := by
    decide +kernel
  rw [hx, hy] at hfails
  exact ⟨x, y, _, _, _, hfaces, by decide, by decide, by decide,
    Node.not_settles_of_fails (Option.some.inj hfails)⟩

end ReplicatedStore
