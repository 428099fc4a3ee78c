import ReplicatedStore.Proofs.Consensus.Ballots

/-!
Runs in which steps on the disks of members may fail, at any time, and what stays true in them of the part
that members take in elections.
-/

namespace ReplicatedStore

/-- An event, and the outcome of the next steps on the disk of its member. -/
structure Trial where
  event : Event
  plan : List (Option Fault) := []

def Node.planned (node : Node) (plan : List (Option Fault)) : Node :=
  { node with log := { node.log with disk := { node.log.disk with plan } } }

def Host.planned (plan : List (Option Fault)) : Host → Host
  | .running node => .running (node.planned plan)
  | .stopped disk => .stopped { disk with plan }

def Host.saved (host : Host) : Option HardState :=
  match HardState.load host.disk with
  | .ok state _ => some state
  | .error .. => none

namespace Deployment

def revive (K : Cluster) (d : Deployment) (n : NodeId) (config : ConsensusConfig) (clock : Clock) :
    Deployment :=
  match d.hosts n with
  | .running _ => d
  | .stopped disk =>
    if n ∈ K.ids then
      match Node.open n K.ids config clock disk with
      | .ok node _ => d.setHost n (.running node)
      | .error _ disk => d.setHost n (.stopped disk)
    else d

def endure (K : Cluster) (d : Deployment) (trial : Trial) : Deployment :=
  let n := trial.event.member
  let d := d.setHost n ((d.hosts n).planned trial.plan)
  match trial.event with
  | .act n clock move => d.act n clock move
  | .crash n powerLost => d.crash n powerLost
  | .open n config clock => d.revive K n config clock

end Deployment

def Cluster.ordeal (K : Cluster) (trials : List Trial) (k : Nat) : Deployment :=
  (trials.take k).foldl (Deployment.endure K) {}

section Votes

variable (K : Cluster) (trials : List Trial)

def Voted (k : Nat) (voter : NodeId) (term : Nat) (candidate : NodeId) : Prop :=
  ∃ j ≤ k, ((K.ordeal trials j).hosts voter).saved = some ⟨term, some candidate⟩

def Collected (k : Nat) (candidate : NodeId) (term : Nat) (peer : NodeId) : Prop :=
  ∃ j < k, ∃ clock q r plan x votes,
    trials[j]? = some ⟨.act candidate clock (.take peer (.vote q) (.vote r)), plan⟩ ∧
    q.term = term ∧ r.granted = true ∧ (K.ordeal trials j).node? candidate = some x ∧
    (Move.take peer (.vote q) (.vote r)).possible candidate (K.ordeal trials j).packets x = true ∧
    x.term = term ∧ x.role = .candidate votes

def Polled (k : Nat) (n : NodeId) (term : Nat) (votes : List NodeId) : Prop :=
  ∀ v ∈ votes, Voted K trials k v term n ∧ (v = n ∨ Collected K trials k n term v)

def Elected (k : Nat) (n : NodeId) (term : Nat) : Prop :=
  ∃ quorum, IsQuorum K.ids quorum ∧ Polled K trials k n term quorum

def Overtaken (k : Nat) (n : NodeId) (term : Nat) : Prop :=
  ∃ j < k, ∃ x s, (K.ordeal trials j).node? n = some x ∧ x.role.isLeader = true ∧ x.term < term ∧
    ((K.ordeal trials (j + 1)).hosts n).saved = some s ∧ s.term < term ∧
    ∀ i, j < i → i ≤ k →
      ∃ y, (K.ordeal trials i).node? n = some y ∧ y.role.isLeader = true ∧ y.term = term

end Votes

variable {K : Cluster} {trials : List Trial} {trial : Trial} {i j k T : Nat} {m n v : NodeId}
  {x y : Node} {s s' : HardState} {host : Host}

theorem ordeal_succ (h : trials[k]? = some trial)
    : K.ordeal trials (k + 1) = (K.ordeal trials k).endure K trial := by
  unfold Cluster.ordeal
  rw [List.take_add_one, h, Option.toList_some, List.foldl_concat]

theorem ordeal_succ_none (h : trials[k]? = none) : K.ordeal trials (k + 1) = K.ordeal trials k := by
  unfold Cluster.ordeal
  rw [List.take_add_one, h, Option.toList_none, List.append_nil]

namespace Deployment

variable {d : Deployment}

theorem revive_other {config : ConsensusConfig} {clock : Clock} (h : m ≠ n)
    : (d.revive K n config clock).hosts m = d.hosts m := by
  unfold revive
  split
  . rfl
  . split
    . split
      . simp [setHost, h]
      . simp [setHost, h]
    . rfl

theorem endure_other (h : trial.event.member ≠ m) : (d.endure K trial).hosts m = d.hosts m := by
  obtain ⟨event, plan⟩ := trial
  have hset : (d.setHost event.member ((d.hosts event.member).planned plan)).hosts m = d.hosts m := by
    simp [setHost, Ne.symm h]
  rw [← hset]
  cases event with
  | act n clock move => exact perform_other (K := K) (show (Event.act n clock move).member ≠ m from h)
  | crash n powerLost => exact perform_other (K := K) (show (Event.crash n powerLost).member ≠ m from h)
  | «open» n config clock => exact revive_other (Ne.symm h)

end Deployment

theorem Voted.mono (h : Voted K trials j v T n) (hle : j ≤ k) : Voted K trials k v T n := by
  obtain ⟨i, hi, hsaved⟩ := h
  exact ⟨i, Nat.le_trans hi hle, hsaved⟩

theorem Collected.mono (h : Collected K trials j n T v) (hle : j ≤ k) : Collected K trials k n T v := by
  obtain ⟨i, hi, hcollected⟩ := h
  exact ⟨i, Nat.lt_of_lt_of_le hi hle, hcollected⟩

theorem Polled.mono {votes : List NodeId} (h : Polled K trials j n T votes) (hle : j ≤ k)
    : Polled K trials k n T votes := by
  intro v hv
  obtain ⟨hvoted, hcollected⟩ := h v hv
  exact ⟨hvoted.mono hle, hcollected.imp id (·.mono hle)⟩

theorem Elected.mono (h : Elected K trials j n T) (hle : j ≤ k) : Elected K trials k n T := by
  obtain ⟨quorum, hquorum, hpolled⟩ := h
  exact ⟨quorum, hquorum, hpolled.mono hle⟩

theorem Overtaken.next (h : Overtaken K trials k n T) (hy : (K.ordeal trials (k + 1)).node? n = some y)
    (hleader : y.role.isLeader = true) (hterm : y.term = T)
    : Overtaken K trials (k + 1) n T := by
  obtain ⟨j, hj, x, s, hx, hxl, hlt, hsaved, hs, hsince⟩ := h
  refine ⟨j, Nat.lt_succ_of_lt hj, x, s, hx, hxl, hlt, hsaved, hs, ?_⟩
  intro i hji hik
  rcases Nat.eq_or_lt_of_le hik with rfl | hik
  . exact ⟨y, hy, hleader, hterm⟩
  . exact hsince i hji (Nat.le_of_lt_succ hik)

def Host.Guards (host : Host) (s : HardState) : Prop :=
  match host with
  | .running node => node.log.Safe s
  | .stopped disk => disk.Guards s

theorem Host.Guards.disk (h : host.Guards s) : host.disk.Guards s := by
  cases host with
  | running node => exact h.guards
  | stopped disk => exact h

theorem Host.Guards.saved (h : host.Guards s) : host.saved = some s := by
  unfold Host.saved
  rw [HardState.load_ok h.disk.fits h.disk.file]

theorem Host.Guards.unique (h : host.Guards s) (h' : host.Guards s') : s = s' := by
  have hsaved := h.saved
  rw [h'.saved] at hsaved
  exact (Option.some.inj hsaved).symm

theorem Host.Guards.planned (h : host.Guards s) (plan : List (Option Fault))
    : (host.planned plan).Guards s := by
  cases host with
  | running node =>
    have hspares := Volume.spares_plan h.guards.sound plan
    exact ⟨h.guards.spares hspares, hspares.apart _ h.apart⟩
  | stopped disk => exact h.spares (Volume.spares_plan h.sound plan)

def Honest (K : Cluster) (trials : List Trial) (k : Nat) : Packet → Prop
  | .request source _ (.vote q) => q.candidate = source ∧ source ∈ K.ids ∧ q.term < 2 ^ 64 ∧
    Voted K trials k source q.term source
  | .request _ _ (.append q) => q.term < 2 ^ 64
  | .request _ _ (.snapshot q) => q.term < 2 ^ 64
  | .response asker answerer (.vote q) (.vote r) => r.term < 2 ^ 64 ∧
    (r.granted = true → answerer ∈ K.ids ∧ Voted K trials k answerer q.term asker ∧
      Voted K trials k asker q.term asker)
  | .response _ _ _ (.append r) => r.term < 2 ^ 64
  | .response _ _ _ (.snapshot r) => r.term < 2 ^ 64
  | _ => True

theorem Honest.mono {p : Packet} (h : Honest K trials j p) (hle : j ≤ k) : Honest K trials k p := by
  cases p with
  | request source target q =>
    cases q with
    | vote q => exact ⟨h.1, h.2.1, h.2.2.1, h.2.2.2.mono hle⟩
    | append q => exact h
    | snapshot q => exact h
    | commit q => exact h
  | response asker answerer q r =>
    cases r with
    | vote r =>
      cases q with
      | vote q =>
        refine ⟨h.1, fun hgranted => ?_⟩
        obtain ⟨hmember, hvoted, hown⟩ := h.2 hgranted
        exact ⟨hmember, hvoted.mono hle, hown.mono hle⟩
      | append q => exact h
      | snapshot q => exact h
      | commit q => exact h
    | append r => cases q <;> exact h
    | snapshot r => cases q <;> exact h
    | commit r => cases q <;> exact h

def Asked (K : Cluster) (trials : List Trial) (k : Nat) (candidate : NodeId) (term : Nat) : Prop :=
  candidate ∈ K.ids ∧ Voted K trials k candidate term candidate

structure Granted (K : Cluster) (trials : List Trial) (k : Nat) (n peer : NodeId) (term : Nat) : Prop where
  member : peer ∈ K.ids
  voted : Voted K trials k peer term n
  own : Voted K trials k n term n
  collected : ∀ x votes, (K.ordeal trials k).node? n = some x → x.term = term →
    x.role = .candidate votes → Collected K trials (k + 1) n term peer

def Sends (K : Cluster) (trials : List Trial) (k : Nat) (n : NodeId) (y : Node) : Packet → Prop
  | .request source _ (.vote q) => source = n ∧ q.candidate = n ∧ q.term = y.term ∧
    y.log.Safe ⟨q.term, some n⟩
  | .request _ _ (.append q) => q.term = y.term
  | .request _ _ (.snapshot q) => q.term = y.term
  | .response asker answerer (.vote q) (.vote r) => r.term = y.term ∧ answerer = n ∧
    (r.granted = true → y.log.Safe ⟨q.term, some asker⟩ ∧ Asked K trials k asker q.term)
  | .response _ _ _ (.append r) => r.term = y.term
  | .response _ _ _ (.snapshot r) => r.term = y.term
  | _ => True

theorem AsksSaved.sends {orders : List Order} (h : NodeM.AsksSaved y orders) (hid : y.id = n)
    : ∀ p ∈ orders.filterMap (Order.packet? n), Sends K trials k n y p := by
  intro p hp
  obtain ⟨order, horder, hpacket⟩ := List.mem_filterMap.1 hp
  cases order with
  | askVote peer request =>
    cases hpacket
    obtain ⟨hcandidate, hterm, hsafe⟩ := h peer request horder
    rw [hid] at hcandidate
    rw [hcandidate] at hsafe
    exact ⟨rfl, hcandidate, hterm, hsafe⟩
  | replicate peer => cases hpacket

theorem sends_nil : ∀ p ∈ ([] : List Packet), Sends K trials k n y p := by
  intro p hp
  cases hp

theorem sends_catchUp {message : CatchUp} {target : NodeId} (h : message.term = y.term)
    : Sends K trials k n y (.request n target message.request) := by
  cases message with
  | append q => exact h
  | snapshot q => exact h

structure Candidacy (K : Cluster) (trials : List Trial) (k : Nat) (n : NodeId) (term : Nat) (s : HardState)
    (votes : List NodeId) : Prop where
  nodup : votes.Nodup
  subset : votes ⊆ K.ids
  polled : s = ⟨term, some n⟩ → Polled K trials k n term votes

/-- The part that a member takes in elections. -/
structure Office (K : Cluster) (trials : List Trial) (k : Nat) (n : NodeId) (x : Node) (s : HardState) :
    Prop where
  member : n ∈ K.ids
  id : x.id = n
  peers : x.peers = K.others n
  fits : x.hard.Fits
  safe : x.log.Safe s
  saved : s.Precedes x.hard
  candidate : ∀ votes, x.role = .candidate votes → Candidacy K trials k n x.term s votes
  leader : x.role.isLeader = true → Elected K trials k n x.term ∨ Overtaken K trials k n x.term

variable {clock : Clock} {move : Move} {plan : List (Option Fault)} {asked granted : NodeId → Nat → Prop}

theorem ends_handle {source : NodeId} {q : Request} (hx : Office K trials k n x s)
    (hq : Honest K trials k (.request source n q))
    : EStateM.Ends (Shifts (Asked K trials k) granted s x ·)
        (fun r y => Sends K trials k n y (.response source n q r)) (World.rpc q clock x) := by
  cases q with
  | vote q =>
    obtain ⟨rfl, hmember, hlt, hvoted⟩ := hq
    apply EStateM.Ends.map (x := NodeM.onVoteRequest q clock)
      (NodeM.ends_onVoteRequest hx.safe hx.fits (K.short _ hmember) hlt ⟨hmember, hvoted⟩)
    rintro r y - ⟨hterm, hsafe⟩
    exact ⟨hterm, rfl, fun hgranted => ⟨hsafe hgranted, hmember, hvoted⟩⟩
  | append q =>
    apply EStateM.Ends.map (x := NodeM.onAppendRequest q clock) (NodeM.ends_onAppendRequest hx.safe hq)
    exact fun r y _ hterm => hterm
  | snapshot q =>
    apply EStateM.Ends.map (x := NodeM.onSnapshotRequest q clock)
      (NodeM.ends_onSnapshotRequest hx.safe hq)
    exact fun r y _ hterm => hterm
  | commit q => exact (Node.Quiet.refl x).shifts hx.safe

theorem ends_take {peer : NodeId} {q : Request} {r : Response} (hx : Office K trials k n x s)
    (hr : Honest K trials k (.response n peer q r))
    (hgranted : ∀ q' r', q = .vote q' → r = .vote r' → r'.granted = true →
      Granted K trials k n peer q'.term)
    : EStateM.Ends (Shifts asked (Granted K trials k n) s x ·)
        (fun sent y => ∀ p ∈ sent, Sends K trials k n y p) ((Move.take peer q r).action n clock x) := by
  have hnone : EStateM.Ends (Shifts asked (Granted K trials k n) s x ·)
      (fun sent y => ∀ p ∈ sent, Sends K trials k n y p)
      (.ok [] x : EStateM.Result Error Node (List Packet)) :=
    ⟨(Node.Quiet.refl x).shifts hx.safe, sends_nil⟩
  cases q with
  | vote q =>
    cases r with
    | vote r =>
      apply EStateM.Ends.bind (x := NodeM.onVoteResponse peer q.term r clock)
        (NodeM.ends_onVoteResponse hx.safe hr.1 (hgranted q r rfl rfl))
      intro orders y hy horders
      exact ⟨hy, AsksSaved.sends (NodeM.asksSaved_of_onlyReplicate horders) (hy.id.trans hx.id)⟩
    | _ => exact hnone
  | append q =>
    cases r with
    | append r =>
      apply EStateM.Ends.bind (x := NodeM.onAppendResponse peer q.term (!q.entries.isEmpty) r clock)
        (NodeM.ends_onAppendResponse hx.safe hr peer q.term _)
      intro result y hy horders
      exact ⟨hy, AsksSaved.sends (NodeM.asksSaved_of_onlyReplicate horders) (hy.id.trans hx.id)⟩
    | _ => exact hnone
  | snapshot q =>
    cases r with
    | snapshot r =>
      apply EStateM.Ends.bind (x := NodeM.onSnapshotResponse peer q.term q.index r clock)
        (NodeM.ends_onSnapshotResponse hx.safe hr peer q.term q.index)
      intro result y hy horders
      exact ⟨hy, AsksSaved.sends (NodeM.asksSaved_of_onlyReplicate horders) (hy.id.trans hx.id)⟩
    | _ => exact hnone
  | commit q => exact hnone

theorem ends_quietly {α : Type} {action : NodeM α} {f : α → List Packet} {Q : α → Node → Prop}
    (hx : Office K trials k n x s) (h : EStateM.Ends (x.Quiet ·) Q (action clock x))
    (hf : ∀ a y, x.Quiet y → Q a y → ∀ p ∈ f a, Sends K trials k n y p)
    : EStateM.Ends (Shifts asked granted s x ·) (fun sent y => ∀ p ∈ sent, Sends K trials k n y p)
        ((do return f (← action) : NodeM (List Packet)) clock x) := by
  apply EStateM.Ends.bind (P := (Shifts asked granted s x ·)) (x := action clock)
    (Q := fun a y => x.Quiet y ∧ Q a y)
  . cases hr : action clock x with
    | ok a y =>
      rw [hr] at h
      exact ⟨h.1.shifts hx.safe, h⟩
    | error e y =>
      rw [hr] at h
      exact Node.Quiet.shifts h hx.safe
  . intro a y hy hq
    exact ⟨hy, hf a y hq.1 hq.2⟩

theorem possible_planned (plan : List (Option Fault)) {packets : List Packet}
    : move.possible n packets (x.planned plan) = move.possible n packets x := by
  cases move <;> rfl

theorem ends_action (hx : Office K trials k n (x.planned plan) s)
    (hnode : (K.ordeal trials k).node? n = some x)
    (hpackets : ∀ p ∈ (K.ordeal trials k).packets, Honest K trials k p)
    (htrial : trials[k]? = some ⟨.act n clock move, plan⟩)
    (hpossible : move.possible n (K.ordeal trials k).packets x = true)
    : EStateM.Ends (Shifts (Asked K trials k) (Granted K trials k n) s (x.planned plan) ·)
        (fun sent y => ∀ p ∈ sent, Sends K trials k n y p) (move.action n clock (x.planned plan)) := by
  cases move with
  | tick =>
    have hroom := (Node.hasRoom_iff.1 hpossible).1
    have hname := K.short n hx.member
    rw [← hx.id] at hname
    apply EStateM.Ends.bind (x := NodeM.tick clock) (NodeM.ends_tick hx.safe hx.fits hroom hname)
    intro orders y hy horders
    exact ⟨hy, AsksSaved.sends horders (hy.id.trans hx.id)⟩
  | message peer =>
    apply ends_quietly hx (NodeM.ends_messageFor peer clock _)
    intro message y hy hterm p hp
    obtain ⟨m, hm, rfl⟩ := List.mem_map.1 hp
    exact sends_catchUp ((hterm m (Option.mem_toList.1 hm)).trans hy.term.symm)
  | openRound =>
    apply ends_quietly hx (NodeM.ends_openRound clock _)
    intro messages y hy hterm p hp
    obtain ⟨m, hm, rfl⟩ := List.mem_map.1 hp
    exact sends_catchUp ((hterm m hm).trans hy.term.symm)
  | propose proposal =>
    apply ends_quietly (f := fun _ => []) hx (NodeM.quietly_propose proposal clock _)
    exact fun _ _ _ _ => sends_nil
  | collect ticket =>
    refine ⟨Node.Quiet.shifts ?_ hx.safe, sends_nil⟩
    exact .of_log rfl rfl rfl rfl rfl
  | handle source q =>
    have hmem : Packet.request source n q ∈ (K.ordeal trials k).packets := List.contains_iff_mem.1 hpossible
    apply EStateM.Ends.bind (x := World.rpc q clock) (ends_handle hx (hpackets _ hmem))
    intro r y hy hr
    exact ⟨hy, List.forall_mem_singleton.2 hr⟩
  | take peer q r =>
    have hmem : Packet.response n peer q r ∈ (K.ordeal trials k).packets :=
      List.contains_iff_mem.1 (Bool.and_eq_true_iff.1 hpossible).1
    have hhonest := hpackets _ hmem
    apply ends_take hx hhonest
    rintro q r rfl rfl hgranted
    obtain ⟨hmember, hvoted, hown⟩ := hhonest.2 hgranted
    refine ⟨hmember, hvoted, hown, ?_⟩
    intro x' votes hx' hterm hrole
    rw [hnode] at hx'
    cases hx'
    exact ⟨k, Nat.lt_succ_self k, clock, q, r, plan, x, votes, htrial, rfl, hgranted, hnode, hpossible,
      hterm, hrole⟩
  | stop =>
    apply EStateM.Ends.bind (x := NodeM.stop clock) (NodeM.ends_stop hx.safe)
    intro _ y hy _
    exact ⟨hy, sends_nil⟩

end ReplicatedStore
