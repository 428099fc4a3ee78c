import ReplicatedStore.Proofs.Runs.Candidacies
import ReplicatedStore.Proofs.Runs.Safety

/-!
Who leads when saves of the hard state may fail: members that a majority elected, and leaders that learned
of a newer term and could not save it.
-/

namespace ReplicatedStore

-- Member a leads in term 1. It is asked for its vote in term 2, and its disk fails. Member c votes for b.

namespace Overtaking

open Handover (firstBallot)

def nextBallot : VoteRequest where
  term := 2
  candidate := "b"
  lastIndex := 0
  lastTerm := 0

def trials : List Trial := [
  { event := .open "a" {} ⟨0, 10⟩ },
  { event := .open "b" {} ⟨0, 10⟩ },
  { event := .open "c" {} ⟨0, 10⟩ },
  { event := .act "a" ⟨20, 10⟩ .tick },
  { event := .act "b" ⟨20, 10⟩ (.handle "a" (.vote firstBallot)) },
  { event := .act "a" ⟨20, 10⟩ (.take "b" (.vote firstBallot) (.vote ⟨1, true⟩)) },
  { event := .act "b" ⟨40, 10⟩ .tick },
  { event := .act "a" ⟨40, 10⟩ (.handle "b" (.vote nextBallot)), plan := [some {}] },
  { event := .act "c" ⟨40, 10⟩ (.handle "b" (.vote nextBallot)) },
  { event := .act "b" ⟨40, 10⟩ (.take "c" (.vote nextBallot) (.vote ⟨2, true⟩)) }]

end Overtaking

variable {K : Cluster} {trials : List Trial} {trial : Trial} {i j k T : Nat} {m n v : NodeId}
  {x y : Node} {s s' : HardState} {clock : Clock} {move : Move} {plan : List (Option Fault)}
  {votes : List NodeId} {peer : NodeId}

structure Attested (K : Cluster) (trials : List Trial) (k : Nat) (n : NodeId) (s : HardState) : Prop where
  guards : ((K.ordeal trials k).hosts n).Guards s
  votes : ∀ T c, Voted K trials k n T c → HardState.Precedes ⟨T, some c⟩ s
  office : ∀ x, (K.ordeal trials k).node? n = some x → Office K trials k n x s

structure Withstood (K : Cluster) (trials : List Trial) (k : Nat) : Prop where
  attested : ∀ n, ∃ s, Attested K trials k n s
  honest : ∀ p ∈ (K.ordeal trials k).packets, Honest K trials k p

def Passes (K : Cluster) (trials : List Trial) (k : Nat) (n : NodeId) : Prop :=
  ∃ s, Attested K trials (k + 1) n s ∧ ∀ p ∈ (K.ordeal trials (k + 1)).packets, Honest K trials (k + 1) p

theorem Attested.later (h : Attested K trials k n s) (hs : s.Precedes s')
    (hguards : ((K.ordeal trials (k + 1)).hosts n).Guards s')
    (hoffice : ∀ x, (K.ordeal trials (k + 1)).node? n = some x → Office K trials (k + 1) n x s')
    : Attested K trials (k + 1) n s' where
  guards := hguards
  votes T c hvoted := by
    obtain ⟨j, hj, hsaved⟩ := hvoted
    rcases Nat.eq_or_lt_of_le hj with rfl | hlt
    . rw [hguards.saved] at hsaved
      cases hsaved
      exact .refl _
    . exact (h.votes T c ⟨j, Nat.le_of_lt_succ hlt, hsaved⟩).trans hs
  office := hoffice

theorem Attested.same (h : Attested K trials k n s)
    (hhost : (K.ordeal trials (k + 1)).hosts n = (K.ordeal trials k).hosts n)
    : Attested K trials (k + 1) n s := by
  apply h.later (.refl s)
  . rw [hhost]
    exact h.guards
  . intro x hx
    apply (h.office x _).next hx
    rw [Deployment.node?_eq_some] at hx ⊢
    rw [← hhost, hx]

theorem Attested.planned (h : Attested K trials k n s) (plan : List (Option Fault))
    (hhost : (K.ordeal trials (k + 1)).hosts n = ((K.ordeal trials k).hosts n).planned plan)
    : Attested K trials (k + 1) n s := by
  apply h.later (.refl s)
  . rw [hhost]
    exact h.guards.planned plan
  . intro y hy
    have hrunning := Deployment.node?_eq_some.1 hy
    cases hx : (K.ordeal trials k).hosts n with
    | stopped disk =>
      rw [hhost, hx] at hrunning
      cases hrunning
    | running x =>
      rw [hhost, hx] at hrunning
      cases hrunning
      exact ((h.office x (Deployment.node?_eq_some.2 hx)).planned plan).next hy

theorem Attested.stopped (h : Attested K trials k n s) (disk : Volume)
    (hhost : (K.ordeal trials (k + 1)).hosts n = .stopped disk) (hguards : disk.Guards s)
    : Attested K trials (k + 1) n s := by
  apply h.later (.refl s)
  . rw [hhost]
    exact hguards
  . intro x hx
    rw [Deployment.node?_eq_some, hhost] at hx
    cases hx

theorem Sends.honest {p : Packet} (h : Sends K trials k n y p)
    (hy : (K.ordeal trials (k + 1)).node? n = some y) (hfits : y.hard.Fits) (hn : n ∈ K.ids)
    : Honest K trials (k + 1) p := by
  have hvoted : ∀ {T c}, y.log.Safe ⟨T, some c⟩ → Voted K trials (k + 1) n T c := by
    intro T c hsafe
    apply Voted.of_guards
    rw [Deployment.node?_eq_some.1 hy]
    exact hsafe
  have hbound : ∀ {t}, t = y.term → t < 2 ^ 64 := fun heq => heq ▸ hfits.term
  cases p with
  | request source target q =>
    cases q with
    | vote q =>
      obtain ⟨rfl, hcandidate, heq, hsafe⟩ := h
      exact ⟨hcandidate, hn, hbound heq, hvoted hsafe⟩
    | append q => exact hbound h
    | snapshot q => exact hbound h
    | commit q => trivial
  | response asker answerer q r =>
    cases r with
    | vote r =>
      cases q with
      | vote q =>
        obtain ⟨heq, rfl, hgranted⟩ := h
        refine ⟨hbound heq, fun hr => ?_⟩
        obtain ⟨hsafe, -, hown⟩ := hgranted hr
        exact ⟨hn, hvoted hsafe, hown.mono (Nat.le_succ k)⟩
      | _ => trivial
    | append r => cases q <;> exact hbound h
    | snapshot r => cases q <;> exact hbound h
    | commit r => cases q <;> trivial

theorem Attested.passage (h : Attested K trials k n s) (hx : (K.ordeal trials k).node? n = some x)
    (hy : (K.ordeal trials (k + 1)).node? n = some y)
    (hshifts : Shifts (Asked K trials k) (Granted K trials k n) s (x.planned plan) y)
    : ∃ s', s.Precedes s' ∧ Passage K trials k n plan x y s s' := by
  have hoffice := (h.office x hx).planned plan
  obtain ⟨s', hsafe, hprecedes, hsaved⟩ := hshifts.shift.precedes hoffice.saved
  refine ⟨s', hprecedes, hoffice, hx, hy, hshifts, hsafe, hsaved, ?_⟩
  intro hvoted
  exact (h.votes _ _ hvoted).eq_vote hoffice.saved.term_le

theorem Passage.attested (hp : Passage K trials k n plan x y s s') (h : Attested K trials k n s)
    (hs : s.Precedes s')
    : Attested K trials (k + 1) n s' := by
  apply h.later hs hp.guards
  intro z hz
  rw [hp.after] at hz
  cases hz
  exact hp.next

theorem Withstood.running (h : Withstood K trials k) (hs : Attested K trials k n s)
    (htrial : trials[k]? = some ⟨.act n clock move, plan⟩) (hx : (K.ordeal trials k).node? n = some x)
    : ∃ sent y, K.ordeal trials (k + 1) = { (K.ordeal trials k).setHost n (.running y) with
          packets := (K.ordeal trials k).packets ++ sent } ∧
        Shifts (Asked K trials k) (Granted K trials k n) s (x.planned plan) y ∧
        ∀ p ∈ sent, Sends K trials k n y p := by
  have hoffice := (hs.office x hx).planned plan
  let d := (K.ordeal trials k).setHost n (.running (x.planned plan))
  have hhost : d.hosts n = .running (x.planned plan) := by simp [d, Deployment.setHost]
  have hsucc : K.ordeal trials (k + 1) = d.act n clock move := by
    rw [ordeal_succ htrial]
    unfold Deployment.endure Event.member
    dsimp only
    rw [Deployment.node?_eq_some.1 hx]
    rfl
  have hset : ∀ y, d.setHost n (.running y) = (K.ordeal trials k).setHost n (.running y) := by
    intro y
    simp [d, Deployment.setHost]
  rw [hsucc]
  by_cases hpossible : move.possible n (K.ordeal trials k).packets x = true
  . have hends := ends_action hoffice hx h.honest htrial hpossible
    rw [← possible_planned plan] at hpossible
    cases haction : move.action n clock (x.planned plan) with
    | ok sent y =>
      rw [haction] at hends
      rw [Deployment.act_ok hhost hpossible haction, hset]
      exact ⟨sent, y, rfl, hends⟩
    | error e y =>
      rw [haction] at hends
      rw [Deployment.act_error hhost hpossible haction, hset]
      exact ⟨[], y, rfl, hends, sends_nil⟩
  . rw [← possible_planned plan] at hpossible
    rw [Deployment.act_impossible hhost hpossible]
    refine ⟨[], x.planned plan, ?_, (Node.Quiet.refl _).shifts hoffice.safe, sends_nil⟩
    rw [List.append_nil]
    rfl

theorem Withstood.act (h : Withstood K trials k) (hs : Attested K trials k n s)
    (htrial : trials[k]? = some ⟨.act n clock move, plan⟩)
    : Passes K trials k n := by
  have hkept : ∀ p ∈ (K.ordeal trials k).packets, Honest K trials (k + 1) p :=
    fun p hp => (h.honest p hp).mono (Nat.le_succ k)
  cases hhost : (K.ordeal trials k).hosts n with
  | stopped disk =>
    have hsucc : K.ordeal trials (k + 1)
        = (K.ordeal trials k).setHost n (.stopped { disk with plan }) := by
      rw [ordeal_succ htrial]
      unfold Deployment.endure Event.member
      dsimp only
      rw [hhost]
      have hhost' : ((K.ordeal trials k).setHost n (.stopped { disk with plan })).hosts n
          = .stopped { disk with plan } := by
        simp [Deployment.setHost]
      exact Deployment.act_stopped hhost'
    refine ⟨s, hs.planned plan ?_, ?_⟩
    . simp [hsucc, hhost, Deployment.setHost, Host.planned]
    . rw [hsucc]
      exact hkept
  | running x =>
    have hx := Deployment.node?_eq_some.2 hhost
    obtain ⟨sent, y, hsucc, hshifts, hsent⟩ := h.running hs htrial hx
    have hy : (K.ordeal trials (k + 1)).node? n = some y := by
      rw [Deployment.node?_eq_some, hsucc]
      simp [Deployment.setHost]
    obtain ⟨s', hprecedes, hpassage⟩ := hs.passage hx hy hshifts
    refine ⟨s', hpassage.attested hs hprecedes, ?_⟩
    rw [hsucc]
    intro p hp
    rcases List.mem_append.1 hp with hp | hp
    . exact hkept p hp
    . exact (hsent p hp).honest hy hpassage.next.fits hpassage.next.member

theorem Withstood.crash {powerLost : Bool} (h : Withstood K trials k) (hs : Attested K trials k n s)
    (htrial : trials[k]? = some ⟨.crash n powerLost, plan⟩)
    : Passes K trials k n := by
  let disk := (((K.ordeal trials k).hosts n).planned plan).disk
  have hguards : disk.Guards s := (hs.guards.planned plan).disk
  have hsucc : K.ordeal trials (k + 1)
      = (K.ordeal trials k).setHost n (.stopped (if powerLost then disk.crash else disk)) := by
    rw [ordeal_succ htrial]
    unfold Deployment.endure Event.member Deployment.crash
    simp [Deployment.setHost, disk]
  refine ⟨s, hs.stopped (if powerLost then disk.crash else disk) ?_ ?_, ?_⟩
  . simp [hsucc, Deployment.setHost]
  . split
    . exact hguards.crash
    . exact hguards
  . rw [hsucc]
    exact fun p hp => (h.honest p hp).mono (Nat.le_succ k)

theorem Node.ends_open {disk : Volume} (hg : disk.Guards s) (ids : List NodeId) (config : ConsensusConfig)
    (clock : Clock)
    : EStateM.Ends (·.Guards s)
        (fun x _ => x.id = n ∧ x.peers = ids.filter (· ≠ n) ∧ x.hard = s ∧ x.log.Safe s ∧
          x.role = .follower)
        (Node.open n ids config clock disk) := by
  unfold Node.open
  apply EStateM.Ends.bind (P := (·.Guards s))
    ((LogStore.ends_open hg.sound config.policy).imp (fun _ h => hg.spares h) fun _ _ _ h => h)
  rintro log v hv ⟨rfl, hapart⟩
  rw [EStateM.bind_of_ok (HardState.load_ok hv.fits hv.file)]
  apply EStateM.Ends.bind (P := (·.Guards s))
    ((LogStore.ends_readSnapshot hv.sound).imp (fun _ h => hv.spares h) fun _ _ _ h => h)
  intro snapshot w hw _
  cases snapshot with
  | none => exact ⟨hw, rfl, rfl, rfl, ⟨hv, hapart⟩, rfl⟩
  | some snapshot =>
    dsimp only
    cases KeyMap.decode snapshot.data with
    | ok map => exact ⟨hw, rfl, rfl, rfl, ⟨hv, hapart⟩, rfl⟩
    | error e => exact hw

theorem Withstood.open {config : ConsensusConfig} (h : Withstood K trials k) (hs : Attested K trials k n s)
    (htrial : trials[k]? = some ⟨.open n config clock, plan⟩)
    : Passes K trials k n := by
  let d := (K.ordeal trials k).setHost n (((K.ordeal trials k).hosts n).planned plan)
  have hself : d.hosts n = ((K.ordeal trials k).hosts n).planned plan := by
    simp [d, Deployment.setHost]
  have hsucc : K.ordeal trials (k + 1) = d.revive K n config clock := ordeal_succ htrial
  have hkept : ∀ p ∈ (K.ordeal trials k).packets, Honest K trials (k + 1) p :=
    fun p hp => (h.honest p hp).mono (Nat.le_succ k)
  have hidle : K.ordeal trials (k + 1) = d → Passes K trials k n := by
    intro heq
    refine ⟨s, hs.planned plan ?_, ?_⟩
    . rw [heq, hself]
    . rw [heq]
      exact hkept
  unfold Deployment.revive at hsucc
  rw [hself] at hsucc
  cases hhost : (K.ordeal trials k).hosts n with
  | running x =>
    rw [hhost] at hsucc
    exact hidle hsucc
  | stopped disk =>
    have hguards := hs.guards.planned plan
    rw [hhost] at hsucc hguards
    unfold Host.planned at hsucc
    dsimp only at hsucc
    -- a name that is no member is not started
    by_cases hmember : n ∈ K.ids
    . have hends := Node.ends_open (n := n) hguards K.ids config clock
      rw [if_pos hmember] at hsucc
      cases hopen : Node.open n K.ids config clock { disk with plan } with
      | ok y v =>
        rw [hopen] at hends hsucc
        obtain ⟨-, hid, hpeers, hhard, hsafe, hrole⟩ := hends
        have hnew : (K.ordeal trials (k + 1)).hosts n = .running y := by
          simp [hsucc, Deployment.setHost]
        refine ⟨s, hs.later (.refl s) ?_ ?_, ?_⟩
        . rw [hnew]
          exact hsafe
        . intro x hx
          rw [Deployment.node?_eq_some, hnew] at hx
          cases hx
          exact {
            member := hmember
            id := hid
            peers := hpeers
            fits := by
              rw [hhard]
              exact hguards.disk.fits
            safe := hsafe
            saved := by
              rw [hhard]
              exact .refl s
            candidate := by
              intro votes hvotes
              rw [hrole] at hvotes
              cases hvotes
            leader := by
              intro hleader
              rw [hrole] at hleader
              cases hleader }
        . rw [hsucc]
          exact hkept
      | error e v =>
        rw [hopen] at hends hsucc
        refine ⟨s, hs.stopped v ?_ hends, ?_⟩
        . simp [hsucc, Deployment.setHost]
        . rw [hsucc]
          exact hkept
    . rw [if_neg hmember] at hsucc
      exact hidle hsucc

theorem Withstood.next (h : Withstood K trials k) : Withstood K trials (k + 1) := by
  cases htrial : trials[k]? with
  | none =>
    have hsucc := ordeal_succ_none (K := K) htrial
    refine ⟨?_, ?_⟩
    . intro n
      obtain ⟨s, hs⟩ := h.attested n
      exact ⟨s, hs.same (by rw [hsucc])⟩
    . rw [hsucc]
      exact fun p hp => (h.honest p hp).mono (Nat.le_succ k)
  | some trial =>
    have hpasses : Passes K trials k trial.event.member := by
      obtain ⟨event, plan⟩ := trial
      obtain ⟨s, hs⟩ := h.attested event.member
      cases event with
      | act n clock move => exact h.act hs htrial
      | crash n powerLost => exact h.crash hs htrial
      | «open» n config clock => exact h.open hs htrial
    obtain ⟨s', hs', hhonest⟩ := hpasses
    refine ⟨?_, hhonest⟩
    intro m
    by_cases hm : trial.event.member = m
    . exact ⟨s', hm ▸ hs'⟩
    . obtain ⟨s, hs⟩ := h.attested m
      exact ⟨s, hs.same (by rw [ordeal_succ htrial, Deployment.endure_other hm])⟩

theorem Withstood.start : Withstood K trials 0 where
  attested n := by
    have hguards : ((K.ordeal trials 0).hosts n).Guards {} := Volume.guards_empty
    refine ⟨{}, hguards, ?_, ?_⟩
    . rintro T c ⟨j, hj, hsaved⟩
      rw [Nat.le_zero.1 hj, hguards.saved] at hsaved
      cases hsaved
    . intro x hx
      cases hx
  honest p hp := by cases hp

theorem withstood (K : Cluster) (trials : List Trial) (k : Nat) : Withstood K trials k := by
  induction k with
  | zero => exact .start
  | succ k ih => exact ih.next

theorem Voted.unique (h : Voted K trials k v T m) (h' : Voted K trials k v T n) : m = n := by
  obtain ⟨i, hi, hm⟩ := h
  obtain ⟨j, hj, hn⟩ := h'
  have hlater : ∀ {i j m n}, i ≤ j → ((K.ordeal trials i).hosts v).saved = some ⟨T, some m⟩ →
      ((K.ordeal trials j).hosts v).saved = some ⟨T, some n⟩ → m = n := by
    intro i j m n hle hm hn
    obtain ⟨s, hs⟩ := (withstood K trials j).attested v
    have hprecedes := hs.votes T m ⟨i, hle, hm⟩
    rw [hs.guards.saved] at hn
    cases hn
    exact hprecedes.eq_of_vote
  rcases Nat.le_total i j with hle | hle
  . exact hlater hle hm hn
  . exact (hlater hle hn hm).symm

theorem Elected.unique (h : Elected K trials k m T) (h' : Elected K trials k n T) : m = n := by
  obtain ⟨quorum, hquorum, hpolled⟩ := h
  obtain ⟨quorum', hquorum', hpolled'⟩ := h'
  obtain ⟨v, hv, hv'⟩ := hquorum.meet hquorum'
  exact (hpolled v hv).1.unique (hpolled' v hv').1

/-- Whatever fails on the disks of members, and whenever: who leads was elected in its term by a majority,
or led before, and could not save the term that it leads in. But for such leaders, a term has one. -/
theorem leader_elected_or_overtaken (K : Cluster) (trials : List Trial) (k : Nat) {n : NodeId} {x : Node}
    (hx : (K.ordeal trials k).node? n = some x) (hleads : x.role.isLeader = true)
    : (Elected K trials k n x.term ∨ Overtaken K trials k n x.term) ∧
        ∀ j m y, (K.ordeal trials j).node? m = some y → y.role.isLeader = true → y.term = x.term →
          ¬ Overtaken K trials j m y.term → ¬ Overtaken K trials k n x.term → m = n := by
  have hleader : ∀ {k n x}, (K.ordeal trials k).node? n = some x → x.role.isLeader = true →
      Elected K trials k n x.term ∨ Overtaken K trials k n x.term := by
    intro k n x hx hleads
    obtain ⟨s, hs⟩ := (withstood K trials k).attested n
    exact (hs.office x hx).leader hleads
  refine ⟨hleader hx hleads, ?_⟩
  intro j m y hy hyleads hterm hym hxn
  have hm := (hleader hy hyleads).resolve_right hym
  have hn := (hleader hx hleads).resolve_right hxn
  rw [hterm] at hm
  exact (hm.mono (Nat.le_max_left j k)).unique (hn.mono (Nat.le_max_right j k))

theorem leader_elected_or_overtaken_next
    : ∃ y, (Handover.members.ordeal Overtaking.trials 10).node? "b" = some y ∧
        y.role.isLeader = true ∧ y.term = 2 ∧
        (Elected Handover.members Overtaking.trials 10 "b" y.term ∨
          Overtaken Handover.members Overtaking.trials 10 "b" y.term) := by
  have hym : ((Handover.members.ordeal Overtaking.trials 10).node? "b").map
      (fun y => (y.role.isLeader, y.term)) = some (true, 2) := by
    decide +kernel
  obtain ⟨y, hy, hyr⟩ := Option.map_eq_some_iff.1 hym
  obtain ⟨hyl, hyt⟩ := Prod.mk.inj hyr
  exact ⟨y, hy, hyl, hyt, (leader_elected_or_overtaken _ _ 10 hy hyl).1⟩

theorem leader_not_elected
    : ∃ x y, (Handover.members.ordeal Overtaking.trials 10).node? "a" = some x ∧
        (Handover.members.ordeal Overtaking.trials 10).node? "b" = some y ∧
        x.role.isLeader = true ∧ y.role.isLeader = true ∧ x.term = 2 ∧ y.term = 2 ∧
        ¬ Elected Handover.members Overtaking.trials 10 "a" x.term := by
  have hxm : ((Handover.members.ordeal Overtaking.trials 10).node? "a").map
      (fun x => (x.role.isLeader, x.term)) = some (true, 2) := by
    decide +kernel
  obtain ⟨x, hx, hxr⟩ := Option.map_eq_some_iff.1 hxm
  have hym : ((Handover.members.ordeal Overtaking.trials 10).node? "b").map
      (fun y => (y.role.isLeader, y.term)) = some (true, 2) := by
    decide +kernel
  obtain ⟨y, hy, hyr⟩ := Option.map_eq_some_iff.1 hym
  obtain ⟨hxl, hxt⟩ := Prod.mk.inj hxr
  obtain ⟨hyl, hyt⟩ := Prod.mk.inj hyr
  refine ⟨x, y, hx, hy, hxl, hyl, hxt, hyt, ?_⟩
  rw [hxt]
  rintro ⟨quorum, hquorum, hpolled⟩
  obtain ⟨v, hv⟩ : ∃ v, v ∈ quorum := by
    apply List.exists_mem_of_length_pos
    exact Nat.lt_of_lt_of_le (by decide) hquorum.size
  obtain ⟨j, hj, hsaved⟩ := (hpolled v hv).1
  have hnever : ∀ v ∈ Handover.members.ids, ∀ j ≤ 10,
      ((Handover.members.ordeal Overtaking.trials j).hosts v).saved ≠ some ⟨2, some "a"⟩ := by
    decide +kernel
  exact hnever v (hquorum.subset hv) j hj hsaved

end ReplicatedStore
