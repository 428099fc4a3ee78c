import ReplicatedStore.Proofs.Runs.Lifetimes
import ReplicatedStore.Proofs.Runs.Safety

/-!
What a leader believes of the logs of its peers: as long as a peer is in the leader's term, it has what the
leader takes it to have.
-/

namespace ReplicatedStore

open Chronicle

namespace NodeM

variable {α : Type}

theorem ahead_onLog (operation : LogM α) : Preserves (·.role.Ahead) (onLog operation) := by
  intro clock x hx
  cases hr : operation x.log with
  | ok a log =>
    rw [onLog_ok hr]
    exact ⟨hx, trivial⟩
  | error e log =>
    rw [onLog_error hr]
    exact hx

theorem survives_ahead : Survives (·.role.Ahead) where
  halted hx := hx
  told _ _ _ hx := hx
  applied _ _ _ hx := hx
  folded _ _ hx := hx

theorem maintains_ahead : Maintains (fun _ => True) (·.role.Ahead) where
  aside _ _ _ _ _ _ _ hx := hx
  role _ hr hx := hr hx
  halted hx := hx
  raised _ hx := hx
  voted hx := hx
  saved {x} hard hx := by
    cases HardState.save hard x.log.disk with
    | ok _ disk => exact ⟨hx, trivial⟩
    | error e disk => exact hx
  appended _ _ _ hx := ahead_onLog _ _ _ hx
  committed _ hx := survives_ahead.commitThrough _ hx fun _ => hx
  taken clock x request _ _ hx := by
    apply EStateM.Ends.bind (x := reconcile _ request.entries clock)
      (ends_reconcile (fun _ _ hy => hy) (fun _ hy => ahead_onLog _ _ _ hy) hx _ _)
    intro missing y hy _
    exact (ahead_onLog _).ends_bind hy fun _ z hz => survives_ahead.commitThrough _ hz fun _ => hz
  installed {x request _} _ _ _ _ hx := by
    cases LogStore.putSnapshot request.index request.indexTerm request.data x.log with
    | ok _ log => exact hx
    | error e log => exact hx

end NodeM

variable {K : Cluster} {events : List Event} {chronicle : Nat → Chronicle} {d : Deployment} {j k : Nat}
  {a b n : NodeId} {x y : Node} {p : Progress}

theorem Move.fits_of_possible {move : Move} {packets : List Packet}
    (h : move.possible n packets x = true)
    : move.fits x = true := by
  cases move with
  | take answerer request response =>
    have hroom := (Bool.and_eq_true_iff.1 h).2
    cases request with
    | vote => exact hroom
    | _ => rfl
  | tick => exact h
  | propose => exact h
  | _ => rfl

theorem Deployment.ahead_act {clock : Clock} {move : Move} (hhost : d.hosts n = .running y) (hy : y.role.Ahead)
    (hx : (d.act n clock move).hosts n = .running x)
    : x.role.Ahead := by
  by_cases hpossible : move.possible n d.packets y = true
  . have haccepted : move.Accepted fun _ => True := by
      cases move <;> exact trivial
    have hends := Move.maintains NodeM.maintains_ahead n clock hy (Move.fits_of_possible hpossible) haccepted
    cases haction : move.action n clock y with
    | ok sent z =>
      rw [haction] at hends
      rw [act_ok hhost hpossible haction] at hx
      have hx : z = x := by simpa [setHost] using hx
      exact hx ▸ hends.1
    | error e z =>
      rw [haction] at hends
      rw [act_error hhost hpossible haction] at hx
      have hx : z = x := by simpa [setHost] using hx
      exact hx ▸ hends
  . rw [act_impossible hhost hpossible, hhost] at hx
    cases hx
    exact hy

theorem Deployment.ahead_reopen {config : ConsensusConfig} {clock : Clock} {disk : Volume}
    (hhost : d.hosts n = .stopped disk) (hx : (d.reopen K n config clock).hosts n = .running x)
    : x.role.Ahead := by
  unfold reopen at hx
  rw [hhost] at hx
  dsimp only at hx
  split at hx
  . cases hopen : Node.open n K.ids config clock disk with
    | ok y v =>
      rw [hopen] at hx
      have hx : y = x := by simpa [setHost] using hx
      rw [← hx, (Node.starts_of_open hopen).1]
      trivial
    | error e v =>
      rw [hopen] at hx
      simp [setHost] at hx
  . rw [hhost] at hx
    cases hx

theorem Deployment.ahead_perform (event : Event) (h : ∀ n x, d.node? n = some x → x.role.Ahead)
    : ∀ n x, (d.perform K event).node? n = some x → x.role.Ahead := by
  intro n x hx
  have hx := node?_eq_some.1 hx
  by_cases hmember : event.member = n
  . cases event with
    | act m clock move =>
      change m = n at hmember
      rw [hmember] at hx
      change (d.act n clock move).hosts n = .running x at hx
      cases hhost : d.hosts n with
      | stopped disk =>
        rw [act_stopped hhost, hhost] at hx
        cases hx
      | running y => exact ahead_act hhost (h n y (node?_eq_some.2 hhost)) hx
    | crash m powerLost =>
      change m = n at hmember
      rw [hmember] at hx
      unfold perform crash at hx
      simp [setHost] at hx
    | «open» m config clock =>
      change m = n at hmember
      rw [hmember] at hx
      change (d.reopen K n config clock).hosts n = .running x at hx
      cases hhost : d.hosts n with
      | running y =>
        unfold reopen at hx
        rw [hhost] at hx
        exact h n x (node?_eq_some.2 hx)
      | stopped disk => exact ahead_reopen hhost hx
  . rw [perform_other hmember] at hx
    exact h n x (node?_eq_some.2 hx)

theorem Cluster.ahead_moment (K : Cluster) (events : List Event) (k : Nat)
    : ∀ n x, (K.moment events k).node? n = some x → x.role.Ahead := by
  induction k with
  | zero =>
    intro n x hx
    exact absurd hx nofun
  | succ k ih =>
    cases hevent : events[k]? with
    | none =>
      rw [moment_end hevent]
      exact ih
    | some event =>
      rw [moment_succ hevent]
      exact Deployment.ahead_perform event ih

theorem Chronicle.Mirror.shares {c : Chronicle} (hx : Mirror K c a x) (hy : Mirror K c b y)
    (hp : x.progress? b = some p) (hterm : y.term = x.term)
    : (c.log (c.term a)).take p.matched <+: c.held a ∧ (c.log (c.term a)).take p.matched <+: c.held b ∧
        p.matched ≤ (c.log (c.term a)).length := by
  have hsame : c.term b = c.term a := hy.term.symm.trans (hterm.trans hx.term)
  cases hrole : x.role with
  | leader leadership =>
    have hplays := hx.plays
    rw [hrole] at hplays
    have hacked := hx.matched_le_acked hrole b
    rw [hp] at hacked
    have hacked : p.matched ≤ c.acked b (c.term a) := hacked
    have hlength := Nat.le_trans hacked (hx.lawful.acked_le b (c.term a))
    refine ⟨?_, ?_, hlength⟩
    . rw [hx.held_eq_log hplays.1]
      exact List.take_prefix _ _
    . rcases Nat.eq_zero_or_pos p.matched with hzero | hpos
      . rw [hzero]
        exact List.nil_prefix
      . rcases hx.lawful.kept b (c.term a) p.matched hpos hacked with hkept | ⟨u, hu, hut, -⟩
        . exact hkept
        -- no leader after the term can have been met in the term
        . rw [hsame] at hut
          exact absurd hut (Nat.not_le.2 hu)
  | _ =>
    unfold Node.progress? at hp
    rw [hrole] at hp
    cases hp

/-- What a leader takes to agree with its own log in that of a peer does agree, as long as the peer is in the
leader's term: both have the same entries up to there, or a snapshot that such entries lead to. What it sends
next comes behind. -/
theorem matched_agrees (K : Cluster) (events : List Event) (k : Nat) {a b : NodeId} {x : Node} {p : Progress}
    (hx : (K.moment events k).node? a = some x) (hp : x.progress? b = some p)
    : p.matched < p.next ∧
        ∀ y, (K.moment events k).node? b = some y → y.term = x.term →
          ∃ h : History, h.length = p.matched ∧ x.Includes h ∧ y.Includes h := by
  constructor
  . have hahead := K.ahead_moment events k a x hx
    unfold Node.progress? at hp
    split at hp
    . next leadership hrole =>
      rw [hrole] at hahead
      exact hahead b p hp
    . cases hp
  . intro y hy hterm
    obtain ⟨chronicle, hc⟩ := exists_chronicled K events
    obtain ⟨hshared, hshared', hlength⟩ := (hc.mirror hx).shares (hc.mirror hy) hp hterm
    refine ⟨((chronicle k).log ((chronicle k).term a)).take p.matched, ?_, ?_, ?_⟩
    . rw [List.length_take, Nat.min_eq_left hlength]
    . exact (hc.mirror hx).includes hshared
    . exact (hc.mirror hy).includes hshared'

namespace Handover

-- The leader learns that c has its snapshot, and c is opened again after a loss of power.
def resumption : List Event :=
  Handover.events.take 14 ++ [
    .act "a" ⟨20, 10⟩ (.take "c" (.snapshot snapshot) (.snapshot ⟨1⟩)),
    .crash "c" true,
    .open "c" {} ⟨20, 10⟩]

end Handover

theorem matched_agrees_resumption
    : ∃ x y, (Handover.members.moment Handover.resumption 17).node? "a" = some x ∧
        (Handover.members.moment Handover.resumption 17).node? "c" = some y ∧
        (x.progress? "c").map (fun p => (p.matched, p.next)) = some (2, 3) ∧ y.log.snapshotIndex = 2 ∧
        ∃ h : History, h.length = 2 ∧ x.Includes h ∧ y.Includes h := by
  have hxm : ((Handover.members.moment Handover.resumption 17).node? "a").map
      (fun x => ((x.progress? "c").map fun p => (p.matched, p.next), x.term)) = some (some (2, 3), 1) := by
    decide +kernel
  obtain ⟨x, hx, hxr⟩ := Option.map_eq_some_iff.1 hxm
  have hym : ((Handover.members.moment Handover.resumption 17).node? "c").map
      (fun y => (y.log.snapshotIndex, y.term)) = some (2, 1) := by
    decide +kernel
  obtain ⟨y, hy, hyr⟩ := Option.map_eq_some_iff.1 hym
  obtain ⟨hprogress, hxt⟩ := Prod.mk.inj hxr
  obtain ⟨hindex, hyt⟩ := Prod.mk.inj hyr
  obtain ⟨p, hp, hpm⟩ := Option.map_eq_some_iff.1 hprogress
  obtain ⟨h, hlength, hxh, hyh⟩ := (matched_agrees _ _ 17 hx hp).2 y hy (hyt.trans hxt.symm)
  rw [(Prod.mk.inj hpm).1] at hlength
  exact ⟨x, y, hx, hy, hprogress, hindex, h, hlength, hxh, hyh⟩

end ReplicatedStore
