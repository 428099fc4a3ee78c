import ReplicatedStore.Proofs.Fallback.Switching
import ReplicatedStore.Proofs.Fallback.Turns

/-!
When checks of the cluster switch the store: a node leaves the cluster after every check of a while has found
it unavailable, and comes back after every check of a while has found it available.
-/

namespace ReplicatedStore

structure Sighting where
  available : Bool
  time : Nat
  deriving DecidableEq, Repr

def Effect.sightings (time : Nat) : Effect → List Sighting
  | .observe available => [{ available, time }]
  | _ => []

structure Check where
  active : ActiveStore
  sighting : Sighting
  exchanges : List Exchange
  answer : Except Error (Option StoreSwitch)

namespace Check

def switched (check : Check) : Bool :=
  match check.answer with
  | .ok (some _) => true
  | _ => false

def Attempts (check : Check) (target : ActiveStore) : Prop :=
  ∃ before available after, check.exchanges = before ++ ⟨.observe available, some target⟩ :: after ∧
    Process.Ends [] (Except.map some <$> Script.switchStore target).toProcess after check.answer

def streak (available : Bool) (checks : List Check) : List Check :=
  checks.takeWhile fun check => check.sighting.available = available && !check.switched

/-- A check found what every earlier one has found since one that was at least some milliseconds before it,
and none of these has switched the store. -/
def Lasts (check : Check) (earlier : List Check) (available : Bool) (millis : Nat) : Prop :=
  check.sighting.available = available ∧
    ∃ first ∈ check :: streak available earlier,
      first.sighting.time + 1000 * millis ≤ check.sighting.time

end Check

def ActiveStore.awaits : ActiveStore → Bool
  | .replicated => false
  | .standalone => true

def FallbackConfig.patience (config : FallbackConfig) : ActiveStore → Nat
  | .replicated => config.minUnavailable
  | .standalone => config.minAvailable

def Health.clock (health : Health) : ActiveStore → Option Nat
  | .replicated => health.downSince
  | .standalone => health.upSince

structure Coordinator.Alike (c c' : Coordinator) : Prop where
  config : c'.config = c.config
  active : c'.state.active = c.state.active
  health : c'.health = c.health

namespace World

variable {ρ : Type}

def Rests (world world' : World ρ) : Prop :=
  ∀ c, world.coordinator = some c → ∃ c', world'.coordinator = some c' ∧ c.Alike c'

inductive Attends : World ρ → List Exchange → List Sighting → World ρ → Prop where
  | nil {world} : Attends world [] [] world
  | rest {world world' world'' exchanges seen} (hrests : world.Rests world')
      (h : Attends world' exchanges seen world'') : Attends world exchanges seen world''
  | perform {world world' world'' effect reply exchanges seen} (me : Nat)
      (hperform : world.perform me effect = (some reply, world')) (h : Attends world' exchanges seen world'') :
      Attends world (⟨effect, reply⟩ :: exchanges) (effect.sightings world'.clock ++ seen) world''

structure Takes (world : World ρ) (check : Check) (world' : World ρ) : Prop where
  active : world.active? = some check.active
  ends : Process.Ends [] Script.checkCluster.toProcess check.exchanges check.answer
  attends : world.Attends check.exchanges [check.sighting] world'

inductive Undergoes (world : World ρ) : List Check → World ρ → Prop where
  | nil : world.Undergoes [] world
  | check {world' world'' check checks} (h : world.Undergoes checks world') (htakes : world'.Takes check world'') :
      world.Undergoes (check :: checks) world''

end World

theorem Coordinator.Alike.refl (c : Coordinator) : c.Alike c :=
  ⟨rfl, rfl, rfl⟩

theorem Coordinator.Alike.trans {c c' c'' : Coordinator} (h : c.Alike c') (h' : c'.Alike c'') : c.Alike c'' :=
  ⟨h'.config.trans h.config, h'.active.trans h.active, h'.health.trans h.health⟩

namespace World

variable {ρ : Type} {world world' world'' : World ρ} {c : Coordinator} {effect : Effect}
  {before exchanges after : List Exchange} {seen : List Sighting} {checks : List Check}

theorem rests_of_eq (h : world'.coordinator = world.coordinator) : world.Rests world' :=
  fun c hc => ⟨c, h.trans hc, .refl c⟩

theorem Rests.trans (h : world.Rests world') (h' : world'.Rests world'') : world.Rests world'' := by
  intro c hc
  obtain ⟨c', hc', halike⟩ := h c hc
  obtain ⟨c'', hc'', halike'⟩ := h' c' hc'
  exact ⟨c'', hc'', halike.trans halike'⟩

theorem rests_updateGate (world : World ρ) (f : Gate → Gate) : world.Rests (world.updateGate f) := by
  intro c hc
  refine ⟨{ c with gate := f c.gate }, ?_, rfl, rfl, rfl⟩
  rw [((wakes_updateGate hc f).nodal 0).coordinator]
  unfold withGate
  rw [hc]
  rfl

theorem rests_release (world : World ρ) (id : TransactionId) : world.Rests (world.release id) := by
  unfold release
  split
  . dsimp only
    split
    . refine Rests.trans ?_ (rests_updateGate _ _)
      exact rests_of_eq rfl
    . exact rests_of_eq rfl
  . exact rests_of_eq rfl

theorem rests_planCommit (world : World ρ) (id : TransactionId) : world.Rests (world.planCommit id).2 := by
  apply rests_of_eq
  unfold planCommit
  dsimp only
  repeat' split
  all_goals rfl

theorem rests_perform (heffect : effect.decides = false) (world : World ρ) (me : Nat)
    : world.Rests (world.perform me effect).2 := by
  cases hnodal : effect.isNodal with
  | true => exact rests_of_eq (nodal_perform hnodal world me).coordinator
  | false =>
    cases effect with
    | observe | activate => cases heffect
    | begin origin => exact rests_of_eq rfl
    | view id => exact rests_of_eq rfl
    | setView id view =>
      apply rests_of_eq
      rw [perform]
      dsimp only
      split <;> rfl
    | planCommit id => exact rests_planCommit world id
    | release id => exact rests_release world id
    | drop id =>
      rw [perform]
      dsimp only
      unfold drop
      split
      . exact rests_of_eq rfl
      . exact rests_release world id
    | enterGate alone =>
      intro c hc
      rw [perform, hc]
      dsimp only
      generalize (if world.waitOf me = .gate then c.gate.notice me else c.gate.enter me alone) = asked
      obtain ⟨entered, gate⟩ := asked
      cases entered <;> exact ⟨_, rfl, rfl, rfl, rfl⟩
    | leaveGate alone =>
      refine Rests.trans ?_ (rests_updateGate _ _)
      exact rests_of_eq rfl
    | coordinator => exact rests_of_eq rfl
    | coordinated => exact rests_of_eq rfl
    | _ => cases hnodal

theorem attends_append (h : world.Attends (before ++ after) seen world'')
    : ∃ world' seen' seen'', seen = seen' ++ seen'' ∧ world.Attends before seen' world' ∧
        world'.Attends after seen'' world'' := by
  generalize hsplit : before ++ after = exchanges at h
  induction h generalizing before with
  | @nil world =>
    obtain ⟨rfl, rfl⟩ := List.append_eq_nil_iff.1 hsplit
    exact ⟨world, [], [], rfl, .nil, .nil⟩
  | rest hrests _ ih =>
    obtain ⟨world', seen', seen'', rfl, hbefore, hafter⟩ := ih hsplit
    exact ⟨world', seen', seen'', rfl, .rest hrests hbefore, hafter⟩
  | @perform world mid _ effect _ _ seen _ hperform h ih =>
    cases before with
    | nil =>
      cases hsplit
      exact ⟨world, [], _, rfl, .nil, .perform _ hperform h⟩
    | cons x before =>
      cases hsplit
      obtain ⟨world', seen', seen'', rfl, hbefore, hafter⟩ := ih rfl
      exact ⟨world', _, seen'', (List.append_assoc ..).symm, .perform _ hperform hbefore, hafter⟩

theorem attends_cons {x : Exchange} (h : world.Attends (x :: after) seen world'')
    : ∃ mid me world' seen', world.Rests mid ∧ mid.perform me x.effect = (some x.reply, world') ∧
        world'.Attends after seen' world'' ∧ seen = x.effect.sightings world'.clock ++ seen' := by
  generalize hsplit : x :: after = exchanges at h
  induction h with
  | nil => cases hsplit
  | rest hrests _ ih =>
    obtain ⟨mid, me, world', seen', hmid, hperform, hafter, rfl⟩ := ih hsplit
    exact ⟨mid, me, world', seen', hrests.trans hmid, hperform, hafter, rfl⟩
  | @perform world world' _ effect reply _ seen me hperform h ih =>
    cases hsplit
    exact ⟨world, me, world', seen, rests_of_eq rfl, hperform, h, rfl⟩

theorem Attends.rests (h : world.Attends exchanges seen world') (hcalm : Calm exchanges)
    : seen = [] ∧ world.Rests world' ∧ ∀ c c', world.coordinator = some c →
        ⟨.coordinator, c'⟩ ∈ exchanges → c.Alike c' := by
  induction h with
  | nil => exact ⟨rfl, rests_of_eq rfl, fun _ _ _ => nofun⟩
  | rest hrests _ ih =>
    obtain ⟨hseen, hrests', hlook⟩ := ih hcalm
    refine ⟨hseen, hrests.trans hrests', ?_⟩
    intro c c' hc hmem
    obtain ⟨c₁, hc₁, halike⟩ := hrests c hc
    exact halike.trans (hlook c₁ c' hc₁ hmem)
  | @perform world world' _ effect reply _ _ me hperform _ ih =>
    obtain ⟨heffect, hcalm⟩ := Calm.cons.1 hcalm
    obtain ⟨rfl, hrests', hlook⟩ := ih hcalm
    have hrests : world.Rests world' := by
      have h := rests_perform heffect world me
      rw [hperform] at h
      exact h
    refine ⟨?_, hrests.trans hrests', ?_⟩
    . cases effect <;> first | rfl | cases heffect
    . intro c c' hc hmem
      rcases List.mem_cons.1 hmem with hmem | hmem
      . cases hmem
        have hlooked : world.coordinator = some c' := congrArg Prod.fst hperform
        cases hc.symm.trans hlooked
        exact .refl c
      . obtain ⟨c₁, hc₁, halike⟩ := hrests c hc
        exact halike.trans (hlook c₁ c' hc₁ hmem)

end World

namespace Coordinator

variable {c c' : Coordinator} {available : Bool} {time : Nat} {moment : Timestamp} {target : ActiveStore}

def Turns (c : Coordinator) (target : ActiveStore) (c' : Coordinator) : Except Error StoreSwitch → Prop
  | .ok _ => c'.config = c.config ∧ c'.state.active = target ∧ c'.health = {}
  | .error _ => c.Alike c'

theorem turns_activate (c : Coordinator) (target : ActiveStore) (lastSeen : Option Timestamp)
    : c.Turns target (c.activate target lastSeen).2 (c.activate target lastSeen).1 := by
  unfold activate
  dsimp only
  split
  . exact ⟨rfl, rfl, rfl⟩
  . exact ⟨rfl, rfl, rfl⟩

theorem Alike.turns {result : Except Error StoreSwitch} {c₁ c₂ : Coordinator} (h : c.Alike c₁)
    (hturns : c₁.Turns target c₂ result) (h' : c₂.Alike c')
    : c.Turns target c' result := by
  cases result with
  | ok _ =>
    obtain ⟨hconfig, hactive, hhealth⟩ := hturns
    exact ⟨h'.config.trans (hconfig.trans h.config), h'.active.trans hactive, h'.health.trans hhealth⟩
  | error _ => exact h.trans (Alike.trans hturns h')

theorem observe_eq_some
    : (c.observe available time moment).1 = some target ↔
        target ≠ c.state.active ∧ available = c.state.active.awaits ∧
          lasted ((c.health.clock c.state.active).getD time) time (c.config.patience c.state.active) = true := by
  unfold observe
  cases c.state.active <;> cases available <;> cases target
    <;> simp [ActiveStore.awaits, Health.clock, FallbackConfig.patience]

theorem config_observe (c : Coordinator) (available : Bool) (time : Nat) (moment : Timestamp)
    : (c.observe available time moment).2.config = c.config := by
  obtain ⟨_, _, hobserve⟩ := c.observe_eq available time moment
  rw [hobserve]

theorem active_observe (c : Coordinator) (available : Bool) (time : Nat) (moment : Timestamp)
    : (c.observe available time moment).2.state.active = c.state.active := by
  obtain ⟨_, _, hobserve⟩ := c.observe_eq available time moment
  rw [hobserve]

theorem clock_observe (c : Coordinator) (available : Bool) (time : Nat) (moment : Timestamp) (store : ActiveStore)
    : (c.observe available time moment).2.health.clock store
        =
      if store = c.state.active then
        if available = c.state.active.awaits then some ((c.health.clock store).getD time) else none
      else c.health.clock store := by
  unfold observe
  cases hactive : c.state.active <;> cases available <;> cases store <;> rfl

end Coordinator

theorem Check.attempts_iff_due {check : Check} {before after : List Exchange} {available : Bool}
    {due : Option ActiveStore} (hsplit : check.exchanges = before ++ ⟨.observe available, due⟩ :: after)
    (hbefore : Calm before) (hafter : Process.Ends [] (Script.concluding due).toProcess after check.answer)
    (target : ActiveStore)
    : check.Attempts target ↔ due = some target := by
  have hsilent : ∀ x ∈ after, ∀ available, x.effect ≠ .observe available := by
    intro x hx available'
    cases due with
    | none =>
      rw [(Script.ends_concluding_none hafter).1] at hx
      cases hx
    | some target =>
      obtain ⟨result, -, hswitches⟩ := Script.ends_concluding_some hafter
      exact hswitches.ne_observe hx available'
  constructor
  . rintro ⟨before', available', after', hsplit', -⟩
    have hmem : ⟨.observe available', some target⟩ ∈ before ++ ⟨.observe available, due⟩ :: after := by
      rw [← hsplit, hsplit']
      exact List.mem_append_right _ List.mem_cons_self
    rcases List.mem_append.1 hmem with hmem | hmem
    . exact absurd rfl (hbefore.ne_observe hmem available')
    . rcases List.mem_cons.1 hmem with hmem | hmem
      . cases hmem
        rfl
      . exact absurd rfl (hsilent _ hmem available')
  . rintro rfl
    exact ⟨before, available, after, hsplit, hafter⟩

inductive Check.Brings (check : Check) : Option ActiveStore × Coordinator → Coordinator → Prop where
  | rests {c c' : Coordinator} (hanswer : check.answer = .ok none) (h : c.Alike c') : Check.Brings check (none, c) c'
  | switches {c c' : Coordinator} {target : ActiveStore} {result : Except Error StoreSwitch}
      (hanswer : check.answer = Except.map some result) (h : c.Turns target c' result) :
      Check.Brings check (some target, c) c'

namespace World

variable {ρ : Type} {world world' : World ρ} {c : Coordinator} {exchanges : List Exchange} {seen : List Sighting}
  {target : ActiveStore} {result : Except Error StoreSwitch}

theorem attends_switch (hc : world.coordinator = some c) (hne : c.state.active ≠ target)
    (hswitches : Script.SwitchesTo target exchanges result) (h : world.Attends exchanges seen world')
    : seen = [] ∧ ∃ c', world'.coordinator = some c' ∧ c.Turns target c' result := by
  cases hswitches with
  | activated hbefore hafter =>
    obtain ⟨mid, seen', seen'', rfl, hattends, hattends'⟩ := attends_append h
    obtain ⟨rfl, hrests, -⟩ := hattends.rests hbefore
    obtain ⟨mid', me, after, seen, hrests', hperform, hattends, rfl⟩ := attends_cons hattends'
    obtain ⟨rfl, hrests'', -⟩ := hattends.rests hafter
    obtain ⟨c₁, hc₁, halike⟩ := hrests.trans hrests' c hc
    rw [perform, hc₁] at hperform
    cases hperform
    obtain ⟨c', hc', halike'⟩ := hrests'' _ rfl
    exact ⟨rfl, c', hc', halike.turns (c₁.turns_activate target _) halike'⟩
  | failed hcalm =>
    obtain ⟨hseen, hrests, -⟩ := h.rests hcalm
    exact ⟨hseen, hrests c hc⟩
  | needless hcalm hmem hactive =>
    -- nobody else has switched in the meantime
    obtain ⟨-, -, hlook⟩ := h.rests hcalm
    exact absurd ((hlook c _ hc hmem).active.symm.trans hactive) hne

theorem attends_check (check : Check) (hc : world.coordinator = some c)
    (hends : Process.Ends [] Script.checkCluster.toProcess check.exchanges check.answer)
    (h : world.Attends check.exchanges seen world')
    : ∃ sighting moment c₀ c', seen = [sighting] ∧ c.Alike c₀ ∧ world'.coordinator = some c' ∧
        (∀ target, check.Attempts target ↔ (c₀.observe sighting.available sighting.time moment).1 = some target) ∧
        check.Brings (c₀.observe sighting.available sighting.time moment) c' := by
  -- one observation decides, and what comes before it leaves the coordinator at rest
  obtain ⟨before, available, due, after, hsplit, hbefore, hafter⟩ := Script.ends_checkCluster hends
  have hattempts := Check.attempts_iff_due hsplit hbefore hafter
  rw [hsplit] at h
  obtain ⟨mid, seen', seen'', rfl, hattends, hattends'⟩ := attends_append h
  obtain ⟨rfl, hrests, -⟩ := hattends.rests hbefore
  obtain ⟨mid', me, told, seen, hrests', hperform, hattends, rfl⟩ := attends_cons hattends'
  obtain ⟨c₀, hc₀, halike⟩ := hrests.trans hrests' c hc
  have hactive := c₀.active_observe available (mid'.clock + 1) mid'.moment
  rw [perform] at hperform
  dsimp only at hperform
  rw [hc₀] at hperform
  cases hperform
  refine ⟨⟨available, mid'.clock + 1⟩, mid'.moment, c₀, ?_⟩
  dsimp only at hattends hafter hattempts ⊢
  cases hobserved : c₀.observe available (mid'.clock + 1) mid'.moment with
  | mk due observed =>
    rw [hobserved] at hattends hafter hattempts hactive
    cases due with
    | none =>
      obtain ⟨rfl, hanswer⟩ := Script.ends_concluding_none hafter
      obtain ⟨rfl, hrests'', -⟩ := hattends.rests .nil
      obtain ⟨c', hc', halike'⟩ := hrests'' observed rfl
      exact ⟨c', rfl, halike, hc', hattempts, .rests hanswer halike'⟩
    | some target =>
      obtain ⟨result, hanswer, hswitches⟩ := Script.ends_concluding_some hafter
      have hne : observed.state.active ≠ target := by
        rw [hactive]
        exact (Coordinator.observe_eq_some.1 (congrArg Prod.fst hobserved)).1.symm
      obtain ⟨rfl, c', hc', hturns⟩ := attends_switch rfl hne hswitches hattends
      exact ⟨c', rfl, halike, hc', hattempts, .switches hanswer hturns⟩

end World

namespace Check

variable {check : Check} {earlier : List Check} {available : Bool}

theorem streak_of_switched (h : check.switched = true) : streak available (check :: earlier) = [] :=
  List.takeWhile_cons_of_neg (by simp [h])

theorem streak_cons (h : check.switched = false)
    : streak available (check :: earlier)
        =
      if check.sighting.available = available then check :: streak available earlier else [] := by
  unfold streak
  rw [List.takeWhile_cons, h, Bool.not_false, Bool.and_true]
  simp only [decide_eq_true_eq]

def since (available : Bool) (checks : List Check) : Option Nat :=
  (streak available checks).getLast?.map (·.sighting.time)

theorem since_cons (h : check.switched = false)
    : since available (check :: earlier)
        =
      if check.sighting.available = available then some ((since available earlier).getD check.sighting.time)
      else none := by
  unfold since
  rw [streak_cons h]
  split
  . rw [List.getLast?_cons, Option.map_some, Option.getD_map]
  . rfl

theorem exists_first (available : Bool)
    (htimes : (check :: earlier).Pairwise fun check earlier => earlier.sighting.time ≤ check.sighting.time)
    : ∃ first ∈ check :: streak available earlier,
        (since available earlier).getD check.sighting.time = first.sighting.time ∧
          ∀ other ∈ check :: streak available earlier, first.sighting.time ≤ other.sighting.time := by
  have hsublist : (streak available earlier).Sublist earlier := List.takeWhile_sublist _
  have hordered := htimes.sublist (hsublist.cons_cons check)
  have hlast : (check :: streak available earlier).getLast? = some ((streak available earlier).getLast?.getD check) :=
    List.getLast?_cons
  obtain ⟨later, hlater⟩ := List.getLast?_eq_some_iff.1 hlast
  refine ⟨_, List.mem_of_getLast? hlast, Option.getD_map .., ?_⟩
  rw [hlater] at hordered ⊢
  intro other hother
  rcases List.mem_append.1 hother with hother | hother
  . exact (List.pairwise_append.1 hordered).2.2 other hother _ (List.mem_singleton_self _)
  . rw [List.mem_singleton.1 hother]

theorem lasted_iff {millis : Nat} (havailable : check.sighting.available = available)
    (htimes : (check :: earlier).Pairwise fun check earlier => earlier.sighting.time ≤ check.sighting.time)
    : Coordinator.lasted ((since available earlier).getD check.sighting.time) check.sighting.time millis = true ↔
        check.Lasts earlier available millis := by
  obtain ⟨first, hmem, hsince, hfirst⟩ := exists_first available htimes
  have hle := hfirst check List.mem_cons_self
  unfold Coordinator.lasted
  rw [hsince, decide_eq_true_iff]
  constructor
  . intro hlasted
    exact ⟨havailable, first, hmem, by omega⟩
  . rintro ⟨-, other, hother, hlasted⟩
    have := hfirst other hother
    omega

end Check

namespace Coordinator

open Check

variable {c c₀ c' : Coordinator} {config : FallbackConfig} {check : Check} {earlier : List Check} {moment : Timestamp}

structure Recalls (c : Coordinator) (config : FallbackConfig) (checks : List Check) : Prop where
  config : c.config = config
  clock : ∀ store, c.health.clock store = if store = c.state.active then since store.awaits checks else none

theorem Recalls.alike (h : c.Recalls config earlier) (halike : c.Alike c') : c'.Recalls config earlier where
  config := halike.config.trans h.config
  clock := by
    rw [halike.health, halike.active]
    exact h.clock

theorem recalls_of_health (hconfig : c.config = config) (hhealth : c.health = {})
    (hnone : ∀ available, since available earlier = none)
    : c.Recalls config earlier where
  config := hconfig
  clock store := by
    rw [hhealth, hnone, ite_self]
    cases store <;> rfl

theorem Recalls.of_open {volume volume' : Volume} (h : Coordinator.open config volume = .ok c volume')
    : c.Recalls config [] := by
  obtain ⟨hconfig, hhealth, -⟩ := open_cases h
  exact recalls_of_health hconfig hhealth fun _ => rfl

theorem Recalls.observe (h : c.Recalls config earlier) (hswitched : check.switched = false) (moment : Timestamp)
    : (c.observe check.sighting.available check.sighting.time moment).2.Recalls config (check :: earlier) := by
  refine ⟨(c.config_observe ..).trans h.config, fun store => ?_⟩
  rw [c.clock_observe, c.active_observe, since_cons hswitched, h.clock]
  split
  . next hstore =>
    rw [hstore]
  . rfl

theorem Recalls.brings (h : c.Recalls config earlier)
    (hbrings : check.Brings (c.observe check.sighting.available check.sighting.time moment) c')
    : c'.Recalls config (check :: earlier) := by
  have hobserved (hswitched : check.switched = false) := h.observe hswitched moment
  cases hobserve : c.observe check.sighting.available check.sighting.time moment with
  | mk due observed =>
    rw [hobserve] at hbrings hobserved
    cases hbrings with
    | rests hanswer halike =>
      refine (hobserved ?_).alike halike
      unfold switched
      rw [hanswer]
    | @switches _ _ target result hanswer hturns =>
      cases result with
      | error e =>
        refine (hobserved ?_).alike hturns
        unfold switched
        rw [hanswer]
        rfl
      | ok transition =>
        have hswitched : check.switched = true := by
          unfold switched
          rw [hanswer]
          rfl
        have hsame := c.config_observe check.sighting.available check.sighting.time moment
        rw [hobserve] at hsame
        obtain ⟨hconfig, -, hhealth⟩ := hturns
        refine recalls_of_health (hconfig.trans (hsame.trans h.config)) hhealth fun available => ?_
        unfold since
        rw [streak_of_switched hswitched]
        rfl

end Coordinator

namespace World

variable {ρ : Type} {world world' world'' : World ρ} {c : Coordinator} {config : FallbackConfig}
  {checks earlier : List Check} {check : Check}

theorem Rests.takes (hrests : world.Rests world') (hactive : world'.active? = world.active?)
    (h : world'.Takes check world'')
    : world.Takes check world'' :=
  ⟨hactive.symm.trans h.active, h.ends, .rest hrests h.attends⟩

theorem Takes.recalls (h : world.Takes check world') (hc : world.coordinator = some c)
    (hrecalls : c.Recalls config earlier)
    : ∃ c', world'.coordinator = some c' ∧ c'.Recalls config (check :: earlier) := by
  obtain ⟨_, moment, c₀, c', hseen, halike, hc', -, hbrings⟩ := attends_check check hc h.ends h.attends
  cases hseen
  exact ⟨c', hc', (hrecalls.alike halike).brings hbrings⟩

theorem Undergoes.recalls (h : world.Undergoes checks world') (hc : world.coordinator = some c)
    (hrecalls : c.Recalls config [])
    : ∃ c', world'.coordinator = some c' ∧ c'.Recalls config checks := by
  induction h with
  | nil => exact ⟨c, hc, hrecalls⟩
  | check _ htakes ih =>
    obtain ⟨c₁, hc₁, hrecalls⟩ := ih
    exact htakes.recalls hc₁ hrecalls

theorem Takes.attempts_iff (h : world.Takes check world') (hc : world.coordinator = some c)
    (hrecalls : c.Recalls config earlier)
    (htimes : (check :: earlier).Pairwise fun check earlier => earlier.sighting.time ≤ check.sighting.time)
    (target : ActiveStore)
    : check.Attempts target ↔
        target ≠ check.active ∧ check.Lasts earlier check.active.awaits (config.patience check.active) := by
  obtain ⟨_, moment, c₀, _, hseen, halike, -, hattempts, -⟩ := attends_check check hc h.ends h.attends
  cases hseen
  have hactive : c₀.state.active = check.active := by
    obtain ⟨c₁, hc₁, hactive⟩ := Option.map_eq_some_iff.1 h.active
    cases hc.symm.trans hc₁
    exact halike.active.trans hactive
  obtain ⟨hconfig, hclock⟩ := hrecalls.alike halike
  rw [hattempts, Coordinator.observe_eq_some, hclock, if_pos rfl, hactive, hconfig]
  refine and_congr_right fun _ => ⟨?_, ?_⟩
  . rintro ⟨havailable, hlasted⟩
    exact (Check.lasted_iff havailable htimes).1 hlasted
  . intro hlasts
    exact ⟨hlasts.1, (Check.lasted_iff hlasts.1 htimes).2 hlasts⟩

theorem Undergoes.of_suffix (h : world.Undergoes checks world') (hsuffix : check :: earlier <:+ checks)
    : ∃ before after, world.Undergoes earlier before ∧ before.Takes check after := by
  induction h with
  | nil => simp at hsuffix
  | @check mid after _ _ h htakes ih =>
    rcases List.suffix_cons_iff.1 hsuffix with heq | hsuffix
    . cases heq
      exact ⟨mid, after, h, htakes⟩
    . exact ih hsuffix

/-- A check of a coordinator attempts to leave the cluster just if that is the active store and it and every
earlier check since one that was long enough before it have found the cluster unavailable, all after the last
switch that was made; and it attempts to come back just if the other store is active and they have found it
available. -/
theorem attempts_iff_lasts {volume volume' : Volume} (hcoordinator : world.coordinator = some c)
    (hopen : Coordinator.open config volume = .ok c volume') (hchecks : world.Undergoes checks world')
    (htimes : checks.Pairwise fun check earlier => earlier.sighting.time ≤ check.sighting.time)
    (hcheck : check :: earlier <:+ checks)
    : (check.Attempts .standalone ↔ check.active = .replicated ∧ check.Lasts earlier false config.minUnavailable) ∧
        (check.Attempts .replicated ↔ check.active = .standalone ∧ check.Lasts earlier true config.minAvailable) := by
  obtain ⟨before, after, hearlier, htakes⟩ := hchecks.of_suffix hcheck
  obtain ⟨c₁, hc₁, hrecalls⟩ := hearlier.recalls hcoordinator (.of_open hopen)
  have hattempts := htakes.attempts_iff hc₁ hrecalls (htimes.sublist hcheck.sublist)
  constructor
  . rw [hattempts]
    cases check.active <;> simp [ActiveStore.awaits, FallbackConfig.patience]
  . rw [hattempts]
    cases check.active <;> simp [ActiveStore.awaits, FallbackConfig.patience]

def outageCoordinator (downSince : Option Nat) : Coordinator where
  config := { minUnavailable := 1 }
  unavailableStrategy := .overwrite
  rejoinStrategy := .overwrite
  state := {}
  disk := {}
  health := { downSince }

-- The coordinator works for a node without any contact.
def outage (clock : Nat) (downSince : Option Nat) : World ρ where
  members := []
  network := .unconnected
  clock
  coordinator := some (outageCoordinator downSince)

theorem takes_outage (clock : Nat) (downSince : Option Nat) {exchanges : List Exchange}
    {answer : Except Error (Option StoreSwitch)} (hends : Process.Ends []
      (Script.concluding ((outageCoordinator downSince).observe false (clock + 2) default).1).toProcess exchanges answer)
    (h : (outage (clock + 2) (some (downSince.getD (clock + 2)))).Attends exchanges [] world')
    : ∃ exchanges, (outage clock downSince).Takes ⟨.replicated, ⟨false, clock + 2⟩, exchanges, answer⟩ world' := by
  have hobserve := @Attends.perform _ (outage (clock + 1) downSince) _ _ (.observe false) _ _ _ 0 rfl h
  have hstanding := @Attends.perform _ (outage clock downSince) _ _ (.standing 0) _ _ _ 0 rfl hobserve
  have hcoordinated := @Attends.perform _ (outage clock downSince) _ _ .coordinated _ _ _ 0 rfl hstanding
  have hcoordinator := @Attends.perform _ (outage clock downSince) _ _ .coordinator _ _ _ 0 rfl hcoordinated
  refine ⟨_, rfl, ?_, hcoordinator⟩
  dsimp only
  rw [Script.checkCluster_eq]
  refine .step _ (.step _ (.step _ ?_))
  exact .step _ hends

theorem attempts_iff_lasts_outage
    : ∃ check earlier world', (outage (ρ := Unit) 0 none).Undergoes [check, earlier] world' ∧
        check.Attempts .standalone ∧ ¬ earlier.Attempts .standalone := by
  have hlater : (outage (ρ := Unit) 2 (some 2)).Rests (outage 1000 (some 2)) := by
    rintro c ⟨⟩
    exact ⟨_, rfl, .refl _⟩
  obtain ⟨exchanges, hfirst⟩ := takes_outage 0 none .answer .nil
  obtain ⟨exchanges', hsecond⟩ := takes_outage 1000 (some 2)
    (.step _ (.setTimer (@Process.Ends.late _ _ [] _ _ _ _ _ rfl rfl .answer)))
    (@Attends.perform Unit (outage 1002 (some 2)) _ _ .coordinator _ _ _ 0 rfl .nil)
  have hchecks := Undergoes.check (.check .nil hfirst) (hlater.takes rfl hsecond)
  have hopen : Coordinator.open { minUnavailable := 1 } {} = .ok (outageCoordinator none) {} := rfl
  refine ⟨_, _, _, hchecks, ?_, ?_⟩
  . refine (attempts_iff_lasts rfl hopen hchecks (by simp) (List.suffix_refl _)).1.2 ⟨rfl, ?_⟩
    simp [Check.Lasts, Check.streak, Check.switched]
  . rw [(attempts_iff_lasts rfl hopen hchecks (by simp) (List.suffix_cons _ _)).1]
    simp [Check.Lasts, Check.streak]

end World

end ReplicatedStore
