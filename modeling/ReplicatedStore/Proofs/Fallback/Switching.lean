import ReplicatedStore.Proofs.Runs.Confined

/-!
What a check of the cluster and a switch ask of the coordinator: a check tells it once what it found, and a
switch makes a store the active one at most once.
-/

namespace ReplicatedStore

def Effect.decides : Effect → Bool
  | .observe _ | .activate .. => true
  | _ => false

def Calm (exchanges : List Exchange) : Prop :=
  ∀ x ∈ exchanges, x.effect.decides = false

namespace Calm

variable {x : Exchange} {before exchanges after : List Exchange}

@[simp] theorem nil : Calm [] :=
  List.forall_mem_nil _

@[simp] theorem cons : Calm (x :: exchanges) ↔ x.effect.decides = false ∧ Calm exchanges :=
  List.forall_mem_cons

@[simp] theorem append : Calm (before ++ after) ↔ Calm before ∧ Calm after :=
  List.forall_mem_append

theorem ne_observe (h : Calm exchanges) (hx : x ∈ exchanges) (available : Bool) : x.effect ≠ .observe available := by
  intro heffect
  have hdecides := h x hx
  rw [heffect] at hdecides
  cases hdecides

end Calm

namespace Script

open Process

variable {ρ : Type} {x : Exchange} {before exchanges after : List Exchange} {target : ActiveStore}
  {result : Except Error StoreSwitch}

theorem Confined.calm {α : Type} {script : Script ρ α} (hs : Nodal script)
    : Confined (·.decides = false) script := by
  apply hs.imp
  intro effect heffect
  cases effect <;> first | rfl | cases heffect

theorem confined_commit (id : TransactionId)
    : Confined (·.decides = false) (commit (ρ := ρ) id) := by
  have hreleased : ∀ result : Except Error Unit, Confined (ρ := ρ) (·.decides = false) (do
      perform (.release id)
      return result) :=
    fun _ => .bind (.perform rfl) fun _ => .pure
  unfold commit
  refine .bind (.perform rfl) fun plan => ?_
  cases plan with
  | settled result => exact hreleased result
  | lead node proposal =>
    refine .bind (nodal_submit node proposal).calm fun result => ?_
    cases result with
    | error e => exact hreleased _
    | ok _ => exact hreleased _
  | forward node leader proposal => exact .bind (nodal_forward node leader proposal).calm hreleased

theorem confined_merge (strategy : MergeStrategy) (source target : TransactionId)
    : Confined (·.decides = false) (strategy.merge (mergeSide (ρ := ρ) source) (mergeSide target)) := by
  unfold MergeStrategy.merge
  refine .bind (.perform rfl) fun sourceView => .bind (.perform rfl) fun targetView => ?_
  generalize strategy.prepare sourceView targetView = prepared
  obtain ⟨prepared, sourceView', targetView'⟩ := prepared
  refine .bind (.perform rfl) fun _ => .bind (.perform rfl) fun _ => ?_
  cases prepared with
  | error e => exact .pure
  | ok _ =>
    refine .bind (confined_commit target) fun committed => ?_
    cases committed with
    | error e => exact .bind (.perform rfl) fun _ => .bind (.perform rfl) fun _ => .pure
    | ok _ => exact confined_commit source

inductive SwitchesTo (target : ActiveStore) : List Exchange → Except Error StoreSwitch → Prop where
  | activated {before after : List Exchange} {lastSeen : Option Timestamp} {result : Except Error StoreSwitch}
      (hbefore : Calm before) (hafter : Calm after) :
      SwitchesTo target (before ++ ⟨.activate target lastSeen, result⟩ :: after) result
  | failed {exchanges : List Exchange} {e : Error} (hcalm : Calm exchanges) :
      SwitchesTo target exchanges (.error e)
  | needless {exchanges : List Exchange} {coordinator : Coordinator} {transition : StoreSwitch}
      (hcalm : Calm exchanges) (hmem : ⟨.coordinator, coordinator⟩ ∈ exchanges)
      (hactive : coordinator.state.active = target) : SwitchesTo target exchanges (.ok transition)

theorem SwitchesTo.preceded (h : SwitchesTo target exchanges result) (hbefore : Calm before)
    : SwitchesTo target (before ++ exchanges) result := by
  cases h with
  | activated hbefore' hafter =>
    rw [← List.append_assoc]
    exact .activated (Calm.append.2 ⟨hbefore, hbefore'⟩) hafter
  | failed hcalm => exact .failed (Calm.append.2 ⟨hbefore, hcalm⟩)
  | needless hcalm hmem hactive =>
    exact .needless (Calm.append.2 ⟨hbefore, hcalm⟩) (List.mem_append_right _ hmem) hactive

theorem SwitchesTo.followed (h : SwitchesTo target exchanges result) (hafter : Calm after)
    : SwitchesTo target (exchanges ++ after) result := by
  cases h with
  | activated hbefore hafter' =>
    rw [List.append_assoc, List.cons_append]
    exact .activated hbefore (Calm.append.2 ⟨hafter', hafter⟩)
  | failed hcalm => exact .failed (Calm.append.2 ⟨hcalm, hafter⟩)
  | needless hcalm hmem hactive =>
    exact .needless (Calm.append.2 ⟨hcalm, hafter⟩) (List.mem_append_left _ hmem) hactive

theorem Yields.switchesTo {α : Type} {script : Script ρ α} {f : α → Script ρ (Except Error StoreSwitch)}
    (hs : Confined (·.decides = false) script) (hf : ∀ a, Yields (f a) (SwitchesTo target))
    : Yields (script >>= f) (SwitchesTo target) := by
  apply hs.yields.bind
  intro a before hbefore
  apply (hf a).imp
  intro after result h
  exact h.preceded hbefore

theorem SwitchesTo.ne_observe (h : SwitchesTo target exchanges result) (hx : x ∈ exchanges) (available : Bool)
    : x.effect ≠ .observe available := by
  cases h with
  | activated hbefore hafter =>
    rcases List.mem_append.1 hx with hx | hx
    . exact hbefore.ne_observe hx available
    . rcases List.mem_cons.1 hx with rfl | hx
      . nofun
      . exact hafter.ne_observe hx available
  | failed hcalm => exact hcalm.ne_observe hx available
  | needless hcalm => exact hcalm.ne_observe hx available

theorem yields_drops (source destination : TransactionId) (result : Except Error StoreSwitch)
    : Yields (ρ := ρ) (do
        perform (.drop source)
        perform (.drop destination)
        return result) fun exchanges result' => Calm exchanges ∧ result' = result := by
  apply (yields_perform _).bind
  rintro _ _ rfl
  apply (yields_perform _).bind
  rintro _ _ rfl
  exact .pure ⟨by simp [Effect.decides], rfl⟩

theorem yields_merging {limit : Nat} {lastSeen : Option Timestamp} (strategy : MergeStrategy)
    (source destination : TransactionId)
    : Yields (ρ := ρ) (do
        let result ← match ← within limit (strategy.merge (mergeSide source) (mergeSide destination)) with
          | some (.ok ()) => perform (.activate target lastSeen)
          | some (.error e) => pure (.error (.mergeFailed e.message))
          | none => pure (.error (.mergeFailed s!"timed out after {Duration.ofMillis limit}"))
        perform (.drop source)
        perform (.drop destination)
        return result) (SwitchesTo target) := by
  apply (confined_merge strategy source destination).within.yields.bind
  intro merged before hbefore
  have hfailed : ∀ e, Yields (ρ := ρ) (do
      perform (.drop source)
      perform (.drop destination)
      return .error e) fun after result => SwitchesTo target (before ++ after) result := by
    intro e
    apply (yields_drops source destination (.error e)).imp
    rintro after _ ⟨hafter, rfl⟩
    exact .failed (Calm.append.2 ⟨hbefore, hafter⟩)
  rcases merged with _ | e | _
  . exact hfailed _
  . exact hfailed _
  . apply (yields_perform _).bind
    rintro result _ rfl
    apply (yields_drops source destination result).imp
    rintro after _ ⟨hafter, rfl⟩
    exact .activated hbefore hafter

theorem yields_switchAlone (target : ActiveStore)
    : Yields (switchAlone (ρ := ρ) target) (SwitchesTo target) := by
  unfold switchAlone
  apply (yields_perform _).bind
  rintro coordinator _ rfl
  apply (yields_perform _).bind
  rintro node _ rfl
  have hread : Calm [⟨.coordinator, coordinator⟩] ∧ Calm [⟨.coordinated, node⟩] := by simp [Effect.decides]
  dsimp only
  split
  . next hactive => exact .pure (.needless (Calm.append.2 hread) List.mem_cons_self hactive)
  . suffices hmerging : Yields (ρ := ρ) _ (SwitchesTo target) from
      hmerging.imp fun _ _ h => (h.preceded hread.2).preceded hread.1
    cases target with
    | standalone =>
      exact .switchesTo (.perform rfl) fun source => .switchesTo (.perform rfl) fun destination =>
        yields_merging _ source destination
    | replicated =>
      exact .switchesTo (.perform rfl) fun source => .switchesTo (.perform rfl) fun destination =>
        yields_merging _ source destination

theorem yields_switchStore (target : ActiveStore)
    : Yields (switchStore (ρ := ρ) target) (SwitchesTo target) := by
  unfold switchStore
  refine .switchesTo (.perform rfl) fun coordinator => .switchesTo (.within (.perform rfl)) fun entered => ?_
  cases entered with
  | none => exact .pure (.failed .nil)
  | some _ =>
    apply (yields_switchAlone target).bind
    intro result exchanges h
    apply (yields_perform _).bind
    rintro _ _ rfl
    apply Yields.pure
    exact h.followed (by simp [Effect.decides])

def concluding : Option ActiveStore → Script ρ (Except Error (Option StoreSwitch))
  | none => return .ok none
  | some target => Except.map some <$> switchStore target

theorem checkCluster_eq
    : checkCluster (ρ := ρ)
        =
      (do
        let coordinator ← perform .coordinator
        let node ← perform .coordinated
        let available ← canReachMajority node coordinator.config.probeTimeout
        concluding (← perform (.observe available))) := by
  unfold checkCluster
  refine bind_congr fun coordinator => bind_congr fun node => bind_congr fun available => bind_congr fun due => ?_
  cases due with
  | none => rfl
  | some target =>
    refine congrArg (switchStore target >>= ·) (funext fun result => ?_)
    cases result <;> rfl

theorem ends_checkCluster {answer : Except Error (Option StoreSwitch)}
    (hends : Ends [] checkCluster.toProcess exchanges answer)
    : ∃ before available due after, exchanges = before ++ ⟨.observe available, due⟩ :: after ∧ Calm before ∧
        Ends [] (concluding due).toProcess after answer := by
  have hprobing : Confined (ρ := Except Error (Option StoreSwitch)) (·.decides = false) (do
      let coordinator ← perform .coordinator
      let node ← perform .coordinated
      canReachMajority node coordinator.config.probeTimeout) :=
    .bind (.perform rfl) fun coordinator => .bind (.perform rfl) fun node => (nodal_canReachMajority node _).calm
  rw [checkCluster_eq] at hends
  obtain ⟨available, before, after, rfl, hbefore, hends⟩ := hprobing.yields _ _ _ hends
  cases hends with
  | step due hends => exact ⟨before, available, due, _, rfl, hbefore, hends⟩
  | late _ htimers => simp at htimers

theorem ends_concluding_none {answer : Except Error (Option StoreSwitch)}
    (hends : Ends [] (concluding none).toProcess exchanges answer)
    : exchanges = [] ∧ answer = .ok none := by
  cases hends with
  | answer => exact ⟨rfl, rfl⟩
  | late hwaits => cases hwaits

theorem ends_concluding_some {answer : Except Error (Option StoreSwitch)}
    (hends : Ends [] (concluding (some target)).toProcess exchanges answer)
    : ∃ result, answer = Except.map some result ∧ SwitchesTo target exchanges result := by
  have hyields : Yields (ρ := Except Error (Option StoreSwitch)) (concluding (some target))
      fun exchanges answer => ∃ result, answer = Except.map some result ∧ SwitchesTo target exchanges result := by
    apply (yields_switchStore target).bind
    intro result exchanges h
    apply Yields.pure
    rw [List.append_nil]
    exact ⟨result, rfl, h⟩
  exact hyields.toProcess hends

end Script

end ReplicatedStore
