import ReplicatedStore.Proofs.Fallback.Holdings

/-!
Every call keeps to what it may do, whatever the replies are that it can get.
-/

namespace ReplicatedStore

namespace MergeStrategy

theorem writes_perform_range {view view' : TransactionView} {range : KeyRange} {reverse : Bool} {answer : Answer}
    (h : view.perform (.range range reverse) = .ok (answer, view'))
    : view'.writes = view.writes := by
  obtain ⟨_, -, h⟩ := Except.of_bind h
  cases h
  rfl

theorem writes_prepare (strategy : MergeStrategy) (source target : TransactionView)
    : (strategy.prepare source target).2.1.writes = source.writes := by
  have hoverwrite : (overwriteView source target).2.1.writes = source.writes := by
    unfold overwriteView
    split
    . rfl
    . split
      . rfl
      . next hrange =>
        dsimp only
        generalize putAll _ _ = put
        obtain ⟨_ | _, _⟩ := put
        . exact writes_perform_range hrange
        . exact writes_perform_range hrange
  cases strategy with
  | keep => rfl
  | overwrite =>
    unfold prepare
    dsimp only
    split
    . next hview =>
      rw [hview] at hoverwrite
      exact hoverwrite
    . next hview =>
      rw [hview] at hoverwrite
      exact hoverwrite

end MergeStrategy

namespace Script

variable {home : Handle} {call : FallbackCall} {h k : Holding} {timers : List Holding} {active : ActiveStore}
  {merging : List (TransactionId × Origin)} {id source target : TransactionId}

theorem guides_view (htimers : ∀ other ∈ timers, other = h) (hhas : h.Has id)
    : Guides home call h timers (perform (.view id)) fun view h' => h' = h ∧ h.Shows id view :=
  fun _ hnext => ⟨htimers, hhas, hnext⟩

theorem guides_commit (htimers : ∀ other ∈ timers, other = h) (htimers' : ∀ other ∈ timers, other = k)
    (hcloses : h.closes true = k) (hhas : h.Has id) (hrelease : k.Permits home (.release id))
    (hsettles : k.Roams ∨ h.Settles id)
    : Guides home call h timers (Script.commit id) fun _ h' => h' = k.releases := by
  have hreleased : ∀ result : Except Error Unit, Guides home call k timers (do
      perform (.release id)
      return result) fun _ h' => h' = k.releases := by
    intro result
    apply (guides_perform htimers' hrelease).bind
    intro _ h' hleads
    exact guides_pure hleads
  unfold Script.commit
  apply (guides_perform htimers (show h.Permits home (.planCommit id) from hhas)).bind
  rintro plan _ ⟨rfl, hsettled⟩
  rw [hcloses]
  cases plan with
  | settled result => exact hreleased result
  | lead node proposal =>
    rcases hsettles with hroams | hsettles
    . apply ((nodal_submit node proposal).stays hroams timers htimers').bind
      rintro result _ rfl
      cases result with
      | error e => exact hreleased _
      | ok point => exact hreleased _
    . obtain ⟨result, hresult⟩ := hsettled hsettles
      cases hresult
  | forward node leader proposal =>
    rcases hsettles with hroams | hsettles
    . apply ((nodal_forward node leader proposal).stays hroams timers htimers').bind
      rintro result _ rfl
      exact hreleased _
    . obtain ⟨result, hresult⟩ := hsettled hsettles
      cases hresult

theorem stays_commit (hhas : (Holding.alone active merging).Has id)
    (hsettles : (Holding.alone active merging).Roams ∨ (Holding.alone active merging).Settles id)
    : Stays home call (.alone active merging) (Script.commit id) :=
  fun _ htimers => guides_commit htimers htimers rfl hhas ⟨hhas, nofun⟩ hsettles

theorem shows_of_writes {view view' : TransactionView} (h : (Holding.alone active merging).Shows id view)
    (hwrites : view'.writes = view.writes)
    : (Holding.alone active merging).Shows id view' := by
  cases active with
  | replicated => trivial
  | standalone =>
    intro hmem
    rw [hwrites]
    exact h hmem

theorem stays_setView {view : TransactionView} (hhas : (Holding.alone active merging).Has id)
    (hshows : (Holding.alone active merging).Shows id view)
    : Stays home call (.alone active merging) (perform (.setView id view)) :=
  fun _ htimers => guides_perform htimers ⟨hhas, hshows⟩

theorem stays_merge (strategy : MergeStrategy) (hsource : (Holding.alone active merging).Has source)
    (htarget : (Holding.alone active merging).Has target)
    (hsourceSettles : (Holding.alone active merging).Roams ∨ (Holding.alone active merging).Settles source)
    (htargetSettles : (Holding.alone active merging).Roams ∨ (Holding.alone active merging).Settles target)
    (hshows : ∀ view, (Holding.alone active merging).Shows target view)
    : Stays home call (.alone active merging) (strategy.merge (mergeSide source) (mergeSide target)) := by
  intro timers htimers
  unfold MergeStrategy.merge
  apply (guides_view htimers hsource).bind
  rintro sourceView _ ⟨rfl, hsourceView⟩
  apply (guides_view htimers htarget).bind
  rintro targetView _ ⟨rfl, -⟩
  have hwrites := strategy.writes_prepare sourceView targetView
  generalize strategy.prepare sourceView targetView = prepared at hwrites ⊢
  obtain ⟨prepared, sourceView', targetView'⟩ := prepared
  dsimp only at hwrites ⊢
  refine Stays.bind (stays_setView hsource (shows_of_writes hsourceView hwrites)) ?_ timers htimers
  intro _
  refine (stays_setView htarget (hshows _)).bind ?_
  intro _
  cases prepared with
  | error e => exact stays_pure
  | ok _ =>
    refine (stays_commit htarget htargetSettles).bind ?_
    intro committed
    cases committed with
    | error e =>
      intro timers htimers
      apply (guides_view htimers hsource).bind
      rintro view _ ⟨rfl, hview⟩
      have hclosed : Stays home call (.alone active merging) (perform (.setView source view.close)) :=
        stays_setView hsource (shows_of_writes hview rfl)
      exact hclosed.bind (fun _ => stays_pure) timers htimers
    | ok _ => exact stays_commit hsource hsourceSettles

theorem untimed : ∀ other ∈ ([] : List Holding), other = h :=
  nofun

theorem guides_begin {origin : Origin} (htimers : ∀ other ∈ timers, other = h)
    (hpermits : h.Permits home (.begin origin))
    : Guides home call h timers (perform (.begin origin)) fun id h' =>
        h' = h.begins id origin ∧ id ∉ h.merging.map Prod.fst :=
  fun _ hnext => ⟨htimers, hpermits, hnext⟩

def Switches (active : ActiveStore) (result : Except Error StoreSwitch) (h : Holding) : Prop :=
  h = .alone active [] ∨ h = .switched [] ∧ ∃ transition, result = .ok transition

theorem guides_drops {result : Except Error StoreSwitch} {first second : Origin} (hne : target ≠ source)
    (hmerging : merging = [(target, second), (source, first)])
    (hresult : h = .alone active merging ∨ h = .switched merging ∧ ∃ transition, result = .ok transition)
    : Guides home call h [] (do
        perform (.drop source)
        perform (.drop target)
        return result) (Switches active) := by
  have hsource : source ∈ merging.map Prod.fst := by
    rw [hmerging]
    simp
  have htarget : target ∈ (merging.filter (·.1 ≠ source)).map Prod.fst := by
    rw [hmerging]
    simp [hne]
  have hdropped : (merging.filter (·.1 ≠ source)).filter (·.1 ≠ target) = [] := by
    rw [hmerging]
    simp [hne]
  rcases hresult with rfl | ⟨rfl, hok⟩
  . apply (guides_perform untimed (show (Holding.alone active merging).Permits home (.drop source) from hsource)).bind
    rintro _ _ rfl
    apply (guides_perform untimed
      (show (Holding.alone active (merging.filter (·.1 ≠ source))).Permits home (.drop target) from htarget)).bind
    rintro _ _ rfl
    apply guides_pure
    exact .inl (congrArg (Holding.alone active) hdropped)
  . apply (guides_perform untimed (show (Holding.switched merging).Permits home (.drop source) from hsource)).bind
    rintro _ _ rfl
    apply (guides_perform untimed
      (show (Holding.switched (merging.filter (·.1 ≠ source))).Permits home (.drop target) from htarget)).bind
    rintro _ _ rfl
    apply guides_pure
    exact .inr ⟨congrArg Holding.switched hdropped, hok⟩

theorem guides_merging {limit : Nat} {lastSeen : Option Timestamp} {store : ActiveStore} (strategy : MergeStrategy)
    {first second : Origin} (hne : target ≠ source)
    (hmerging : merging = [(target, second), (source, first)])
    (hsourceSettles : (Holding.alone active merging).Roams ∨ (Holding.alone active merging).Settles source)
    (htargetSettles : (Holding.alone active merging).Roams ∨ (Holding.alone active merging).Settles target)
    (hshows : ∀ view, (Holding.alone active merging).Shows target view)
    : Guides home call (.alone active merging) [] (do
        let result ← match ← within limit (strategy.merge (mergeSide source) (mergeSide target)) with
          | some (.ok ()) => perform (.activate store lastSeen)
          | some (.error e) => pure (.error (.mergeFailed e.message))
          | none => pure (.error (.mergeFailed s!"timed out after {Duration.ofMillis limit}"))
        perform (.drop source)
        perform (.drop target)
        return result) (Switches active) := by
  have hsource : (Holding.alone active merging).Has source := by
    rw [hmerging]
    simp [Holding.Has]
  have htarget : (Holding.alone active merging).Has target := by
    rw [hmerging]
    simp [Holding.Has]
  have hmerge : Stays home call (.alone active merging) (strategy.merge (mergeSide source) (mergeSide target)) :=
    stays_merge strategy hsource htarget hsourceSettles htargetSettles hshows
  apply (hmerge.within [] untimed).bind
  rintro merged _ rfl
  -- both transactions are dropped, however the merge ended
  rcases merged with _ | e | _
  . exact guides_drops hne hmerging (.inl rfl)
  . exact guides_drops hne hmerging (.inl rfl)
  . apply (guides_perform untimed (show (Holding.alone active merging).Permits home (.activate store lastSeen) from
      ⟨active, merging, rfl⟩)).bind
    intro result h' hleads
    cases result with
    | error e =>
      cases hleads
      exact guides_drops hne hmerging (.inl rfl)
    | ok transition =>
      cases hleads
      exact guides_drops hne hmerging (.inr ⟨rfl, transition, rfl⟩)

theorem guides_switchAlone (store : ActiveStore)
    : Guides home call (.alone active []) [] (switchAlone store) (Switches active) := by
  unfold switchAlone
  apply (guides_perform untimed (show (Holding.alone active []).Permits home .coordinator from .inr (.inr rfl))).bind
  rintro coordinator _ ⟨rfl, hactive⟩
  apply (guides_perform untimed (show (Holding.alone active []).Permits home .coordinated from .inr rfl)).bind
  rintro node _ ⟨rfl, rfl⟩
  dsimp only
  rw [hactive active [] rfl]
  split
  . exact guides_pure (.inl rfl)
  . next hne =>
    cases store with
    | standalone =>
      have hreplicated : active = .replicated := by
        cases active with
        | replicated => rfl
        | standalone => exact absurd rfl hne
      cases hreplicated
      apply (guides_begin untimed (show (Holding.alone .replicated []).Permits node (.begin (.member node true)) from
        ⟨rfl, _, _, rfl⟩)).bind
      rintro source _ ⟨rfl, -⟩
      apply (guides_begin untimed (show ((Holding.alone .replicated []).begins source (.member node true)).Permits node
        (.begin .standalone) from ⟨_, _, rfl⟩)).bind
      rintro target _ ⟨rfl, hfresh⟩
      have hne : target ≠ source := by
        rintro rfl
        exact hfresh List.mem_cons_self
      exact guides_merging _ hne rfl (.inr ⟨_, List.mem_cons_of_mem _ List.mem_cons_self, rfl⟩)
        (.inr ⟨_, List.mem_cons_self, rfl⟩) fun _ => trivial
    | replicated =>
      have hstandalone : active = .standalone := by
        cases active with
        | standalone => rfl
        | replicated => exact absurd rfl hne
      cases hstandalone
      apply (guides_begin untimed (show (Holding.alone .standalone []).Permits node (.begin .standalone) from
        ⟨_, _, rfl⟩)).bind
      rintro source _ ⟨rfl, -⟩
      apply (guides_begin untimed (show ((Holding.alone .standalone []).begins source .standalone).Permits node
        (.begin (.member node false)) from ⟨rfl, _, _, rfl⟩)).bind
      rintro target _ ⟨rfl, hfresh⟩
      have hne : target ≠ source := by
        rintro rfl
        exact hfresh List.mem_cons_self
      refine guides_merging _ hne rfl (.inl trivial) (.inl trivial) ?_
      -- the target is the member's, which the merge may write to
      intro view hmem
      rcases List.mem_cons.1 hmem with hmem | hmem
      . cases (Prod.mk.inj hmem).2
      . exact absurd (Prod.mk.inj (List.mem_singleton.1 hmem)).1 hne

theorem guides_switchStore (store : ActiveStore)
    : Guides home call .outside [] (switchStore store) fun result h' =>
        h' = .outside ∨ h' = .finished ∧ ∃ transition, result = .ok transition := by
  unfold switchStore
  apply (guides_perform untimed (show Holding.outside.Permits home .coordinator from .inr (.inl rfl))).bind
  rintro coordinator _ ⟨rfl, -⟩
  have henter : Guides home call .outside [] (within coordinator.config.mergeTimeout (perform (.enterGate true)))
      fun entered h' => match entered with
        | some _ => ∃ active, h' = .alone active []
        | none => h' = .outside := by
    apply Guides.within
    . exact guides_perform (by simp) (show Holding.outside.Permits home (.enterGate true) from rfl)
    . rfl
  apply henter.bind
  intro entered h' hentered
  cases entered with
  | none => exact guides_pure (.inl hentered)
  | some _ =>
    obtain ⟨active, rfl⟩ := hentered
    apply (guides_switchAlone store).bind
    rintro result h' (rfl | ⟨rfl, hok⟩)
    . apply (guides_perform untimed (show (Holding.alone active []).Permits home (.leaveGate true) from
        ⟨rfl, rfl, rfl⟩)).bind
      rintro _ _ rfl
      exact guides_pure (.inl rfl)
    . apply (guides_perform untimed (show (Holding.switched []).Permits home (.leaveGate true) from
        ⟨rfl, rfl, rfl⟩)).bind
      rintro _ _ rfl
      exact guides_pure (.inr ⟨rfl, hok⟩)

theorem guides_checkCluster
    : Guides home call .probing [] checkCluster fun result h' =>
        h' = .outside ∨ h' = .finished ∧ ∃ transition, result = .ok transition := by
  unfold checkCluster
  apply (guides_perform untimed (show Holding.probing.Permits home .coordinator from .inl rfl)).bind
  rintro coordinator _ ⟨rfl, -⟩
  apply (guides_perform untimed (show Holding.probing.Permits home .coordinated from .inl rfl)).bind
  rintro node _ ⟨rfl, -⟩
  apply ((nodal_canReachMajority node _).stays (h := .probing) trivial [] untimed).bind
  rintro available _ rfl
  apply (guides_perform untimed (show Holding.probing.Permits home (.observe available) from rfl)).bind
  rintro due _ rfl
  cases due with
  | none => exact guides_pure (.inl rfl)
  | some store =>
    apply (guides_switchStore store).bind
    rintro result h' (rfl | ⟨rfl, transition, rfl⟩)
    . cases result with
      | error e => exact guides_pure (.inl rfl)
      | ok transition => exact guides_pure (.inl rfl)
    . exact guides_pure (.inr ⟨rfl, some transition, rfl⟩)

theorem guides_beginActive
    : Guides home call .outside [] beginActive fun id h' => h' = .begun id := by
  unfold beginActive
  apply (guides_perform untimed (show Holding.outside.Permits home (.enterGate false) from rfl)).bind
  rintro _ _ rfl
  apply (guides_begin untimed (show Holding.entered.Permits home (.begin .active) from rfl)).imp
  rintro id _ ⟨rfl, -⟩
  rfl

end Script

theorem TransactionView.perform_closed {view : TransactionView} (h : view.closed = true) (operation : Operation)
    : view.perform operation = .error .transactionClosed := by
  have hopen : view.ensureOpen = .error .transactionClosed := if_pos h
  have hwritable : view.ensureWritable = .error .transactionClosed := by
    unfold ensureWritable
    rw [hopen]
    rfl
  cases operation <;> unfold perform <;> first | rw [hopen]; rfl | rw [hwritable]; rfl

namespace Script

variable {home : Handle} {call : FallbackCall} {id : TransactionId} {closed : Bool}

theorem guides_operate (operation : Operation)
    : Guides home call (.within id closed) [] (FallbackCall.operate id operation).script fun answer h' =>
        (∃ closed, h' = .within id closed) ∧ ∃ result, answer = .done result := by
  have hhas : (Holding.within id closed).Has id := rfl
  apply (guides_view untimed hhas).bind
  rintro view _ ⟨rfl, hshows⟩
  dsimp only
  have hset : ∀ view', (closed = true → view'.closed = true) → ∀ result : Except Error Answer,
      Guides home call (.within id closed) [] (do
        perform (.setView id view')
        return FallbackAnswer.done result) fun answer h' =>
          (∃ closed, h' = .within id closed) ∧ ∃ result, answer = .done result := by
    intro view' hview' result
    apply (guides_perform untimed (show (Holding.within id closed).Permits home (.setView id view') from
      ⟨rfl, hview'⟩)).bind
    rintro _ _ rfl
    exact guides_pure ⟨⟨view'.closed, rfl⟩, result, rfl⟩
  cases hperform : view.perform operation with
  | error e => exact hset view hshows _
  | ok done =>
    obtain ⟨answer, view'⟩ := done
    refine hset view' ?_ _
    intro hclosed
    rw [view.perform_closed (hshows hclosed)] at hperform
    cases hperform

theorem permits_release : (Holding.within id true).Permits home (.release id) := by
  refine ⟨rfl, ?_⟩
  rintro _ ⟨⟩
  rfl

theorem guides_commitCall
    : Guides home call (.within id closed) [] (FallbackCall.commit id).script fun answer h' =>
        h' = .released id ∧ ∃ result, answer = .committed result := by
  have hhas : (Holding.within id closed).Has id := rfl
  apply (guides_commit untimed untimed rfl hhas permits_release (.inl trivial)).bind
  rintro result _ rfl
  exact guides_pure ⟨rfl, result, rfl⟩

theorem guides_rollbackCall
    : Guides home call (.within id closed) [] (FallbackCall.rollback id).script fun answer h' =>
        h' = .released id ∧ answer = .closed := by
  have hhas : (Holding.within id closed).Has id := rfl
  apply (guides_view untimed hhas).bind
  rintro view _ ⟨rfl, -⟩
  apply (guides_perform untimed (show (Holding.within id closed).Permits home (.setView id view.close) from
    ⟨rfl, fun _ => rfl⟩)).bind
  rintro _ _ rfl
  apply (guides_perform untimed permits_release).bind
  rintro _ _ rfl
  exact guides_pure ⟨rfl, rfl⟩

theorem guides_dropCall
    : Guides home call (.within id closed) [] (FallbackCall.drop id).script fun answer h' =>
        h' = .dropped id ∧ answer = .closed := by
  apply (guides_perform untimed (show (Holding.within id closed).Permits home (.drop id) from rfl)).bind
  rintro _ _ rfl
  exact guides_pure ⟨rfl, rfl⟩

end Script

namespace FallbackCall

open Script

variable {home : Handle}

theorem obeys (call : FallbackCall) {h : Holding} (hbegins : call.Begins h)
    : call.script.toProcess.Obeys home call h [] := by
  have hends : ∀ {Q : FallbackAnswer → Holding → Prop}, Guides home call h [] call.script Q →
      (∀ answer h', Q answer h' → call.Finishes h' answer) → call.script.toProcess.Obeys home call h [] :=
    fun hguides hfinishes => hguides _ hfinishes
  cases call with
  | begin =>
    cases hbegins
    apply hends (Q := fun answer h' => ∃ id, answer = .begun id ∧ h' = .begun id)
    . apply guides_beginActive.bind
      rintro id _ rfl
      exact guides_pure ⟨id, rfl, rfl⟩
    . rintro _ _ ⟨id, rfl, rfl⟩
      rfl
  | operate id operation =>
    obtain ⟨closed, rfl⟩ := hbegins
    apply hends (guides_operate operation)
    rintro _ _ ⟨⟨closed, rfl⟩, result, rfl⟩
    trivial
  | commit id =>
    obtain ⟨closed, rfl⟩ := hbegins
    apply hends guides_commitCall
    rintro _ _ ⟨rfl, result, rfl⟩
    rfl
  | rollback id =>
    obtain ⟨closed, rfl⟩ := hbegins
    apply hends guides_rollbackCall
    rintro _ _ ⟨rfl, rfl⟩
    rfl
  | drop id =>
    obtain ⟨closed, rfl⟩ := hbegins
    apply hends guides_dropCall
    rintro _ _ ⟨rfl, rfl⟩
    rfl
  | switch target =>
    cases hbegins
    apply hends (Q := fun answer h' => ∃ result, answer = .switched result ∧
      (h' = .outside ∨ h' = .finished ∧ ∃ transition, result = .ok transition))
    . apply (guides_switchStore target).bind
      intro result h' hresult
      exact guides_pure ⟨result, rfl, hresult⟩
    . rintro _ _ ⟨result, rfl, hresult⟩
      exact hresult
  | check =>
    cases hbegins
    apply hends (Q := fun answer h' => ∃ result, answer = .checked result ∧
      (h' = .outside ∨ h' = .finished ∧ ∃ transition, result = .ok transition))
    . apply guides_checkCluster.bind
      intro result h' hresult
      exact guides_pure ⟨result, rfl, hresult⟩
    . rintro _ _ ⟨result, rfl, hresult⟩
      exact hresult

end FallbackCall

end ReplicatedStore
