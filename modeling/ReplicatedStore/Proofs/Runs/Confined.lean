import ReplicatedStore.Proofs.Runs.Calls

/-!
Scripts by the effects that they are put together from. Whatever the replies are, a script has no other
effects.
-/

namespace ReplicatedStore

def Effect.isNodal : Effect → Bool
  | .begin _ | .view _ | .setView .. | .planCommit _ | .release _ | .drop _ | .enterGate _ | .leaveGate _
  | .coordinator | .coordinated | .observe _ | .activate .. => false
  | _ => true

namespace Script

open Process

variable {ρ : Type} {p q : Effect → Prop}

inductive Confined (p : Effect → Prop) : {α : Type} → Script ρ α → Prop where
  | pure {α : Type} {a : α} : Confined p (Pure.pure a : Script ρ α)
  | bind {α β : Type} {script : Script ρ α} {f : α → Script ρ β} (hs : Confined p script)
      (hf : ∀ a, Confined p (f a)) : Confined p (script >>= f)
  | perform {effect : Effect} (heffect : p effect) : Confined p (Script.perform effect)
  | within {α : Type} {millis : Nat} {script : Script ρ α} (hs : Confined p script) :
      Confined p (Script.within millis script)
  | round {needed : Nat} {members : List (Script ρ Bool)} (hmembers : ∀ member ∈ members, Confined p member) :
      Confined p (Script.round needed members)

variable {α : Type} {script : Script ρ α}

theorem Confined.imp (hs : Confined p script) (hpq : ∀ effect, p effect → q effect)
    : Confined q script := by
  induction hs with
  | pure => exact .pure
  | bind _ _ ihs ihf => exact ihs.bind ihf
  | perform heffect => exact .perform (hpq _ heffect)
  | within _ ih => exact ih.within
  | round _ ih => exact .round ih

theorem Confined.ends (hs : Confined p script) {timers : List (Unit → Process ρ)} {next : α → Process ρ}
    {exchanges : List Exchange} {result : ρ} (hends : Ends timers (script next) exchanges result)
    : ∃ before after, exchanges = before ++ after ∧ (∀ x ∈ before, p x.effect) ∧
        ((∃ a, Ends timers (next a) after result) ∨
          ∃ inner late outer, timers = inner ++ late :: outer ∧ Ends outer (late ()) after result) := by
  induction hs generalizing timers exchanges with
  | @pure _ a => exact ⟨[], exchanges, rfl, List.forall_mem_nil _, .inl ⟨a, hends⟩⟩
  | bind _ _ ihs ihf =>
    obtain ⟨before, after, rfl, hbefore, ⟨a, hends⟩ | hlate⟩ := ihs hends
    . obtain ⟨between, after, rfl, hbetween, hrest⟩ := ihf a hends
      refine ⟨before ++ between, after, (List.append_assoc ..).symm, ?_, hrest⟩
      exact List.forall_mem_append.2 ⟨hbefore, hbetween⟩
    . exact ⟨before, after, rfl, hbefore, .inr hlate⟩
  | perform heffect =>
    cases hends with
    | step reply hends => exact ⟨[_], _, rfl, List.forall_mem_singleton.2 heffect, .inl ⟨reply, hends⟩⟩
    | late _ htimers hends => exact ⟨[], _, rfl, List.forall_mem_nil _, .inr ⟨_, _, _, htimers, hends⟩⟩
  | within _ ih =>
    cases hends with
    | late hwaits => cases hwaits
    | setTimer hends =>
      obtain ⟨before, after, rfl, hbefore, ⟨a, hends⟩ | ⟨inner, late, outer, htimers, hlate⟩⟩ := ih hends
      . cases hends with
        | clearTimer hends => exact ⟨before, after, rfl, hbefore, .inl ⟨some a, hends⟩⟩
        | late hwaits => cases hwaits
      . -- either its own timer ran out or one that was set before
        cases inner with
        | nil =>
          cases htimers
          exact ⟨before, after, rfl, hbefore, .inl ⟨none, hlate⟩⟩
        | cons timer inner =>
          cases htimers
          exact ⟨before, after, rfl, hbefore, .inr ⟨inner, late, outer, rfl, hlate⟩⟩
  | round =>
    cases hends with
    | round reached hends => exact ⟨[], _, rfl, List.forall_mem_nil _, .inl ⟨reached, hends⟩⟩
    | late _ htimers hends => exact ⟨[], _, rfl, List.forall_mem_nil _, .inr ⟨_, _, _, htimers, hends⟩⟩

theorem Confined.yields (hs : Confined p script)
    : Yields script fun exchanges _ => ∀ x ∈ exchanges, p x.effect := by
  intro next exchanges result hends
  obtain ⟨before, after, rfl, hbefore, ⟨a, hends⟩ | ⟨inner, late, outer, htimers, -⟩⟩ := hs.ends hends
  . exact ⟨a, before, after, rfl, hbefore, hends⟩
  . cases inner <;> cases htimers

abbrev Nodal (script : Script ρ α) : Prop :=
  Confined (·.isNodal = true) script

theorem nodal_call (source : Handle) (target : NodeId) (request : Request)
    : Nodal (Script.call (ρ := ρ) source target request) := by
  have hpass : ∀ result : Except Error Response, Nodal (ρ := ρ) (do
      perform .passTurn
      return result) :=
    fun _ => .bind (.perform rfl) fun _ => .pure
  unfold Script.call
  refine .bind (.perform rfl) fun _ => .bind (.perform rfl) fun dispatch => ?_
  cases dispatch with
  | refused e => exact hpass _
  | lost => exact .bind (.perform rfl) fun _ => hpass _
  | answered delay response =>
    cases delay with
    | none => exact hpass _
    | some millis => exact .bind (.perform rfl) fun _ => hpass _
  | reaches receiver =>
    refine .bind (.perform rfl) fun _ => .bind (.perform rfl) fun result => ?_
    cases result with
    | error e => exact hpass _
    | ok response =>
      refine .bind (.perform rfl) fun found => ?_
      cases found with
      | error e => exact hpass _
      | ok _ => exact hpass _

theorem nodal_deliver (node : Handle) (peer : NodeId) (message : CatchUp)
    : Nodal (deliver (ρ := ρ) node peer message) := by
  unfold deliver
  refine .bind (.perform rfl) fun config => ?_
  cases message with
  | append request =>
    refine .bind (nodal_call node peer (.append request)).within fun answer => ?_
    rcases answer with _ | _ | response
    . exact .pure
    . exact .pure
    . cases response <;> first | exact .perform rfl | exact .pure
  | snapshot request =>
    refine .bind (nodal_call node peer (.snapshot request)).within fun answer => ?_
    rcases answer with _ | _ | response
    . exact .pure
    . exact .pure
    . cases response <;> first | exact .perform rfl | exact .pure

theorem nodal_confirmMajority (node : Handle)
    : Nodal (confirmMajority (ρ := ρ) node) := by
  unfold confirmMajority
  refine .bind (.perform rfl) fun opened => ?_
  cases opened with
  | error e => exact .pure
  | ok opened =>
    obtain ⟨needed, messages⟩ := opened
    dsimp only
    split
    . exact .pure
    . refine .bind (.round ?_) fun reached => ?_
      . intro member hmember
        obtain ⟨⟨peer, message⟩, -, rfl⟩ := List.mem_map.1 hmember
        exact nodal_deliver node peer message
      . split
        . exact .pure
        . exact .pure

theorem nodal_canReachMajority (node : Handle) (millis : Nat)
    : Nodal (canReachMajority (ρ := ρ) node millis) := by
  unfold canReachMajority
  refine .bind (.perform rfl) fun standing => ?_
  split
  . exact .pure
  . split
    . exact .pure
    . refine .bind (nodal_confirmMajority node).within fun confirmed => ?_
      split
      . exact .pure
      . exact .pure

theorem nodal_submit (node : Handle) (proposal : Proposal)
    : Nodal (submit (ρ := ρ) node proposal) := by
  unfold submit
  refine .bind (.perform rfl) fun accepted => ?_
  cases accepted with
  | error e => exact .pure
  | ok accepted =>
    cases accepted with
    | readOnly =>
      refine .bind (nodal_confirmMajority node) fun confirmed => ?_
      cases confirmed with
      | error e => exact .pure
      | ok _ => exact .pure
    | appended term index ticket =>
      refine .bind (.perform rfl) fun _ => .bind (.perform rfl) fun config => ?_
      refine .bind (.within (.perform rfl)) fun outcome => ?_
      split
      . exact .pure
      . exact .pure
      . exact .pure

theorem nodal_commitForwarded (node : Handle) (request : CommitRequest)
    : Nodal (commitForwarded (ρ := ρ) node request) := by
  unfold commitForwarded
  split
  . exact .pure
  . exact .bind (nodal_submit node _) fun _ => .pure

theorem nodal_handOn (source : Handle) (target : NodeId) (request : CommitRequest)
    : Nodal (handOn (ρ := ρ) source target request) := by
  unfold handOn
  refine .bind (.perform rfl) fun dispatch => ?_
  cases dispatch with
  | refused e => exact .pure
  | lost => exact .bind (.perform rfl) fun _ => .pure
  | answered delay response =>
    cases delay with
    | none =>
      dsimp only
      split
      . exact .pure
      . exact .pure
    | some millis =>
      refine .bind (.perform rfl) fun _ => ?_
      split
      . exact .pure
      . exact .pure
  | reaches receiver =>
    refine .bind (nodal_commitForwarded receiver request) fun outcome => .bind (.perform rfl) fun found => ?_
    cases found with
    | error e => exact .pure
    | ok _ => exact .pure

theorem nodal_waitForIndex (node : Handle) (index millis : Nat)
    : Nodal (waitForIndex (ρ := ρ) node index millis) := by
  unfold waitForIndex
  refine .bind (.within (.perform rfl)) fun applied => ?_
  split
  . exact .pure
  . exact .pure

theorem nodal_forward (node : Handle) (leader : NodeId) (proposal : Proposal)
    : Nodal (forward (ρ := ρ) node leader proposal) := by
  unfold forward
  refine .bind (nodal_handOn node leader _) fun answer => ?_
  cases answer with
  | error e =>
    dsimp only
    split
    . exact .pure
    . exact .pure
  | ok outcome =>
    dsimp only
    cases outcome.toResult with
    | error e => exact .pure
    | ok point =>
      dsimp only
      split
      . exact .pure
      . exact .bind (.perform rfl) fun config => nodal_waitForIndex node _ _

end Script

end ReplicatedStore
