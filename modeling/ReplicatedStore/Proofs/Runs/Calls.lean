import ReplicatedStore.Cluster.Protocol
import ReplicatedStore.Proofs.Consensus.Outcomes

/-!
What a commit asks of nodes and what it makes of their replies: if it fails for certain, the node that
took the proposal said so.
-/

namespace ReplicatedStore

structure Exchange where
  effect : Effect
  reply : effect.Reply

namespace Process

variable {ρ : Type}

def waits : Process ρ → Bool
  | .step .. => true
  | .join .. => true
  | .round .. => true
  | _ => false

inductive Ends : List (Unit → Process ρ) → Process ρ → List Exchange → ρ → Prop where
  | answer {timers result} : Ends timers (.answer result) [] result
  | step {timers effect next exchanges result} (reply : effect.Reply)
      (h : Ends timers (next reply) exchanges result) :
      Ends timers (.step effect next) (⟨effect, reply⟩ :: exchanges) result
  | join {timers job next exchanges result} (reply : ρ)
      (h : Ends timers (next reply) exchanges result) : Ends timers (.join job next) exchanges result
  | round {timers needed members next exchanges result} (reached : Bool)
      (h : Ends timers (next reached) exchanges result) :
      Ends timers (.round needed members next) exchanges result
  | setTimer {timers millis late next exchanges result}
      (h : Ends (late :: timers) (next ()) exchanges result) :
      Ends timers (.setTimer millis late next) exchanges result
  | clearTimer {late timers next exchanges result} (h : Ends timers (next ()) exchanges result) :
      Ends (late :: timers) (.clearTimer next) exchanges result
  | late {timers inner late outer process exchanges result} (hwaits : waits process = true)
      (htimers : timers = inner ++ late :: outer) (h : Ends outer (late ()) exchanges result) :
      Ends timers process exchanges result

end Process

namespace Script

open Process

variable {ρ α β : Type} {exchanges : List Exchange} {script : Script ρ α}
  {P Q : List Exchange → α → Prop}

def Yields (script : Script ρ α) (P : List Exchange → α → Prop) : Prop :=
  ∀ next exchanges result, Ends [] (script next) exchanges result →
    ∃ a before after, exchanges = before ++ after ∧ P before a ∧ Ends [] (next a) after result

theorem Yields.pure {a : α} (h : P [] a) : Yields (ρ := ρ) (pure a) P := by
  intro next exchanges result hends
  exact ⟨a, [], exchanges, rfl, h, hends⟩

theorem Yields.bind {f : α → Script ρ β} {Q : List Exchange → β → Prop} (h : Yields script P)
    (hf : ∀ a before, P before a → Yields (f a) fun after b => Q (before ++ after) b)
    : Yields (script >>= f) Q := by
  intro next exchanges result hends
  obtain ⟨a, before, after, rfl, ha, hends⟩ := h _ _ _ hends
  obtain ⟨b, between, after, rfl, hb, hends⟩ := hf a before ha _ _ _ hends
  exact ⟨b, before ++ between, after, by simp, hb, hends⟩

theorem Yields.imp (h : Yields script P) (hPQ : ∀ exchanges a, P exchanges a → Q exchanges a)
    : Yields script Q := by
  intro next exchanges result hends
  obtain ⟨a, before, after, hsplit, ha, hends⟩ := h _ _ _ hends
  exact ⟨a, before, after, hsplit, hPQ _ _ ha, hends⟩

theorem yields_perform (effect : Effect)
    : Yields (ρ := ρ) (perform effect) fun exchanges reply => exchanges = [⟨effect, reply⟩] := by
  intro next exchanges result hends
  cases hends with
  | step reply hends => exact ⟨reply, _, _, rfl, rfl, hends⟩
  | late hwaits htimers => simp at htimers

theorem yields_round (needed : Nat) (members : List (Script ρ Bool))
    : Yields (round needed members) fun exchanges _ => exchanges = [] := by
  intro next exchanges result hends
  cases hends with
  | round reached hends => exact ⟨reached, [], exchanges, rfl, rfl, hends⟩
  | late hwaits htimers => simp at htimers

theorem yields_within (millis : Nat) (effect : Effect)
    : Yields (ρ := ρ) (within millis (perform effect)) fun exchanges reply? =>
        match reply? with
        | some reply => exchanges = [⟨effect, reply⟩]
        | none => exchanges = [] := by
  intro next exchanges result hends
  cases hends with
  | late hwaits => cases hwaits
  | setTimer hends =>
    cases hends with
    | step reply hends =>
      cases hends with
      | clearTimer hends => exact ⟨some reply, _, _, rfl, rfl, hends⟩
      | late hwaits => cases hwaits
    | @late _ inner _ _ _ _ _ _ htimers hends =>
      cases inner with
      | nil =>
        cases htimers
        exact ⟨none, [], _, rfl, rfl, hends⟩
      | cons timer inner => simp at htimers

theorem Yields.toProcess {script : Script α α} (h : Yields script P) {a : α}
    (hends : Ends [] script.toProcess exchanges a)
    : P exchanges a := by
  obtain ⟨b, before, after, rfl, hb, hends⟩ := h _ _ _ hends
  cases hends with
  | answer =>
    rw [List.append_nil]
    exact hb
  | late hwaits => cases hwaits

def Proposes (p : Proposal → Prop) (exchanges : List Exchange) : Prop :=
  ∀ node proposal reply, ⟨.propose node proposal, reply⟩ ∈ exchanges → p proposal

abbrev Quiet (exchanges : List Exchange) : Prop :=
  Proposes (fun _ => False) exchanges

variable {p : Proposal → Prop} {before after : List Exchange}

theorem Proposes.imp {q : Proposal → Prop} (h : Proposes p exchanges)
    (hpq : ∀ proposal, p proposal → q proposal)
    : Proposes q exchanges := by
  intro node proposal reply hx
  exact hpq _ (h _ _ _ hx)

theorem Proposes.append (h : Proposes p before) (h' : Proposes p after)
    : Proposes p (before ++ after) := by
  intro node proposal reply hx
  rcases List.mem_append.1 hx with hx | hx
  . exact h _ _ _ hx
  . exact h' _ _ _ hx

theorem quiet_nil : Quiet [] := by
  intro node proposal reply hx
  cases hx

theorem quiet_single {effect : Effect} {reply : effect.Reply}
    (h : ∀ node proposal, effect ≠ .propose node proposal)
    : Quiet [⟨effect, reply⟩] := by
  intro node proposal reply' hx
  cases List.mem_singleton.1 hx
  exact h _ _ rfl

theorem Proposes.of_quiet (h : Quiet exchanges) : Proposes p exchanges :=
  h.imp fun _ hfalse => hfalse.elim

def Candid (exchanges : List Exchange) (result : Except Error α) : Prop :=
  Definite result → ∀ node proposal term index ticket, proposal.writes.isEmpty = false →
    ⟨.propose node proposal, .ok (.appended term index ticket)⟩ ∈ exchanges →
    ∃ e, Definite (.error e : Except Error Unit) ∧ ⟨.settlement node ticket, .error e⟩ ∈ exchanges

variable {result : Except Error α} {result' : Except Error β}

theorem definite_error {e : Error} (h : Definite (.error e : Except Error α))
    : Definite (.error e : Except Error β) := by
  cases e <;> exact h

theorem Candid.of_quiet (h : Quiet exchanges) : Candid exchanges result := by
  intro _ node proposal term index ticket _ hx
  exact (h _ _ _ hx).elim

theorem Candid.of_indefinite (h : ¬ Definite result) : Candid exchanges result := by
  intro hdefinite
  exact absurd hdefinite h

theorem Candid.of_isEmpty (h : Proposes (·.writes.isEmpty = true) exchanges)
    : Candid exchanges result := by
  intro _ node proposal term index ticket hwrites hx
  rw [h _ _ _ hx] at hwrites
  cases hwrites

theorem Candid.surround (h : Candid exchanges result) (hbefore : Quiet before) (hafter : Quiet after)
    (hresult : Definite result' → Definite result)
    : Candid (before ++ (exchanges ++ after)) result' := by
  intro hdefinite node proposal term index ticket hwrites hx
  rcases List.mem_append.1 hx with hx | hx
  . exact (hbefore _ _ _ hx).elim
  . rcases List.mem_append.1 hx with hx | hx
    . obtain ⟨e, he, hsettled⟩ := h (hresult hdefinite) _ _ _ _ _ hwrites hx
      exact ⟨e, he, List.mem_append_right _ (List.mem_append_left _ hsettled)⟩
    . exact (hafter _ _ _ hx).elim

theorem yields_confirmMajority (node : Handle)
    : Yields (ρ := ρ) (confirmMajority node) fun exchanges _ => Quiet exchanges := by
  unfold confirmMajority
  apply (yields_perform _).bind
  rintro reply _ rfl
  have hquiet : Quiet [⟨.openRound node, reply⟩] := quiet_single (by simp)
  cases reply with
  | error e => exact .pure hquiet
  | ok opened =>
    obtain ⟨needed, messages⟩ := opened
    dsimp only
    split
    . exact .pure hquiet
    . apply (yields_round _ _).bind
      rintro reached _ rfl
      split
      . exact .pure hquiet
      . exact .pure hquiet

theorem Candid.of_propose {node : Handle} {proposal : Proposal} {reply : Except Error Accepted}
    (hquiet : Quiet exchanges)
    (h : ∀ term index ticket, reply = .ok (.appended term index ticket) → Definite result →
      ∃ e, Definite (.error e : Except Error Unit) ∧ ⟨.settlement node ticket, .error e⟩ ∈ exchanges)
    : Proposes (· = proposal) (⟨.propose node proposal, reply⟩ :: exchanges) ∧
        Candid (⟨.propose node proposal, reply⟩ :: exchanges) result := by
  constructor
  . intro node' proposal' reply' hx
    rcases List.mem_cons.1 hx with hx | hx
    . cases hx
      rfl
    . exact (hquiet _ _ _ hx).elim
  . intro hdefinite node' proposal' term index ticket _ hx
    rcases List.mem_cons.1 hx with hx | hx
    . cases hx
      obtain ⟨e, he, hsettled⟩ := h term index ticket rfl hdefinite
      exact ⟨e, he, List.mem_cons_of_mem _ hsettled⟩
    . exact (hquiet _ _ _ hx).elim

theorem yields_submit (node : Handle) (proposal : Proposal)
    : Yields (ρ := ρ) (submit node proposal) fun exchanges result =>
        Proposes (· = proposal) exchanges ∧ Candid exchanges result := by
  unfold submit
  apply (yields_perform _).bind
  rintro reply _ rfl
  cases reply with
  | error e =>
    apply Yields.pure
    exact Candid.of_propose quiet_nil (by simp)
  | ok accepted =>
    cases accepted with
    | readOnly =>
      apply (yields_confirmMajority node).bind
      intro confirmed exchanges hquiet
      cases confirmed with
      | error e =>
        apply Yields.pure
        rw [List.append_nil]
        exact Candid.of_propose hquiet (by simp)
      | ok _ =>
        apply Yields.pure
        rw [List.append_nil]
        exact Candid.of_propose hquiet (by simp)
    | appended term index ticket =>
      apply (yields_perform _).bind
      rintro reply₁ _ rfl
      apply (yields_perform _).bind
      rintro config _ rfl
      have hquiet : Quiet [⟨.broadcast node, reply₁⟩, ⟨.config node, config⟩] := by
        intro _ _ _ hx
        simp at hx
      apply (yields_within _ _).bind
      intro reply? exchanges hreply
      cases reply? with
      | none =>
        -- the client gave up, and does not pretend to know
        cases hreply
        apply Yields.pure
        apply Candid.of_propose hquiet
        intro _ _ _ _ hdefinite
        exact absurd hdefinite id
      | some outcome =>
        cases hreply
        have hquiet' : Quiet [⟨.broadcast node, reply₁⟩, ⟨.config node, config⟩,
            ⟨.settlement node ticket, outcome⟩] := by
          intro _ _ _ hx
          simp at hx
        cases outcome with
        | ok _ =>
          apply Yields.pure
          apply Candid.of_propose hquiet'
          intro _ _ _ _ hdefinite
          exact absurd hdefinite id
        | error e =>
          apply Yields.pure
          apply Candid.of_propose hquiet'
          intro term' index' ticket' happended hdefinite
          cases happended
          exact ⟨e, definite_error hdefinite, by simp⟩

theorem definite_ofResult {result : Except Error (Nat × Nat)}
    (h : Definite (CommitOutcome.ofResult result).toResult)
    : Definite result := by
  cases result with
  | ok _ => exact h
  | error e => cases e <;> exact h

theorem yields_commitForwarded (node : Handle) (request : CommitRequest)
    : Yields (ρ := ρ) (commitForwarded node request) fun exchanges outcome =>
        Proposes (Proposal.ofRequest request = .ok ·) exchanges ∧
          Candid exchanges outcome.toResult := by
  unfold commitForwarded
  cases hproposal : Proposal.ofRequest request with
  | error e =>
    apply Yields.pure
    exact ⟨.of_quiet quiet_nil, .of_quiet quiet_nil⟩
  | ok proposal =>
    apply (yields_submit node proposal).bind
    rintro result exchanges ⟨hown, hcandid⟩
    apply Yields.pure
    rw [List.append_nil]
    constructor
    . refine hown.imp ?_
      rintro _ rfl
      rfl
    . intro hdefinite
      exact hcandid (definite_ofResult hdefinite)

structure HandsOn (request : CommitRequest) (exchanges : List Exchange)
    (answer : Except Error CommitOutcome) : Prop where
  own : Proposes (Proposal.ofRequest request = .ok ·) exchanges
  candid : ∀ outcome, answer = .ok outcome → Candid exchanges outcome.toResult

theorem HandsOn.of_quiet {request : CommitRequest} {answer : Except Error CommitOutcome}
    (h : Quiet exchanges)
    : HandsOn request exchanges answer where
  own := .of_quiet h
  candid _ _ := .of_quiet h

theorem yields_handOn (source : Handle) (target : NodeId) (request : CommitRequest)
    : Yields (ρ := ρ) (handOn source target request) (HandsOn request) := by
  unfold handOn
  apply (yields_perform _).bind
  rintro dispatch _ rfl
  have hquiet : Quiet [⟨.dispatch source target (.commit request), dispatch⟩] :=
    quiet_single (by simp)
  cases dispatch with
  | refused e => exact .pure (.of_quiet hquiet)
  | lost =>
    apply (yields_perform _).bind
    rintro _ _ rfl
    apply Yields.pure
    exact .of_quiet (hquiet.append (quiet_single (by simp)))
  | answered delay response =>
    cases delay with
    | none =>
      dsimp only
      split
      . exact .pure (.of_quiet hquiet)
      . exact .pure (.of_quiet hquiet)
    | some millis =>
      apply (yields_perform _).bind
      rintro reply _ rfl
      have hquiet' : Quiet [⟨.sleep millis, reply⟩] := quiet_single (by simp)
      split
      . exact .pure (.of_quiet (hquiet.append hquiet'))
      . exact .pure (.of_quiet (hquiet.append hquiet'))
  | reaches receiver =>
    apply (yields_commitForwarded receiver request).bind
    rintro outcome exchanges ⟨hown, hcandid⟩
    apply (yields_perform _).bind
    rintro reply _ rfl
    have hquiet' : Quiet [⟨.reply source target, reply⟩] := quiet_single (by simp)
    have hown' := (Proposes.of_quiet hquiet).append (hown.append (.of_quiet hquiet'))
    cases reply with
    | error e => exact .pure ⟨hown', fun _ h => nomatch h⟩
    | ok _ =>
      apply Yields.pure
      refine ⟨hown', ?_⟩
      intro outcome' heq
      cases heq
      exact hcandid.surround hquiet hquiet' id

theorem yields_waitForIndex (node : Handle) (index millis : Nat)
    : Yields (ρ := ρ) (waitForIndex node index millis) fun exchanges result =>
        Quiet exchanges ∧ ¬ Definite result := by
  unfold waitForIndex
  apply (yields_within _ _).bind
  intro reply? exchanges hreply
  cases reply? with
  | none =>
    cases hreply
    exact .pure ⟨quiet_nil, id⟩
  | some reply =>
    cases hreply
    exact .pure ⟨quiet_single (by simp), id⟩

theorem ofRequest_toRequest_isEmpty {proposal proposal' : Proposal}
    (h : Proposal.ofRequest proposal.toRequest = .ok proposal')
    (hempty : proposal.writes.isEmpty = true)
    : proposal'.writes.isEmpty = true := by
  unfold Proposal.ofRequest Proposal.toRequest at h
  rw [if_pos hempty] at h
  cases h
  rfl

theorem yields_forward (node : Handle) (leader : NodeId) (proposal : Proposal)
    : Yields (ρ := ρ) (forward node leader proposal) Candid := by
  unfold forward
  apply (yields_handOn node leader proposal.toRequest).bind
  intro answer exchanges hanswer
  cases answer with
  | error e =>
    dsimp only
    split
    . next hempty =>
      apply Yields.pure
      rw [List.append_nil]
      apply Candid.of_isEmpty
      refine hanswer.own.imp ?_
      intro proposal' hproposal
      exact ofRequest_toRequest_isEmpty hproposal hempty
    . exact .pure (.of_indefinite id)
  | ok outcome =>
    have hcandid := hanswer.candid outcome rfl
    dsimp only
    cases hresult : outcome.toResult with
    | error e =>
      apply Yields.pure
      rw [hresult] at hcandid
      exact hcandid.surround quiet_nil quiet_nil definite_error
    | ok point =>
      dsimp only
      split
      . exact .pure (.of_indefinite id)
      . apply (yields_perform _).bind
        rintro config _ rfl
        apply (yields_waitForIndex _ _ _).imp
        intro _ _ h
        exact .of_indefinite h.2

theorem yields_release (transaction : TransactionId) {result : Except Error Unit}
    (hbefore : Quiet before) (h : Candid exchanges result)
    : Yields (ρ := ρ) (do
        perform (.release transaction)
        return result) fun after result => Candid (before ++ (exchanges ++ after)) result := by
  apply (yields_perform _).bind
  rintro reply _ rfl
  apply Yields.pure
  exact h.surround hbefore (quiet_single (by simp)) id

theorem yields_commit (transaction : TransactionId)
    : Yields (ρ := ρ) (commit transaction) Candid := by
  unfold commit
  apply (yields_perform _).bind
  rintro plan _ rfl
  have hplan : Quiet [⟨.planCommit transaction, plan⟩] := quiet_single (by simp)
  cases plan with
  | settled result => exact yields_release transaction hplan (.of_quiet quiet_nil)
  | lead node proposal =>
    apply (yields_submit node proposal).bind
    rintro result exchanges ⟨-, hcandid⟩
    cases result with
    | error e =>
      have hcandid' : Candid exchanges (.error e : Except Error Unit) := by
        intro hdefinite
        exact hcandid (definite_error hdefinite)
      exact yields_release transaction hplan hcandid'
    | ok _ =>
      have hcandid' : Candid exchanges (.ok () : Except Error Unit) := .of_indefinite id
      exact yields_release transaction hplan hcandid'
  | forward node leader proposal =>
    apply (yields_forward node leader proposal).bind
    intro result exchanges hcandid
    exact yields_release transaction hplan hcandid

end Script

end ReplicatedStore
