import ReplicatedStore.Proofs.Runs.Activities

/-!
Commits that succeed in a run: which steps of which members stand behind the success.
-/

namespace ReplicatedStore

namespace Script

open Process

variable {K : Cluster} {events : List Event} {scene : Scene} {ρ : Type} {j k m : Nat}
  {before after deeds : List Deed}

def Handled (K : Cluster) (events : List Event) (scene : Scene) (j : Nat) (target : NodeId)
    (request : Request) (response : Response) : Prop :=
  ∃ receiver b d, (scene.nodes receiver).member = target ∧ j ≤ b ∧
    Happens K events scene b d (.handle receiver request) (.ok response)

inductive Confirmed (K : Cluster) (events : List Event) (scene : Scene) (j : Nat) (node : Handle)
    (peer : NodeId) : CatchUp → Prop where
  | append {q r b d} (hhandled : Handled K events scene j peer (.append q) (.append r))
      (htake : Happens K events scene b d
        (.takeAppend node peer q.term (!q.entries.isEmpty) r) true) :
      Confirmed K events scene j node peer (.append q)
  | snapshot {q r b d} (hhandled : Handled K events scene j peer (.snapshot q) (.snapshot r))
      (htake : Happens K events scene b d (.takeSnapshot node peer q.term q.index r) true) :
      Confirmed K events scene j node peer (.snapshot q)

def MajorityConfirmed (K : Cluster) (events : List Event) (scene : Scene) (j : Nat) (node : Handle)
    (deeds : List Deed) : Prop :=
  ∃ b d needed messages, j ≤ b ∧ ⟨b, d, .openRound node, .ok (needed, messages)⟩ ∈ deeds ∧
    Happens K events scene b d (.openRound node) (.ok (needed, messages)) ∧
    ∃ confirmed : List (NodeId × CatchUp), confirmed.Sublist messages ∧ needed ≤ confirmed.length ∧
      ∀ message ∈ confirmed, Confirmed K events scene d node message.1 message.2

theorem MajorityConfirmed.mono {node : Handle} (h : MajorityConfirmed K events scene j node deeds)
    (hsub : deeds ⊆ after)
    : MajorityConfirmed K events scene j node after := by
  obtain ⟨b, d, needed, messages, hb, hdeed, hconfirmed⟩ := h
  exact ⟨b, d, needed, messages, hb, hsub hdeed, hconfirmed⟩

def Silent (deeds : List Deed) : Prop :=
  ∀ deed ∈ deeds, ∀ node proposal, deed.effect ≠ .propose node proposal

theorem silent_nil : Silent [] := by
  intro deed hdeed
  cases hdeed

theorem Silent.append (h : Silent before) (h' : Silent after) : Silent (before ++ after) := by
  intro deed hdeed
  rcases List.mem_append.1 hdeed with hdeed | hdeed
  . exact h deed hdeed
  . exact h' deed hdeed

theorem Did.silent {effect : Effect} {reply : effect.Reply}
    (h : Did K events scene j effect m deeds reply)
    (heffect : ∀ node proposal, effect ≠ .propose node proposal)
    : Silent deeds := by
  obtain ⟨b, -, -, rfl⟩ := h
  intro deed hdeed
  rw [List.mem_singleton.1 hdeed]
  exact heffect

theorem gives_silent {effect : Effect} (heffect : ∀ node proposal, effect ≠ .propose node proposal)
    : Gives (ρ := ρ) K events scene j (perform effect) fun _ deeds _ => Silent deeds :=
  (gives_perform effect).imp fun _ _ _ _ hdid => hdid.silent heffect

theorem gives_passTurn {P : Except Error Response → Prop} {result : Except Error Response}
    (h : P result)
    : Gives (ρ := ρ) K events scene m
        (do
          perform .passTurn
          return result) fun _ _ result => P result := by
  apply (gives_perform _).bind
  rintro _ _ _ - -
  exact .pure h

theorem gives_call (source : Handle) (target : NodeId) (request : Request)
    : Gives (ρ := ρ) K events scene j (call source target request) fun _ _ result =>
        ∀ response, result = .ok response → Handled K events scene j target request response := by
  unfold call
  apply (gives_perform _).bind
  rintro _ m₁ _ hm₁ -
  apply (gives_perform _).bind
  rintro dispatch m₂ _ hm₂ ⟨b, -, hdispatch, -⟩
  cases dispatch with
  | refused e => exact gives_passTurn (by simp)
  | lost =>
    apply (gives_perform _).bind
    rintro _ _ _ - -
    exact gives_passTurn (by simp)
  | answered delay response => exact hdispatch.2.elim
  | reaches receiver =>
    apply (gives_perform _).bind
    rintro _ m₃ _ hm₃ -
    apply (gives_perform _).bind
    rintro reply m₄ _ - ⟨b', hb', hhandle, -⟩
    cases reply with
    | error e => exact gives_passTurn (by simp)
    | ok response =>
      apply (gives_perform _).bind
      rintro returned _ _ - -
      cases returned with
      | error e => exact gives_passTurn (by simp)
      | ok _ =>
        apply gives_passTurn
        rintro _ ⟨⟩
        exact ⟨receiver, b', m₄, hdispatch.2, by omega, hhandle⟩

theorem gives_deliver (node : Handle) (peer : NodeId) (message : CatchUp)
    : Gives (ρ := ρ) K events scene j (deliver node peer message) fun _ _ acked =>
        acked = true → Confirmed K events scene j node peer message := by
  have hfalse : ∀ {m}, Gives (ρ := ρ) K events scene m (pure false) fun _ _ acked =>
      acked = true → Confirmed K events scene j node peer message := by
    intro m
    apply Gives.pure
    rintro ⟨⟩
  unfold deliver
  apply (gives_perform _).bind
  rintro config m₁ _ hm₁ -
  cases message with
  | append q =>
    apply (gives_within _ (gives_call node peer (.append q))).bind
    intro reply? m₂ _ _ hreply
    rcases reply? with _ | (e | response)
    . exact hfalse
    . exact hfalse
    . cases response with
      | append r =>
        apply (gives_perform _).imp
        rintro m₃ _ acked _ ⟨b, _, htake, -⟩ hacked
        cases hacked
        obtain ⟨receiver, b', d', hmember, hb', hhandle⟩ := hreply _ rfl _ rfl
        exact .append ⟨receiver, b', d', hmember, Nat.le_trans hm₁ hb', hhandle⟩ htake
      | vote r => exact hfalse
      | snapshot r => exact hfalse
      | commit r => exact hfalse
  | snapshot q =>
    apply (gives_within _ (gives_call node peer (.snapshot q))).bind
    intro reply? m₂ _ _ hreply
    rcases reply? with _ | (e | response)
    . exact hfalse
    . exact hfalse
    . cases response with
      | snapshot r =>
        apply (gives_perform _).imp
        rintro m₃ _ acked _ ⟨b, _, htake, -⟩ hacked
        cases hacked
        obtain ⟨receiver, b', d', hmember, hb', hhandle⟩ := hreply _ rfl _ rfl
        exact .snapshot ⟨receiver, b', d', hmember, Nat.le_trans hm₁ hb', hhandle⟩ htake
      | vote r => exact hfalse
      | append r => exact hfalse
      | commit r => exact hfalse

theorem gives_confirmMajority (node : Handle)
    : Gives (ρ := ρ) K events scene j (confirmMajority node) fun _ deeds result =>
        Silent deeds ∧ (result = .ok () → MajorityConfirmed K events scene j node deeds) := by
  unfold confirmMajority
  apply (gives_perform _).bind
  rintro reply m₁ _ hm₁ ⟨b, hb, hopen, rfl⟩
  have hsilent : Silent [⟨b, m₁, .openRound node, reply⟩] := by
    intro deed hdeed
    rw [List.mem_singleton.1 hdeed]
    simp
  cases reply with
  | error e => exact .pure ⟨hsilent, by simp⟩
  | ok opened =>
    obtain ⟨needed, messages⟩ := opened
    dsimp only
    split
    -- a node that is a majority by itself needs no answer
    . next hnone =>
      apply Gives.pure
      refine ⟨hsilent, fun _ => ⟨b, m₁, needed, messages, hb, List.mem_cons_self, hopen, [],
        List.nil_sublist _, ?_, ?_⟩⟩
      . rw [hnone]
        exact Nat.zero_le _
      . simp
    . apply (gives_round _ _).bind
      rintro reached m₂ _ hm₂ ⟨rfl, hreached⟩
      split
      . next hyes =>
        apply Gives.pure
        refine ⟨hsilent, fun _ => ?_⟩
        obtain ⟨acked, own, hsub, hneeded, hacked⟩ := hreached hyes
        obtain ⟨confirmed, hconfirmed, rfl⟩ := List.sublist_map_iff.1 hsub
        rw [List.length_map] at hneeded
        refine ⟨b, m₁, needed, messages, hb, List.mem_cons_self, hopen, confirmed, hconfirmed,
          hneeded, ?_⟩
        intro message hmessage
        obtain ⟨_, _, hdelivered⟩ := (gives_deliver node message.1 message.2).acknowledged
          (hacked _ (List.mem_map_of_mem hmessage))
        exact hdelivered rfl
      . exact .pure ⟨hsilent, by simp⟩

inductive Submitted (K : Cluster) (events : List Event) (scene : Scene) (node : Handle)
    (proposal : Proposal) (j k : Nat) : List Deed → Nat × Nat → Prop where
  | wrote {b d e term index ticket rest} (hle : j ≤ b)
      (hpropose : Happens K events scene b d (.propose node proposal)
        (.ok (.appended term index ticket)))
      (hde : d ≤ e) (hek : e ≤ k)
      (hsettled : Happens K events scene e e (.settlement node ticket) (.ok ()))
      (hrest : Silent rest) :
      Submitted K events scene node proposal j k
        (⟨b, d, .propose node proposal, .ok (.appended term index ticket)⟩ :: rest) (term, index)
  | read {b d rest} (hle : j ≤ b)
      (hpropose : Happens K events scene b d (.propose node proposal) (.ok .readOnly))
      (hconfirmed : MajorityConfirmed K events scene d node rest) (hrest : Silent rest) :
      Submitted K events scene node proposal j k
        (⟨b, d, .propose node proposal, .ok .readOnly⟩ :: rest)
        (proposal.baseTerm, proposal.baseIndex)

theorem gives_submit (node : Handle) (proposal : Proposal)
    : Gives (ρ := ρ) K events scene j (submit node proposal) fun k deeds result =>
        ∀ point, result = .ok point → Submitted K events scene node proposal j k deeds point := by
  unfold submit
  apply (gives_perform _).bind
  rintro reply m₁ _ hm₁ ⟨b, hb, hpropose, rfl⟩
  cases reply with
  | error e => exact .pure (by simp)
  | ok accepted =>
    cases accepted with
    | readOnly =>
      apply (gives_confirmMajority node).bind
      rintro confirmed m₂ deeds _ ⟨hsilent, hconfirmed⟩
      cases confirmed with
      | error e => exact .pure (by simp)
      | ok _ =>
        apply Gives.pure
        rintro _ ⟨⟩
        rw [List.append_nil]
        exact .read hb hpropose (hconfirmed rfl) hsilent
    | appended term index ticket =>
      apply (gives_silent (by simp)).bind
      rintro _ m₂ before hm₂ hbefore
      apply (gives_silent (by simp)).bind
      rintro config m₃ after hm₃ hafter
      apply (gives_within_perform _ _).bind
      intro reply? m₄ deeds hm₄ hreply
      cases reply? with
      | none => exact .pure (by simp)
      | some outcome =>
        obtain ⟨e, he, hsettlement, hdeeds⟩ := hreply
        cases outcome with
        | error e => exact .pure (by simp)
        | ok _ =>
          have hsilent : Silent deeds := Did.silent ⟨e, he, hsettlement, hdeeds⟩ (by simp)
          have hsame : m₄ = e := hsettlement.1
          rw [hsame] at hsettlement
          apply Gives.pure
          rintro _ ⟨⟩
          refine .wrote hb hpropose ?_ ?_ hsettlement ?_
          . omega
          . omega
          . exact hbefore.append (hafter.append (hsilent.append silent_nil))

theorem Submitted.mono {node : Handle} {proposal : Proposal} {point : Nat × Nat} {j' k' : Nat}
    (h : Submitted K events scene node proposal j k deeds point) (hj : j' ≤ j) (hk : k ≤ k')
    : Submitted K events scene node proposal j' k' deeds point := by
  cases h with
  | wrote hle hpropose hde hek hsettled hrest =>
    exact .wrote (Nat.le_trans hj hle) hpropose hde (Nat.le_trans hek hk) hsettled hrest
  | read hle hpropose hconfirmed hrest =>
    exact .read (Nat.le_trans hj hle) hpropose hconfirmed hrest

def HandedOn (K : Cluster) (events : List Event) (scene : Scene) (target : NodeId)
    (request : CommitRequest) (j k : Nat) (deeds : List Deed) (point : Nat × Nat) : Prop :=
  ∃ receiver proposal before own after, deeds = before ++ (own ++ after) ∧
    (scene.nodes receiver).member = target ∧ Proposal.ofRequest request = .ok proposal ∧
    Submitted K events scene receiver proposal j k own point ∧ Silent before ∧ Silent after

theorem gives_commitForwarded (node : Handle) (request : CommitRequest)
    : Gives (ρ := ρ) K events scene j (commitForwarded node request) fun k deeds outcome =>
        ∀ point, outcome.toResult = .ok point → ∃ proposal, Proposal.ofRequest request = .ok proposal ∧
          Submitted K events scene node proposal j k deeds point := by
  unfold commitForwarded
  cases hproposal : Proposal.ofRequest request with
  | error e =>
    apply Gives.pure
    intro point hpoint
    cases hpoint
  | ok proposal =>
    apply (gives_submit node proposal).bind
    intro result m deeds _ hresult
    apply Gives.pure
    intro point hpoint
    rw [List.append_nil]
    refine ⟨proposal, rfl, hresult point ?_⟩
    cases result with
    | ok point' => exact hpoint
    | error e => cases e <;> cases hpoint

theorem gives_handOn (source : Handle) (target : NodeId) (request : CommitRequest)
    : Gives (ρ := ρ) K events scene j (handOn source target request) fun k deeds answer =>
        ∀ outcome point, answer = .ok outcome → outcome.toResult = .ok point →
          HandedOn K events scene target request j k deeds point := by
  unfold handOn
  apply (gives_perform _).bind
  rintro dispatch m₁ before hm₁ hdid
  have hbefore : Silent before := hdid.silent (by simp)
  obtain ⟨b, -, hdispatch, -⟩ := hdid
  cases dispatch with
  | refused e => exact .pure (by simp)
  | lost =>
    apply (gives_perform _).bind
    rintro _ _ _ - ⟨_, -, hforever, -⟩
    exact hforever.elim
  | answered delay response => exact hdispatch.2.elim
  | reaches receiver =>
    apply (gives_commitForwarded receiver request).bind
    intro outcome m₂ own hm₂ hown
    apply (gives_silent (by simp)).bind
    intro reply m₃ after hm₃ hafter
    cases reply with
    | error e => exact .pure (by simp)
    | ok _ =>
      apply Gives.pure
      rintro _ point ⟨⟩ hpoint
      obtain ⟨proposal, hproposal, hsubmitted⟩ := hown point hpoint
      exact ⟨receiver, proposal, before, own, after ++ [], rfl, hdispatch.2, hproposal,
        hsubmitted.mono hm₁ hm₃, hbefore, hafter.append silent_nil⟩

theorem gives_waitForIndex (node : Handle) (index millis : Nat)
    : Gives (ρ := ρ) K events scene j (waitForIndex node index millis) fun k deeds result =>
        Silent deeds ∧ (result = .ok () →
          ∃ e, e ≤ k ∧ Happens K events scene e e (.applied node index) ()) := by
  unfold waitForIndex
  apply (gives_within_perform _ _).bind
  intro reply? m deeds _ hreply
  cases reply? with
  | none =>
    cases hreply
    exact .pure ⟨silent_nil, by simp⟩
  | some reply =>
    have hsilent : Silent deeds := Did.silent hreply (by simp)
    obtain ⟨e, -, happlied, -⟩ := hreply
    have hsame : m = e := happlied.1
    rw [hsame] at happlied
    exact .pure ⟨hsilent.append silent_nil, fun _ => ⟨e, Nat.le_of_eq hsame.symm, happlied⟩⟩

def Forwarded (K : Cluster) (events : List Event) (scene : Scene) (node : Handle) (leader : NodeId)
    (proposal : Proposal) (j k : Nat) (deeds : List Deed) : Prop :=
  ∃ point, HandedOn K events scene leader proposal.toRequest j k deeds point ∧
    (proposal.writes.isEmpty = false →
      ∃ e, e ≤ k ∧ Happens K events scene e e (.applied node point.2) ())

theorem HandedOn.append {target : NodeId} {request : CommitRequest} {point : Nat × Nat} {k' : Nat}
    (h : HandedOn K events scene target request j k deeds point) (hk : k ≤ k') (hafter : Silent after)
    : HandedOn K events scene target request j k' (deeds ++ after) point := by
  obtain ⟨receiver, proposal, before, own, after', rfl, hmember, hproposal, hown, hbefore, hafter'⟩ := h
  refine ⟨receiver, proposal, before, own, after' ++ after, by simp, hmember, hproposal,
    hown.mono (Nat.le_refl j) hk, hbefore, hafter'.append hafter⟩

theorem Forwarded.mono {node : Handle} {leader : NodeId} {proposal : Proposal} {j' k' : Nat}
    (h : Forwarded K events scene node leader proposal j k deeds) (hj : j' ≤ j) (hk : k ≤ k')
    : Forwarded K events scene node leader proposal j' k' deeds := by
  obtain ⟨point, ⟨receiver, proposal', before, own, after, hsplit, hmember, hproposal, hown, hsilent⟩,
    happlied⟩ := h
  refine ⟨point, ⟨receiver, proposal', before, own, after, hsplit, hmember, hproposal,
    hown.mono hj hk, hsilent⟩, ?_⟩
  intro hwrites
  obtain ⟨e, he, happlied⟩ := happlied hwrites
  exact ⟨e, Nat.le_trans he hk, happlied⟩

theorem gives_forward (node : Handle) (leader : NodeId) (proposal : Proposal)
    : Gives (ρ := ρ) K events scene j (forward node leader proposal) fun k deeds result =>
        result = .ok () → Forwarded K events scene node leader proposal j k deeds := by
  unfold forward
  apply (gives_handOn node leader proposal.toRequest).bind
  intro answer m₁ deeds hm₁ hanswer
  cases answer with
  | error e =>
    dsimp only
    split
    . exact .pure (by simp)
    . exact .pure (by simp)
  | ok outcome =>
    have hhanded := hanswer outcome
    dsimp only
    cases hresult : outcome.toResult with
    | error e => exact .pure (by simp)
    | ok point =>
      obtain ⟨term, index⟩ := point
      have hpoint := hhanded _ rfl hresult
      dsimp only
      split
      . next hempty =>
        apply Gives.pure
        intro _
        refine ⟨_, hpoint.append (Nat.le_refl m₁) silent_nil, ?_⟩
        intro hwrites
        rw [hempty] at hwrites
        cases hwrites
      . apply (gives_silent (by simp)).bind
        intro config m₂ between hm₂ hbetween
        apply (gives_waitForIndex _ _ _).imp
        intro m₃ after result hm₃ ⟨hafter, happlied⟩ hok
        exact ⟨_, hpoint.append (Nat.le_trans hm₂ hm₃) (hbetween.append hafter), fun _ => happlied hok⟩

inductive Succeeds (K : Cluster) (events : List Event) (scene : Scene) (id : TransactionId) (j k : Nat)
    : List Deed → Prop where
  | settled {m own} (hplan : Happens K events scene m m (.planCommit id) (.settled (.ok ())))
      (hsilent : Silent own) : Succeeds K events scene id j k own
  | led {m node proposal point before own after} (hle : j ≤ m)
      (hplan : Happens K events scene m m (.planCommit id) (.lead node proposal))
      (hown : Submitted K events scene node proposal m k own point)
      (hbefore : Silent before) (hafter : Silent after) :
      Succeeds K events scene id j k (before ++ (own ++ after))
  | forwarded {m node leader proposal before own after} (hle : j ≤ m)
      (hplan : Happens K events scene m m (.planCommit id) (.forward node leader proposal))
      (hown : Forwarded K events scene node leader proposal m k own)
      (hbefore : Silent before) (hafter : Silent after) :
      Succeeds K events scene id j k (before ++ (own ++ after))

theorem gives_commit (transaction : TransactionId)
    : Gives (ρ := ρ) K events scene j (commit transaction) fun k deeds result =>
        result = .ok () → Succeeds K events scene transaction j k deeds := by
  unfold commit
  apply (gives_perform _).bind
  rintro plan m₁ before hm₁ hdid
  have hbefore : Silent before := hdid.silent (by simp)
  obtain ⟨m, hm, hplan, -⟩ := hdid
  have hsame : m₁ = m := hplan.1
  rw [hsame] at hplan
  cases plan with
  | settled result =>
    apply (gives_silent (by simp)).bind
    intro _ m₂ after _ hafter
    apply Gives.pure
    rintro rfl
    exact .settled hplan (hbefore.append (hafter.append silent_nil))
  | lead node proposal =>
    apply (gives_submit node proposal).bind
    intro result m₂ own hm₂ hown
    cases result with
    | error e =>
      apply (gives_silent (by simp)).bind
      intro _ _ _ _ _
      exact .pure (by simp)
    | ok point =>
      apply (gives_silent (by simp)).bind
      intro _ m₃ after hm₃ hafter
      apply Gives.pure
      intro _
      have hown' := (hown point rfl).mono (Nat.le_of_eq hsame.symm) hm₃
      exact .led hm hplan hown' hbefore (hafter.append silent_nil)
  | forward node leader proposal =>
    apply (gives_forward node leader proposal).bind
    intro result m₂ own hm₂ hown
    apply (gives_silent (by simp)).bind
    intro _ m₃ after hm₃ hafter
    apply Gives.pure
    intro hok
    exact .forwarded hm hplan ((hown hok).mono (Nat.le_of_eq hsame.symm) hm₃) hbefore
      (hafter.append silent_nil)

theorem proceeds_of_settled {id : TransactionId}
    (hplan : Happens K events scene j j (.planCommit id) (.settled (.ok ())))
    : Proceeds K events scene [] (commit id).toProcess j j
        [⟨j, j, .planCommit id, .settled (.ok ())⟩, ⟨j, j, .release id, ()⟩] (.answer (.ok ())) := by
  refine .step _ _ _ (Nat.le_refl j) hplan ?_
  refine .step _ _ _ (Nat.le_refl j) (Nat.le_refl j) ?_
  exact .answer (Nat.le_refl j)

theorem proceeds_of_appended {id : TransactionId} {node : Handle} {proposal : Proposal}
    {term index ticket b e : Nat}
    (hplan : Happens K events scene j j (.planCommit id) (.lead node proposal)) (hjb : j ≤ b)
    (hpropose : Happens K events scene b (b + 1) (.propose node proposal)
      (.ok (.appended term index ticket)))
    (hbe : b + 1 ≤ e) (hsettled : Happens K events scene e e (.settlement node ticket) (.ok ()))
    : Proceeds K events scene [] (commit id).toProcess j e [
        ⟨j, j, .planCommit id, .lead node proposal⟩,
        ⟨b, b + 1, .propose node proposal, .ok (.appended term index ticket)⟩,
        ⟨b + 1, b + 1, .broadcast node, ()⟩,
        ⟨b + 1, b + 1, .config node, ({} : ConsensusConfig)⟩,
        ⟨e, e, .settlement node ticket, .ok ()⟩,
        ⟨e, e, .release id, ()⟩] (.answer (.ok ())) := by
  refine .step _ _ _ (Nat.le_refl j) hplan ?_
  refine .step _ _ _ hjb hpropose ?_
  refine .step _ _ _ (Nat.le_refl _) (Nat.le_refl _) ?_
  refine .step _ _ _ (Nat.le_refl _) (Nat.le_refl _) (.setTimer ?_)
  refine .step _ _ _ hbe hsettled (.clearTimer ?_)
  refine .step _ _ _ (Nat.le_refl e) (Nat.le_refl e) ?_
  exact .answer (Nat.le_refl e)

theorem proceeds_of_confirmed {node receiver : Handle} {peer : NodeId} {q : AppendRequest}
    {r : AppendResponse} {b e : Nat} (hmember : (scene.nodes receiver).member = peer) (hjb : j ≤ b)
    (hhandle : Happens K events scene b (b + 1) (.handle receiver (.append q)) (.ok (.append r)))
    (hbe : b + 1 ≤ e)
    (htake : Happens K events scene e (e + 1)
      (.takeAppend node peer q.term (!q.entries.isEmpty) r) true)
    : Proceeds (ρ := ρ) K events scene [] (deliver node peer (.append q) .acknowledge) j (e + 1) [
        ⟨j, j, .config node, ({} : ConsensusConfig)⟩,
        ⟨j, j, .takeTurn, ()⟩,
        ⟨j, j, .dispatch node peer (.append q), .reaches receiver⟩,
        ⟨j, j, .pause, ()⟩,
        ⟨b, b + 1, .handle receiver (.append q), .ok (.append r)⟩,
        ⟨b + 1, b + 1, .reply node peer, .ok ()⟩,
        ⟨b + 1, b + 1, .passTurn, ()⟩,
        ⟨e, e + 1, .takeAppend node peer q.term (!q.entries.isEmpty) r, true⟩]
        (.acknowledge true) := by
  refine .step _ _ _ (Nat.le_refl j) (Nat.le_refl j) (.setTimer ?_)
  refine .step _ _ _ (Nat.le_refl j) (Nat.le_refl j) ?_
  refine .step _ _ _ (Nat.le_refl j) ⟨Nat.le_refl j, hmember⟩ ?_
  refine .step _ _ _ (Nat.le_refl j) (Nat.le_refl j) ?_
  refine .step _ _ _ hjb hhandle ?_
  refine .step _ _ _ (Nat.le_refl _) (Nat.le_refl _) ?_
  refine .step _ _ _ (Nat.le_refl _) (Nat.le_refl _) (.clearTimer ?_)
  refine .step _ _ _ hbe htake ?_
  exact .acknowledge (Nat.le_refl _)

theorem proceeds_of_readOnly {id : TransactionId} {node : Handle} {proposal : Proposal}
    {needed b d e : Nat} {messages confirmed : List (NodeId × CatchUp)}
    (hplan : Happens K events scene j j (.planCommit id) (.lead node proposal)) (hjb : j ≤ b)
    (hpropose : Happens K events scene b (b + 1) (.propose node proposal) (.ok .readOnly))
    (hbd : b + 1 ≤ d)
    (hopen : Happens K events scene d (d + 1) (.openRound node) (.ok (needed, messages)))
    (hneeded : needed ≠ 0) (hde : d + 1 ≤ e) (hsub : confirmed.Sublist messages)
    (henough : needed ≤ confirmed.length)
    (hacked : ∀ message ∈ confirmed, ∃ own, Proceeds (ρ := Except Error Unit) K events scene []
      (deliver node message.1 message.2 .acknowledge) (d + 1) e own (.acknowledge true))
    : Proceeds K events scene [] (commit id).toProcess j e [
        ⟨j, j, .planCommit id, .lead node proposal⟩,
        ⟨b, b + 1, .propose node proposal, .ok .readOnly⟩,
        ⟨d, d + 1, .openRound node, .ok (needed, messages)⟩,
        ⟨e, e, .release id, ()⟩] (.answer (.ok ())) := by
  refine .step _ _ _ (Nat.le_refl j) hplan ?_
  refine .step _ _ _ hjb hpropose ?_
  refine .step _ _ _ hbd hopen ?_
  dsimp only
  rw [if_neg hneeded]
  let own (p : Process (Except Error Unit)) : List Deed :=
    Classical.epsilon fun own => Proceeds K events scene [] p (d + 1) e own (.acknowledge true)
  refine .reached e (confirmed.map fun message => deliver node message.1 message.2 .acknowledge) own hde
    ?_ ?_ ?_ ?_
  . rw [List.map_map]
    exact hsub.map _
  . rw [List.length_map]
    exact henough
  . intro p hp
    obtain ⟨message, hmessage, rfl⟩ := List.mem_map.1 hp
    exact Classical.epsilon_spec (hacked message hmessage)
  . refine .step _ _ _ (Nat.le_refl e) (Nat.le_refl e) ?_
    exact .answer (Nat.le_refl e)

end Script

end ReplicatedStore
