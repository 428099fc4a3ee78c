import ReplicatedStore.Proofs.Runs.Commits

/-!
Activities in a run of the cluster: what they ask of a node is a step of its member, and what they are
told is what the member had to say.
-/

namespace ReplicatedStore

def Event.ends (n : NodeId) : Event → Bool
  | .crash m _ => m == n
  | _ => false

theorem keepsRunning_of_all {events : List Event} {n : NodeId} {j k : Nat}
    (h : ((events.take k).drop j).all (fun e => !e.ends n) = true)
    : KeepsRunning events n j k := by
  intro m hjm hmk powerLost hevent
  have hmem : Event.crash n powerLost ∈ (events.take k).drop j := by
    apply List.mem_of_getElem? (i := m - j)
    rw [List.getElem?_drop, Nat.add_sub_cancel' hjm, List.getElem?_take_of_lt hmk]
    exact hevent
  have := List.all_eq_true.1 h _ hmem
  simp [Event.ends] at this

structure Incarnation where
  member : NodeId
  opened : Nat

structure Incarnation.Runs (i : Incarnation) (K : Cluster) (events : List Event) (m : Nat) (x : Node) :
    Prop where
  since : i.opened ≤ m
  keeps : KeepsRunning events i.member i.opened m
  node : (K.moment events m).node? i.member = some x

structure Incarnation.Acts (i : Incarnation) (K : Cluster) (events : List Event) (m : Nat)
    (clock : Clock) (move : Move) (x : Node) : Prop where
  runs : i.Runs K events m x
  event : events[m]? = some (.act i.member clock move)
  possible : move.possible i.member (K.moment events m).packets x = true

section Seen

variable {α : Type} (K : Cluster) (events : List Event) (m : Nat) (n : NodeId)

def Seen (f : Node → α) (a : α) : Prop :=
  ((K.moment events m).node? n).map f = some a

def SeenBefore (move : Move) (f : Node → α) (a : α) : Prop :=
  Seen K events m n (fun x => (move.possible n (K.moment events m).packets x, f x)) (true, a)

instance [DecidableEq α] (f : Node → α) (a : α) : Decidable (Seen K events m n f a) :=
  inferInstanceAs (Decidable (_ = _))

instance [DecidableEq α] (move : Move) (f : Node → α) (a : α) :
    Decidable (SeenBefore K events m n move f a) :=
  inferInstanceAs (Decidable (Seen ..))

end Seen

namespace Incarnation

variable {i : Incarnation} {K : Cluster} {events : List Event} {m : Nat} {α : Type} {f : Node → α} {a : α}

theorem exists_runs (hsince : i.opened ≤ m)
    (hkeeps : ((events.take m).drop i.opened).all (fun e => !e.ends i.member) = true)
    (h : Seen K events m i.member f a)
    : ∃ x, i.Runs K events m x ∧ f x = a := by
  obtain ⟨x, hx, hfx⟩ := Option.map_eq_some_iff.1 h
  exact ⟨x, ⟨hsince, keepsRunning_of_all hkeeps, hx⟩, hfx⟩

theorem exists_acts {clock : Clock} {move : Move} (hsince : i.opened ≤ m)
    (hkeeps : ((events.take m).drop i.opened).all (fun e => !e.ends i.member) = true)
    (hevent : events[m]? = some (.act i.member clock move))
    (h : SeenBefore K events m i.member move f a)
    : ∃ x, i.Acts K events m clock move x ∧ f x = a := by
  obtain ⟨x, hruns, hfx⟩ := exists_runs hsince hkeeps h
  obtain ⟨hpossible, hfx⟩ := Prod.mk.inj hfx
  exact ⟨x, ⟨hruns, hevent, hpossible⟩, hfx⟩

end Incarnation

structure Scene where
  nodes : Handle → Incarnation
  transactions : TransactionId → ClusterTransaction

structure World.Shows {ρ : Type} (world : World ρ) (K : Cluster) (events : List Event) (scene : Scene)
    (m : Nat) (id : TransactionId) : Prop where
  transaction : world.transaction? id = some (scene.transactions id)
  node : ∀ handle term index stale,
    (scene.transactions id).base = .member handle term index stale →
      ∃ x, world.node? handle = some x ∧ (scene.nodes handle).Runs K events m x

structure Deed where
  begun : Nat
  done : Nat
  effect : Effect
  reply : effect.Reply

def NodeM.acked : EStateM.Result Error Node (Bool × List Order) → Bool
  | .ok (acked, _) _ => acked
  | .error .. => false

/-- What an activity is told comes from the run. Messages that a network made up, and the clocks of the
activity, are not part of it. -/
def Happens (K : Cluster) (events : List Event) (scene : Scene) (m m' : Nat) :
    (effect : Effect) → effect.Reply → Prop
  | .propose node proposal, reply => m' = m + 1 ∧ ∃ clock x,
    (scene.nodes node).Acts K events m clock (.propose proposal) x ∧
      reply = NodeM.reply (NodeM.propose proposal clock x)
  | .openRound node, reply => m' = m + 1 ∧ ∃ clock x,
    (scene.nodes node).Acts K events m clock .openRound x ∧
      reply = NodeM.reply ((do
        let messages ← NodeM.openRound
        return ((← get).quorum - 1, messages) : NodeM (Nat × List (NodeId × CatchUp))) clock x)
  | .handle node request, reply => m' = m + 1 ∧ ∃ source clock x,
    (scene.nodes node).Acts K events m clock (.handle source request) x ∧
      reply = NodeM.reply (World.rpc request clock x)
  | .takeAppend node peer sentTerm carried response, reply => m' = m + 1 ∧ ∃ q clock x,
    (scene.nodes node).Acts K events m clock (.take peer (.append q) (.append response)) x ∧
      q.term = sentTerm ∧ carried = !q.entries.isEmpty ∧
      reply = NodeM.acked (NodeM.onAppendResponse peer sentTerm carried response clock x)
  | .takeSnapshot node peer sentTerm index response, reply => m' = m + 1 ∧ ∃ q clock x,
    (scene.nodes node).Acts K events m clock (.take peer (.snapshot q) (.snapshot response)) x ∧
      q.term = sentTerm ∧ q.index = index ∧
      reply = NodeM.acked (NodeM.onSnapshotResponse peer sentTerm index response clock x)
  | .settlement node ticket, reply => m' = m ∧ ∃ x,
    (scene.nodes node).Runs K events m x ∧ (ticket, reply) ∈ x.settled
  | .applied node index, _ => m' = m ∧ ∃ x,
    (scene.nodes node).Runs K events m x ∧ index ≤ x.announced
  | .dispatch _ target _, reply => m ≤ m' ∧
    match reply with
    | .reaches receiver => (scene.nodes receiver).member = target
    | .answered .. => False
    | _ => True
  | .planCommit id, reply => m' = m ∧ ∃ world : World (Except Error Unit),
    world.Shows K events scene m id ∧ reply = (world.planCommit id).1
  | .forever, _ => False
  | _, _ => m ≤ m'

theorem Happens.le {K : Cluster} {events : List Event} {scene : Scene} {m m' : Nat} {effect : Effect}
    {reply : effect.Reply} (h : Happens K events scene m m' effect reply)
    : m ≤ m' := by
  cases effect with
  | propose => exact h.1 ▸ Nat.le_succ m
  | openRound => exact h.1 ▸ Nat.le_succ m
  | handle => exact h.1 ▸ Nat.le_succ m
  | takeAppend => exact h.1 ▸ Nat.le_succ m
  | takeSnapshot => exact h.1 ▸ Nat.le_succ m
  | settlement => exact Nat.le_of_eq h.1.symm
  | applied => exact Nat.le_of_eq h.1.symm
  | planCommit => exact Nat.le_of_eq h.1.symm
  | dispatch => exact h.1
  | forever => exact h.elim
  | _ => exact h

section Seen

variable {K : Cluster} {events : List Event} {scene : Scene} {m ticket : Nat} {node : Handle}
  {clock : Clock}

theorem happens_propose {proposal : Proposal} {reply : Except Error Accepted}
    (h : ∃ x, (scene.nodes node).Acts K events m clock (.propose proposal) x ∧
      NodeM.reply (NodeM.propose proposal clock x) = reply)
    : Happens K events scene m (m + 1) (.propose node proposal) reply := by
  obtain ⟨x, hacts, hreply⟩ := h
  exact ⟨rfl, clock, x, hacts, hreply.symm⟩

theorem happens_openRound {reply : Except Error (Nat × List (NodeId × CatchUp))}
    (h : ∃ x, (scene.nodes node).Acts K events m clock .openRound x ∧
      NodeM.reply ((do
        let messages ← NodeM.openRound
        return ((← get).quorum - 1, messages) : NodeM (Nat × List (NodeId × CatchUp))) clock x) = reply)
    : Happens K events scene m (m + 1) (.openRound node) reply := by
  obtain ⟨x, hacts, hreply⟩ := h
  exact ⟨rfl, clock, x, hacts, hreply.symm⟩

theorem happens_handle {source : NodeId} {request : Request} {reply : Except Error Response}
    (h : ∃ x, (scene.nodes node).Acts K events m clock (.handle source request) x ∧
      NodeM.reply (World.rpc request clock x) = reply)
    : Happens K events scene m (m + 1) (.handle node request) reply := by
  obtain ⟨x, hacts, hreply⟩ := h
  exact ⟨rfl, source, clock, x, hacts, hreply.symm⟩

theorem happens_takeAppend {peer : NodeId} {q : AppendRequest} {r : AppendResponse} {acked : Bool}
    (h : ∃ x, (scene.nodes node).Acts K events m clock (.take peer (.append q) (.append r)) x ∧
      NodeM.acked (NodeM.onAppendResponse peer q.term (!q.entries.isEmpty) r clock x) = acked)
    : Happens K events scene m (m + 1) (.takeAppend node peer q.term (!q.entries.isEmpty) r) acked := by
  obtain ⟨x, hacts, hacked⟩ := h
  exact ⟨rfl, q, clock, x, hacts, rfl, rfl, hacked.symm⟩

theorem happens_settlement {outcome : Except Error Unit}
    (h : ∃ x, (scene.nodes node).Runs K events m x ∧ x.settled = [(ticket, outcome)])
    : Happens K events scene m m (.settlement node ticket) outcome := by
  obtain ⟨x, hx, hsettled⟩ := h
  refine ⟨rfl, x, hx, ?_⟩
  rw [hsettled]
  exact List.mem_cons_self

end Seen

/-- A process comes to an end in a run, from one moment to another, with some deeds of its own and with
timers set before it. -/
inductive Process.Proceeds {ρ : Type} (K : Cluster) (events : List Event) (scene : Scene) :
    List (Unit → Process ρ) → Process ρ → Nat → Nat → List Deed → Process ρ → Prop where
  | answer {timers result j k} (hle : j ≤ k) :
      Proceeds K events scene timers (.answer result) j k [] (.answer result)
  | acknowledge {timers acked j k} (hle : j ≤ k) :
      Proceeds K events scene timers (.acknowledge acked) j k [] (.acknowledge acked)
  | step {timers effect next j k deeds last} (m m' : Nat) (reply : effect.Reply) (hle : j ≤ m)
      (hhappens : Happens K events scene m m' effect reply)
      (h : Proceeds K events scene timers (next reply) m' k deeds last) :
      Proceeds K events scene timers (.step effect next) j k (⟨m, m', effect, reply⟩ :: deeds) last
  | join {timers job next j k deeds last} (m : Nat) (reply : ρ) (hle : j ≤ m)
      (h : Proceeds K events scene timers (next reply) m k deeds last) :
      Proceeds K events scene timers (.join job next) j k deeds last
  | missed {timers needed members next j k deeds last} (m : Nat) (hle : j ≤ m)
      (h : Proceeds K events scene timers (next false) m k deeds last) :
      Proceeds K events scene timers (.round needed members next) j k deeds last
  | reached {timers needed members next j k deeds last} (m : Nat) (acked : List (Process ρ))
      (own : Process ρ → List Deed) (hle : j ≤ m) (hsub : acked.Sublist members)
      (hneeded : needed ≤ acked.length)
      (hacked : ∀ p ∈ acked, Proceeds K events scene [] p j m (own p) (.acknowledge true))
      (h : Proceeds K events scene timers (next true) m k deeds last) :
      Proceeds K events scene timers (.round needed members next) j k deeds last
  | setTimer {timers millis late next j k deeds last}
      (h : Proceeds K events scene (late :: timers) (next ()) j k deeds last) :
      Proceeds K events scene timers (.setTimer millis late next) j k deeds last
  | clearTimer {late timers next j k deeds last}
      (h : Proceeds K events scene timers (next ()) j k deeds last) :
      Proceeds K events scene (late :: timers) (.clearTimer next) j k deeds last
  | late {timers inner late outer process j k deeds last} (m : Nat) (hwaits : process.waits = true)
      (htimers : timers = inner ++ late :: outer) (hle : j ≤ m)
      (h : Proceeds K events scene outer (late ()) m k deeds last) :
      Proceeds K events scene timers process j k deeds last

namespace Script

open Process

variable {K : Cluster} {events : List Event} {scene : Scene} {ρ α β : Type} {script : Script ρ α}
  {j k m : Nat} {P Q : Nat → List Deed → α → Prop}

def Gives (K : Cluster) (events : List Event) (scene : Scene) (j : Nat) (script : Script ρ α)
    (P : Nat → List Deed → α → Prop) : Prop :=
  ∀ timers next k deeds last, Proceeds K events scene timers (script next) j k deeds last →
    (∃ a m before after, deeds = before ++ after ∧ j ≤ m ∧ P m before a ∧
      Proceeds K events scene timers (next a) m k after last) ∨
    ∃ inner late outer m before after, timers = inner ++ late :: outer ∧ deeds = before ++ after ∧
      j ≤ m ∧ Proceeds K events scene outer (late ()) m k after last

theorem Gives.pure {a : α} (h : P j [] a) : Gives (ρ := ρ) K events scene j (pure a) P := by
  intro timers next k deeds last hproceeds
  exact .inl ⟨a, j, [], deeds, rfl, Nat.le_refl j, h, hproceeds⟩

theorem Gives.bind {f : α → Script ρ β} {Q : Nat → List Deed → β → Prop}
    (h : Gives K events scene j script P)
    (hf : ∀ a m before, j ≤ m → P m before a →
      Gives K events scene m (f a) fun k after b => Q k (before ++ after) b)
    : Gives K events scene j (script >>= f) Q := by
  intro timers next k deeds last hproceeds
  rcases h _ _ _ _ _ hproceeds with ⟨a, m, before, after, rfl, hm, ha, hproceeds⟩ | hlate
  . rcases hf a m before hm ha _ _ _ _ _ hproceeds with
      ⟨b, m', between, after, rfl, hm', hb, hproceeds⟩ |
      ⟨inner, late, outer, m', between, after, htimers, rfl, hm', hproceeds⟩
    . exact .inl ⟨b, m', before ++ between, after, by simp, Nat.le_trans hm hm', hb, hproceeds⟩
    . exact .inr ⟨inner, late, outer, m', before ++ between, after, htimers, by simp,
        Nat.le_trans hm hm', hproceeds⟩
  . exact .inr hlate

theorem Gives.imp (h : Gives K events scene j script P)
    (hPQ : ∀ m deeds a, j ≤ m → P m deeds a → Q m deeds a)
    : Gives K events scene j script Q := by
  intro timers next k deeds last hproceeds
  rcases h _ _ _ _ _ hproceeds with ⟨a, m, before, after, hsplit, hm, ha, hproceeds⟩ | hlate
  . exact .inl ⟨a, m, before, after, hsplit, hm, hPQ _ _ _ hm ha, hproceeds⟩
  . exact .inr hlate

def Did (K : Cluster) (events : List Event) (scene : Scene) (j : Nat) (effect : Effect) (m' : Nat)
    (deeds : List Deed) (reply : effect.Reply) : Prop :=
  ∃ m, j ≤ m ∧ Happens K events scene m m' effect reply ∧ deeds = [⟨m, m', effect, reply⟩]

theorem gives_perform (effect : Effect)
    : Gives (ρ := ρ) K events scene j (perform effect) (Did K events scene j effect) := by
  intro timers next k deeds last hproceeds
  cases hproceeds with
  | step m m' reply hle hhappens h =>
    refine .inl ⟨reply, m', [_], _, rfl, ?_, ⟨m, hle, hhappens, rfl⟩, h⟩
    exact Nat.le_trans hle hhappens.le
  | late m hwaits htimers hle h =>
    exact .inr ⟨_, _, _, m, [], deeds, htimers, rfl, hle, h⟩

theorem gives_within_perform (millis : Nat) (effect : Effect)
    : Gives (ρ := ρ) K events scene j (within millis (perform effect)) fun m deeds reply? =>
        match reply? with
        | some reply => Did K events scene j effect m deeds reply
        | none => deeds = [] := by
  intro timers next k deeds last hproceeds
  cases hproceeds with
  | late m hwaits => cases hwaits
  | setTimer h =>
    cases h with
    | step m m' reply hle hhappens h =>
      cases h with
      | clearTimer h =>
        refine .inl ⟨some reply, m', [_], _, rfl, ?_, ⟨m, hle, hhappens, rfl⟩, h⟩
        exact Nat.le_trans hle hhappens.le
      | late m hwaits => cases hwaits
    | @late _ inner _ _ _ _ _ _ _ m hwaits htimers hle h =>
      cases inner with
      | nil =>
        cases htimers
        exact .inl ⟨none, m, [], _, rfl, hle, rfl, h⟩
      | cons timer inner =>
        cases htimers
        exact .inr ⟨inner, _, _, m, [], _, rfl, rfl, hle, h⟩

theorem gives_within (millis : Nat) (h : Gives K events scene j script P)
    : Gives (ρ := ρ) K events scene j (within millis script) fun m deeds value? =>
        ∀ a, value? = some a → P m deeds a := by
  intro timers next k deeds last hproceeds
  cases hproceeds with
  | late m hwaits => cases hwaits
  | setTimer hproceeds =>
    rcases h _ _ _ _ _ hproceeds with
      ⟨a, m, before, after, hsplit, hm, ha, hnext⟩ |
      ⟨inner, late, outer, m, before, after, htimers, hsplit, hm, hnext⟩
    . cases hnext with
      | late m hwaits => cases hwaits
      | clearTimer hnext =>
        refine .inl ⟨some a, m, before, after, hsplit, hm, ?_, hnext⟩
        rintro _ ⟨⟩
        exact ha
    . cases inner with
      | nil =>
        cases htimers
        refine .inl ⟨none, m, before, after, hsplit, hm, ?_, hnext⟩
        rintro _ ⟨⟩
      | cons timer inner =>
        cases htimers
        exact .inr ⟨inner, late, outer, m, before, after, rfl, hsplit, hm, hnext⟩

theorem gives_round (needed : Nat) (members : List (Script ρ Bool))
    : Gives K events scene j (round needed members) fun m deeds reached =>
        deeds = [] ∧ (reached = true → ∃ (acked : List (Script ρ Bool)) (own : Script ρ Bool → List Deed),
          acked.Sublist members ∧ needed ≤ acked.length ∧
            ∀ script ∈ acked, Proceeds K events scene [] (script .acknowledge) j m (own script)
              (.acknowledge true)) := by
  intro timers next k deeds last hproceeds
  cases hproceeds with
  | late m hwaits htimers hle h => exact .inr ⟨_, _, _, m, [], deeds, htimers, rfl, hle, h⟩
  | missed m hle h =>
    refine .inl ⟨false, m, [], deeds, rfl, hle, ⟨rfl, ?_⟩, h⟩
    intro hreached
    cases hreached
  | reached m acked own hle hsub hneeded hacked h =>
    refine .inl ⟨true, m, [], deeds, rfl, hle, ⟨rfl, ?_⟩, h⟩
    intro _
    obtain ⟨scripts, hscripts, rfl⟩ := List.sublist_map_iff.1 hsub
    rw [List.length_map] at hneeded
    refine ⟨scripts, fun script => own (script .acknowledge), hscripts, hneeded, ?_⟩
    intro script hscript
    exact hacked _ (List.mem_map_of_mem hscript)

theorem Gives.acknowledged {script : Script ρ Bool} {P : Nat → List Deed → Bool → Prop}
    {deeds : List Deed} (h : Gives K events scene j script P)
    (hproceeds : Proceeds K events scene [] (script .acknowledge) j k deeds (.acknowledge true))
    : ∃ m, m ≤ k ∧ P m deeds true := by
  rcases h _ _ _ _ _ hproceeds with
    ⟨a, m, before, after, rfl, hm, ha, hproceeds⟩ | ⟨inner, late, outer, _, _, _, htimers, _⟩
  . cases hproceeds with
    | acknowledge hle =>
      rw [List.append_nil]
      exact ⟨m, hle, ha⟩
    | late _ hwaits => cases hwaits
  . simp at htimers

theorem Gives.toProcess {script : Script α α} {deeds : List Deed} {a : α}
    (h : Gives K events scene j script P)
    (hproceeds : Proceeds K events scene [] script.toProcess j k deeds (.answer a))
    : ∃ m, m ≤ k ∧ P m deeds a := by
  rcases h _ _ _ _ _ hproceeds with
    ⟨b, m, before, after, rfl, hm, hb, hproceeds⟩ | ⟨inner, late, outer, _, _, _, htimers, _⟩
  . cases hproceeds with
    | answer hle =>
      rw [List.append_nil]
      exact ⟨m, hle, hb⟩
    | late _ hwaits => cases hwaits
  . simp at htimers

end Script

end ReplicatedStore
