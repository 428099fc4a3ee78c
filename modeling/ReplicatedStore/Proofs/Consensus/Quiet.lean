import ReplicatedStore.Proofs.Consensus.Invariance
import ReplicatedStore.Proofs.Runs.Deployment
import ReplicatedStore.Proofs.Storage.LogFaults

/-!
Actions that have no part in elections: whatever fails in them, the node keeps its term, its vote and its
role, and the hard state in its files stays.
-/

namespace ReplicatedStore

def Role.Alike (r r' : Role) : Prop :=
  r' = r ∨ r.isLeader = true ∧ r'.isLeader = true

theorem Role.Alike.trans {r r' r'' : Role} (h : r.Alike r') (h' : r'.Alike r'') : r.Alike r'' := by
  rcases h with rfl | ⟨hr, hr'⟩
  . exact h'
  . rcases h' with rfl | ⟨-, hr''⟩
    . exact .inr ⟨hr, hr'⟩
    . exact .inr ⟨hr, hr''⟩

structure Node.Quiet (x y : Node) : Prop where
  id : y.id = x.id
  peers : y.peers = x.peers
  hard : y.hard = x.hard
  role : x.role.Alike y.role
  safe : ∀ hard, x.log.Safe hard → y.log.Safe hard

namespace Node.Quiet

variable {x y z : Node}

theorem of_log (hid : y.id = x.id) (hpeers : y.peers = x.peers) (hhard : y.hard = x.hard)
    (hrole : y.role = x.role) (hlog : y.log = x.log)
    : x.Quiet y where
  id := hid
  peers := hpeers
  hard := hhard
  role := .inl hrole
  safe hard h := by
    rw [hlog]
    exact h

theorem refl (x : Node) : x.Quiet x :=
  of_log rfl rfl rfl rfl rfl

theorem trans (h : x.Quiet y) (h' : y.Quiet z) : x.Quiet z where
  id := h'.id.trans h.id
  peers := h'.peers.trans h.peers
  hard := h'.hard.trans h.hard
  role := h.role.trans h'.role
  safe hard hs := h'.safe hard (h.safe hard hs)

theorem term (h : x.Quiet y) : y.term = x.term := by
  unfold Node.term
  rw [h.hard]

end Node.Quiet

namespace NodeM

variable {α β : Type}

def Quietly (action : NodeM α) : Prop :=
  ∀ clock x, EStateM.Ends (x.Quiet ·) (fun _ _ => True) (action clock x)

theorem quietly_pure (a : α) : Quietly (pure a) :=
  fun _ x => ⟨.refl x, trivial⟩

theorem quietly_throw (e : Error) : Quietly (throw e : NodeM α) :=
  fun _ x => .refl x

theorem quietly_get : Quietly get :=
  fun _ x => ⟨.refl x, trivial⟩

theorem quietly_modify {g : Node → Node} (h : ∀ x : Node, x.Quiet (g x)) : Quietly (modify g) :=
  fun _ x => ⟨h x, trivial⟩

theorem Quietly.ends_bind {action : NodeM α} {f : α → NodeM β} {clock : Clock} {x : Node}
    {Q : β → Node → Prop} (h : Quietly action)
    (hf : ∀ a y, x.Quiet y → EStateM.Ends (y.Quiet ·) Q (f a clock y))
    : EStateM.Ends (x.Quiet ·) Q ((action >>= f) clock x) := by
  apply EStateM.Ends.bind (x := action clock) (h clock x)
  intro a y hxy _
  apply (hf a y hxy).imp
  . exact fun _ hyz => hxy.trans hyz
  . exact fun _ _ _ hq => hq

theorem Quietly.bind {action : NodeM α} {f : α → NodeM β} (h : Quietly action)
    (hf : ∀ a, Quietly (f a))
    : Quietly (action >>= f) :=
  fun clock _ => h.ends_bind fun a y _ => hf a clock y

theorem Quietly.attempt {action : NodeM α} (h : Quietly action) : Quietly (attempt action) :=
  fun clock x => ends_attempt (h clock x)

theorem quietly_onLog {operation : LogM α}
    (h : ∀ log hard, LogStore.Safe log hard →
      EStateM.Ends (·.Safe hard) (fun _ _ => True) (operation log))
    : Quietly (onLog operation) := by
  intro clock x
  cases hr : operation x.log with
  | ok a log =>
    rw [onLog_ok hr]
    refine ⟨⟨rfl, rfl, rfl, .inl rfl, ?_⟩, trivial⟩
    intro hard hs
    have hends := h x.log hard hs
    rw [hr] at hends
    exact hends.1
  | error e log =>
    rw [onLog_error hr]
    refine ⟨rfl, rfl, rfl, .inl rfl, ?_⟩
    intro hard hs
    have hends := h x.log hard hs
    rw [hr] at hends
    exact hends

theorem quietly_enlist (index term : Nat) : Quietly (enlist index term) := by
  intro clock x
  rw [enlist_eq]
  exact ⟨.of_log rfl rfl rfl rfl rfl, trivial⟩

theorem quietly_putSnapshot (index term : Nat) (data : Bytes)
    : Quietly (onLog (LogStore.putSnapshot index term data)) :=
  quietly_onLog fun _ _ hs => LogStore.ends_putSnapshot hs index term data

theorem quietly_appendLog (entries : List LogEntry) : Quietly (onLog (LogStore.append entries)) :=
  quietly_onLog fun _ _ hs => LogStore.ends_append hs entries

theorem safe_after_putSnapshot {log : LogStore} {hard : HardState} (hs : log.Safe hard) (index term : Nat)
    (data : Bytes)
    : (log.after (.putSnapshot index term data)).Safe hard := by
  have hends := LogStore.ends_putSnapshot hs index term data
  unfold LogStore.after LogCall.perform
  dsimp only
  cases hput : LogStore.putSnapshot index term data log with
  | ok _ log' =>
    rw [hput] at hends
    exact hends.1
  | error e log' =>
    rw [hput] at hends
    exact hends

theorem survives_quiet (x : Node) : Survives (x.Quiet ·) where
  halted h := h.trans (.of_log rfl rfl rfl rfl rfl)
  told _ _ _ h := h.trans (.of_log rfl rfl rfl rfl rfl)
  applied _ _ _ h := h.trans (.of_log rfl rfl rfl rfl rfl)
  folded _ _ h := h.trans ⟨rfl, rfl, rfl, .inl rfl, fun _ hs => safe_after_putSnapshot hs _ _ _⟩

theorem quietly_commitThrough (index : Nat) : Quietly (commitThrough index) :=
  fun clock x => (survives_quiet x).commitThrough clock (.refl x) fun _ => .of_log rfl rfl rfl rfl rfl

theorem quietly_commitByMajority : Quietly commitByMajority := by
  unfold commitByMajority
  apply quietly_get.bind
  intro node
  split
  . dsimp only
    split
    . exact quietly_commitThrough _
    . exact quietly_pure _
  . exact quietly_pure _

theorem quiet_updateProgress (x : Node) (peer : NodeId) (f : Progress → Progress)
    : x.Quiet (x.updateProgress peer f) := by
  unfold Node.updateProgress
  cases hrole : x.role with
  | follower => exact .refl x
  | candidate votes => exact .refl x
  | leader leadership =>
    refine ⟨rfl, rfl, rfl, .inr ⟨?_, rfl⟩, fun _ h => h⟩
    rw [hrole]
    rfl

theorem quietly_storedSnapshot : Quietly (onLog LogStore.storedSnapshot) :=
  quietly_onLog fun _ _ hs => LogStore.ends_storedSnapshot hs

theorem ends_nextMessage (peer : NodeId) (clock : Clock) (x : Node)
    : EStateM.Ends (x.Quiet ·) (fun message _ => ∀ m ∈ message, m.term = x.term)
        (nextMessage peer clock x) := by
  have hnone : ∀ {y : Node}, y.Quiet y ∧ ∀ m ∈ (none : Option CatchUp), m.term = x.term := by
    intro y
    refine ⟨.refl y, ?_⟩
    rintro m ⟨⟩
  unfold nextMessage
  rw [bind_get]
  split
  . apply quietly_storedSnapshot.attempt.ends_bind
    intro stored y _
    split
    . refine ⟨.refl y, ?_⟩
      rintro m ⟨⟩
      rfl
    . exact hnone
  . cases x.log.termAt? _ with
    | none => exact hnone
    | some prevTerm =>
      refine ⟨.refl x, ?_⟩
      rintro m ⟨⟩
      rfl

theorem ends_messageFor (peer : NodeId) (clock : Clock) (x : Node)
    : EStateM.Ends (x.Quiet ·) (fun message _ => ∀ m ∈ message, m.term = x.term)
        (messageFor peer clock x) := by
  unfold messageFor
  rw [bind_get]
  split
  . refine ⟨.refl x, ?_⟩
    rintro m ⟨⟩
  . exact ends_nextMessage peer clock x

theorem quietly_ensureLeader : Quietly ensureLeader := by
  unfold ensureLeader
  apply quietly_get.bind
  intro node
  split
  . exact quietly_throw _
  . exact quietly_pure _

theorem ends_roundMessages (peers : List NodeId) (clock : Clock) (x : Node)
    : EStateM.Ends (x.Quiet ·) (fun messages _ => ∀ m ∈ messages.filterMap id, m.2.term = x.term)
        ((peers.mapM fun peer => do
            return (← nextMessage peer).map (peer, ·) :
          NodeM (List (Option (NodeId × CatchUp)))) clock x) := by
  induction peers generalizing x with
  | nil =>
    refine ⟨.refl x, ?_⟩
    intro m hm
    cases hm
  | cons peer rest ih =>
    rw [List.mapM_cons, bind_assoc]
    apply EStateM.Ends.bind (x := nextMessage peer clock) (ends_nextMessage peer clock x)
    intro message y hxy hmessage
    beta_reduce
    rw [pure_bind]
    have hrest := (ih y).imp (fun _ hyz => hxy.trans hyz) fun _ _ _ h => h
    apply EStateM.Ends.bind (x := (rest.mapM _ : NodeM _) clock) hrest
    intro messages z hxz hmessages
    refine ⟨hxz, ?_⟩
    rw [hxy.term] at hmessages
    cases message with
    | none => exact hmessages
    | some m => exact List.forall_mem_cons.2 ⟨hmessage m rfl, hmessages⟩

theorem ends_openRound (clock : Clock) (x : Node)
    : EStateM.Ends (x.Quiet ·) (fun messages _ => ∀ m ∈ messages, m.2.term = x.term)
        (openRound clock x) := by
  unfold openRound
  apply quietly_ensureLeader.ends_bind
  intro _ y hxy
  rw [bind_get]
  apply EStateM.Ends.bind (x := (List.mapM _ _ : NodeM _) clock) (ends_roundMessages y.peers clock y)
  intro messages z hyz hmessages
  refine ⟨hyz, ?_⟩
  rw [← hxy.term]
  exact hmessages

theorem quietly_propose (proposal : Proposal) : Quietly (propose proposal) := by
  unfold propose
  apply quietly_ensureLeader.bind
  intro _
  apply quietly_get.bind
  intro node
  split
  . exact quietly_throw _
  . split
    . exact quietly_pure _
    . apply (quietly_appendLog _).bind
      intro _
      apply (quietly_enlist _ _).bind
      intro ticket
      apply quietly_commitByMajority.bind
      exact fun _ => quietly_pure _

theorem quietly_reconcile (snapshotIndex : Nat) (entries : List LogEntry)
    : Quietly (reconcile snapshotIndex entries) := by
  intro clock x
  have htold : ∀ {y : Node} (pending settled), x.Quiet y → x.Quiet { y with pending, settled } :=
    fun _ _ h => h.trans (.of_log rfl rfl rfl rfl rfl)
  have hdiscarded : ∀ {y : Node} {index : Nat}, y.commitIndex < index → x.Quiet y →
      EStateM.Ends (x.Quiet ·) (fun _ _ => True) (onLog (LogStore.discardFrom index) clock y) := by
    intro y index _ h
    have hends := quietly_onLog (fun _ _ hs => LogStore.ends_discardFrom hs index) clock y
    exact hends.imp (fun _ hyz => h.trans hyz) fun _ _ _ hq => hq
  exact (ends_reconcile htold hdiscarded (.refl x) _ _).imp (fun _ h => h) fun _ _ _ _ => trivial

end NodeM

end ReplicatedStore
