import ReplicatedStore.Proofs.Consensus.Clients
import ReplicatedStore.Proofs.Storage.Sessions

/-!
Properties of a node that an action leaves as they are, however it ends: one action after another, applying
what is committed, and comparing the log with the entries of a leader.
-/

namespace ReplicatedStore

def Node.CaughtUp (x : Node) : Prop :=
  x.halted = false → x.commitIndex ≤ x.lastApplied

namespace NodeM

variable {α β : Type} {clock : Clock} {x : Node} {P : Node → Prop}

def Preserves (P : Node → Prop) (action : NodeM α) : Prop :=
  ∀ clock x, P x → EStateM.Ends P (fun _ _ => True) (action clock x)

theorem preserves_pure (a : α) : Preserves P (pure a) :=
  fun _ _ h => ⟨h, trivial⟩

theorem preserves_throw (e : Error) : Preserves P (throw e : NodeM α) :=
  fun _ _ h => h

theorem preserves_get : Preserves P get :=
  fun _ _ h => ⟨h, trivial⟩

theorem preserves_modify {g : Node → Node} (h : ∀ x, P x → P (g x)) : Preserves P (modify g) :=
  fun _ x hx => ⟨h x hx, trivial⟩

theorem Preserves.ends_bind {action : NodeM α} {f : α → NodeM β} {Q : β → Node → Prop} (h : Preserves P action)
    (hx : P x) (hf : ∀ a y, P y → EStateM.Ends P Q (f a clock y))
    : EStateM.Ends P Q ((action >>= f) clock x) := by
  apply EStateM.Ends.bind (x := action clock) (h clock x hx)
  exact fun a y hy _ => hf a y hy

theorem Preserves.bind {action : NodeM α} {f : α → NodeM β} (h : Preserves P action)
    (hf : ∀ a, Preserves P (f a))
    : Preserves P (action >>= f) :=
  fun clock _ hx => h.ends_bind hx fun a y hy => hf a clock y hy

theorem Preserves.and {P' : Node → Prop} {action : NodeM α} (h : Preserves P action) (h' : Preserves P' action)
    : Preserves (fun x => P x ∧ P' x) action := by
  intro clock x hx
  have hends := h clock x hx.1
  have hends' := h' clock x hx.2
  cases hr : action clock x with
  | ok a y =>
    rw [hr] at hends hends'
    exact ⟨⟨hends.1, hends'.1⟩, trivial⟩
  | error e y =>
    rw [hr] at hends hends'
    exact ⟨hends, hends'⟩

theorem preserves_modify_bind {g : Node → Node} {f : PUnit → NodeM β} (h : ∀ x, P x → P (g x))
    (hf : ∀ a, Preserves P (f a))
    : Preserves P (modify g >>= f) :=
  (preserves_modify h).bind hf

theorem Preserves.map {action : NodeM α} (h : Preserves P action) (f : α → β) : Preserves P (f <$> action) := by
  rw [← bind_pure_comp]
  exact h.bind fun _ => preserves_pure _

theorem Preserves.attempt {action : NodeM α} (h : Preserves P action) : Preserves P (attempt action) :=
  fun clock x hx => ends_attempt (h clock x hx)

theorem preserves_mapM {f : β → NodeM α} (h : ∀ b, Preserves P (f b)) (bs : List β) : Preserves P (bs.mapM f) := by
  induction bs with
  | nil => exact preserves_pure _
  | cons b rest ih =>
    rw [List.mapM_cons]
    exact (h b).bind fun _ => ih.bind fun _ => preserves_pure _

theorem ends_return {action : NodeM α} (h : EStateM.Ends P (fun _ _ => True) (action clock x)) (f : α → β)
    : EStateM.Ends P (fun _ _ => True) ((action >>= fun a => pure (f a)) clock x) := by
  apply EStateM.Ends.bind (x := action clock) h
  exact fun _ y hy _ => ⟨hy, trivial⟩

theorem attempt_putSnapshot (clock : Clock) (x : Node) (index term : Nat) (data : Bytes)
    : ∃ result, attempt (onLog (LogStore.putSnapshot index term data)) clock x
        = .ok result { x with log := x.log.after (.putSnapshot index term data) } := by
  unfold LogStore.after LogCall.perform
  dsimp only
  cases hput : LogStore.putSnapshot index term data x.log with
  | ok a log => exact ⟨_, attempt_ok (onLog_ok hput)⟩
  | error e log => exact ⟨_, attempt_error (onLog_error hput)⟩

structure Survives (P : Node → Prop) : Prop where
  halted : ∀ {x : Node}, P x → P { x with halted := true }
  told : ∀ {x : Node} (announced pending settled), P x → P { x with announced, pending, settled }
  applied : ∀ {x : Node} {entry : LogEntry} {map : KeyMap}, x.lastApplied < x.commitIndex →
    x.log.get? (x.lastApplied + 1) = some entry → change entry x.map = .ok map → P x →
    P { x with map, lastApplied := x.lastApplied + 1 }
  folded : ∀ {x : Node} {term : Nat}, x.log.snapshotIndex < x.lastApplied →
    x.log.termAt? x.lastApplied = some term → P x →
    P { x with log := x.log.after (.putSnapshot x.lastApplied term x.map.encode) }

namespace Survives

theorem caughtUp (h : Survives P) : Survives (fun x => P x ∧ x.CaughtUp) where
  halted hx := ⟨h.halted hx.1, nofun⟩
  told announced pending settled hx := ⟨h.told announced pending settled hx.1, hx.2⟩
  applied hlt hget hchange hx :=
    ⟨h.applied hlt hget hchange hx.1, fun hrunning => absurd (hx.2 hrunning) (Nat.not_le.2 hlt)⟩
  folded hlt hterm hx := ⟨h.folded hlt hterm hx.1, hx.2⟩

theorem compact (h : Survives P) : Preserves P compact := by
  intro clock x hx
  unfold NodeM.compact
  rw [bind_get]
  split
  . exact ⟨hx, trivial⟩
  next hbehind =>
  cases hterm : x.log.termAt? x.lastApplied with
  | none => exact ⟨hx, trivial⟩
  | some term =>
    obtain ⟨result, hattempt⟩ := attempt_putSnapshot clock x x.lastApplied term x.map.encode
    dsimp only
    rw [bind_of_ok hattempt]
    exact ⟨h.folded (by omega) hterm hx, trivial⟩

theorem applyNext (h : Survives P) (clock : Clock) (hx : P x) {count : Nat}
    (hcount : x.commitIndex - x.lastApplied = count)
    : EStateM.Ends (fun y => P y ∧ y.CaughtUp) (fun _ _ => True) (applyNext count clock x) := by
  -- the induction is on the number of entries to apply
  induction count generalizing x with
  | zero => exact ⟨⟨hx, fun _ => Nat.sub_eq_zero_iff_le.1 hcount⟩, trivial⟩
  | succ count ih =>
    have hhalted : P { x with halted := true } ∧ Node.CaughtUp { x with halted := true } :=
      ⟨h.halted hx, nofun⟩
    unfold NodeM.applyNext
    rw [bind_get]
    cases hget : x.log.get? (x.lastApplied + 1) with
    | none => exact ⟨hhalted, trivial⟩
    | some entry =>
      dsimp only
      cases hchange : change entry x.map with
      | error e => exact ⟨hhalted, trivial⟩
      | ok map =>
        have happlied := h.applied (by omega) hget hchange hx
        have hcount : x.commitIndex - (x.lastApplied + 1) = count := by omega
        dsimp only
        rw [bind_modify]
        cases hwaiter : x.pending.lookup (x.lastApplied + 1) with
        | none =>
          rw [bind_of_ok (show resolve _ _ clock _ = .ok () _ by rw [resolve_eq, hwaiter])]
          exact ih happlied hcount
        | some waiter =>
          rw [bind_of_ok (show resolve _ _ clock _ = .ok () _ by rw [resolve_eq, hwaiter])]
          exact ih (h.told _ _ _ happlied) hcount

theorem applyBacklog (h : Survives P) (clock : Clock) (hx : P x)
    : EStateM.Ends (fun y => P y ∧ y.CaughtUp) (fun _ _ => True) (applyBacklog clock x) := by
  unfold NodeM.applyBacklog
  rw [bind_get]
  split
  . next hhalted => exact ⟨⟨hx, fun hrunning => absurd (hhalted.symm.trans hrunning) (by decide)⟩, trivial⟩
  apply EStateM.Ends.bind (x := NodeM.applyNext _ clock) (h.applyNext clock hx rfl)
  intro applied y hy _
  beta_reduce
  split
  . rw [bind_modify]
    exact h.caughtUp.compact clock _ (h.caughtUp.told y.lastApplied y.pending y.settled hy)
  . exact ⟨hy, trivial⟩

theorem commitThrough (h : Survives P) (clock : Clock) (hx : P x) {index : Nat}
    (hcommitted : x.commitIndex < index → P { x with commitIndex := index })
    : EStateM.Ends P (fun _ _ => True) (commitThrough index clock x) := by
  unfold NodeM.commitThrough
  rw [bind_get]
  split
  . next hlt =>
    rw [bind_modify]
    exact (h.applyBacklog clock (hcommitted hlt)).imp (fun _ hy => hy.1) fun _ _ _ hq => hq
  . exact ⟨hx, trivial⟩

end Survives

theorem ends_reconcile (htold : ∀ {y : Node} (pending settled), P y → P { y with pending, settled })
    (hdiscarded : ∀ {y : Node} {index : Nat}, y.commitIndex < index → P y →
      EStateM.Ends P (fun _ _ => True) (onLog (LogStore.discardFrom index) clock y))
    (hx : P x) (index : Nat) (entries : List LogEntry)
    : EStateM.Ends P (fun missing _ => missing ⊆ entries) (reconcile index entries clock x) := by
  induction entries with
  | nil => exact ⟨hx, fun _ he => he⟩
  | cons entry rest ih =>
    have hrest : EStateM.Ends P (fun missing _ => missing ⊆ entry :: rest) (reconcile index rest clock x) :=
      ih.imp (fun _ hy => hy) fun _ _ _ hsub => fun _ he => List.mem_cons_of_mem _ (hsub he)
    have hmissing : entry :: rest.filter (index < ·.index) ⊆ entry :: rest :=
      List.cons_subset_cons _ List.filter_sublist.subset
    unfold reconcile
    split
    . exact hrest
    rw [bind_get]
    dsimp only
    cases x.log.termAt? entry.index with
    | none => exact ⟨hx, hmissing⟩
    | some term =>
      dsimp only
      split
      . exact hrest
      rw [bind_get]
      split
      . exact hx
      next huncommitted =>
      apply EStateM.Ends.bind (x := onLog (LogStore.discardFrom entry.index) clock)
        (hdiscarded (Nat.not_le.1 huncommitted) hx)
      intro _ y hy _
      beta_reduce
      rw [bind_of_ok (rejectFrom_eq entry.index)]
      exact ⟨htold _ _ hy, hmissing⟩

end NodeM

end ReplicatedStore
