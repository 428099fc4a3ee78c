import ReplicatedStore.Proofs.Consensus.Reaches

/-!
What clients are told, and when: every function here changes who waits and what was settled, and
nothing else of the node.
-/

namespace ReplicatedStore

namespace NodeM

variable {clock : Clock} {node : Node}

def outcomes (p : Nat → Bool) (outcome : Nat → Error) (pending : List (Nat × Waiter))
    : List (Nat × Except Error Unit) :=
  (pending.filter fun entry => p entry.1).map fun entry =>
    (entry.2.ticket, .error (outcome entry.1))

theorem ne_ok_of_mem_outcomes {p : Nat → Bool} {outcome : Nat → Error}
    {pending : List (Nat × Waiter)} {o : Nat × Except Error Unit} (ho : o ∈ outcomes p outcome pending)
    : o.2 ≠ .ok () := by
  obtain ⟨w, -, rfl⟩ := List.mem_map.1 ho
  intro hok
  cases hok

theorem outcomes_cons_of_pos {p : Nat → Bool} (outcome : Nat → Error) {index : Nat}
    (waiter : Waiter) (rest : List (Nat × Waiter)) (h : p index = true)
    : outcomes p outcome ((index, waiter) :: rest)
        =
      (waiter.ticket, .error (outcome index)) :: outcomes p outcome rest := by
  simp [outcomes, h]

theorem outcomes_cons_of_neg {p : Nat → Bool} (outcome : Nat → Error) {index : Nat}
    (waiter : Waiter) (rest : List (Nat × Waiter)) (h : ¬ p index = true)
    : outcomes p outcome ((index, waiter) :: rest) = outcomes p outcome rest := by
  simp [outcomes, h]

theorem settleLoop_eq (P : Nat → Prop) [DecidablePred P] (outcome : Nat → Error)
    (pending : List (Nat × Waiter))
    : (forIn pending PUnit.unit fun entry _ =>
        match entry with
        | (index, waiter) =>
          if P index then do
            settle waiter.ticket (.error (outcome index))
            pure (ForInStep.yield PUnit.unit)
          else pure (ForInStep.yield PUnit.unit) : NodeM PUnit) clock node
        =
      .ok ⟨⟩ { node with settled := node.settled ++ outcomes (fun i => P i) outcome pending } := by
  induction pending generalizing node with
  | nil =>
    rw [show outcomes (fun i => P i) outcome [] = [] from rfl, List.append_nil]
    rfl
  | cons entry rest ih =>
    obtain ⟨index, waiter⟩ := entry
    rw [List.forIn_cons]
    by_cases h : P index
    . rw [outcomes_cons_of_pos _ _ _ (by simpa using h)]
      have hstep : (if P index then do
            settle waiter.ticket (.error (outcome index))
            pure (ForInStep.yield PUnit.unit)
          else pure (ForInStep.yield PUnit.unit) : NodeM _) clock node
          = .ok (.yield ⟨⟩) { node with
              settled := node.settled ++ [(waiter.ticket, .error (outcome index))] } := by
        rw [if_pos h]
        rfl
      rw [bind_of_ok hstep]
      refine ih.trans ?_
      simp
    . rw [outcomes_cons_of_neg _ _ _ (by simpa using h)]
      have hstep : (if P index then do
            settle waiter.ticket (.error (outcome index))
            pure (ForInStep.yield PUnit.unit)
          else pure (ForInStep.yield PUnit.unit) : NodeM _) clock node
          = .ok (.yield ⟨⟩) node := by
        rw [if_neg h]
        rfl
      rw [bind_of_ok hstep]
      exact ih

theorem settleWhere_eq (p : Nat → Bool) (outcome : Nat → Error)
    : settleWhere p outcome clock node
        =
      .ok () { node with
        settled := node.settled ++ outcomes p outcome node.pending
        pending := node.pending.filter fun (index, _) => !p index } := by
  unfold settleWhere
  rw [bind_get]
  rw [bind_of_ok (settleLoop_eq (fun i => p i = true) outcome node.pending)]
  simp only [Bool.decide_eq_true]
  rfl

theorem enlist_eq (index term : Nat)
    : enlist index term clock node
        =
      .ok node.nextTicket { node with
        nextTicket := node.nextTicket + 1
        settled := node.settled ++ outcomes (fun i => i = index)
          (fun _ => .indeterminate s!"entry {index} was abandoned before it resolved") node.pending
        pending := node.pending.filter (·.1 < index) ++ (index, ⟨node.nextTicket, term⟩) ::
          node.pending.filter (index < ·.1) } := by
  unfold enlist
  rw [bind_get]
  dsimp only
  rw [bind_of_ok (settleLoop_eq (fun i => i = index) (fun _ => .indeterminate _) node.pending)]
  rfl

theorem rejectFrom_eq (index : Nat)
    : rejectFrom index clock node
        =
      .ok () { node with
        settled := node.settled ++ outcomes (index ≤ ·) (fun _ => .notLeader node.leader) node.pending
        pending := node.pending.filter fun (i, _) => !decide (index ≤ i) } := by
  unfold rejectFrom
  rw [bind_get]
  exact settleWhere_eq _ _

theorem stop_eq
    : stop clock node
        =
      .ok () { node with
        halted := true
        role := .follower
        leader := none
        settled := node.settled ++ outcomes (fun _ => true)
          (fun index => .indeterminate s!"node stopped before entry {index} resolved") node.pending
        pending := node.pending.filter fun _ => false } := by
  unfold stop
  rw [bind_modify]
  exact settleWhere_eq _ _

theorem resolve_eq (index term : Nat)
    : resolve index term clock node
        =
      match node.pending.lookup index with
      | none => .ok () node
      | some waiter =>
        .ok () { node with
          pending := node.pending.filter (·.1 ≠ index)
          settled := node.settled ++ [(waiter.ticket,
            if waiter.term = term then .ok () else .error (.notLeader node.leader))] } := by
  unfold resolve
  rw [bind_get]
  cases node.pending.lookup index <;> rfl

end NodeM

end ReplicatedStore
