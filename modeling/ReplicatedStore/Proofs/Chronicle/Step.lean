import ReplicatedStore.Proofs.Chronicle

/-!
The steps by which the chronicle of a cluster goes on, each taken by one member.
-/

namespace ReplicatedStore

namespace History

def UpToDate (candidate voter : History) : Prop :=
  lastTerm voter < lastTerm candidate ∨
    lastTerm voter = lastTerm candidate ∧ voter.length ≤ candidate.length

def Adopts (old leader new : History) : Prop :=
  new = old ∨ new <+: leader ∧ ∀ p, p <+: old → p <+: leader → p <+: new

theorem Adopts.of_isPrefix {old leader new p : History} (ha : Adopts old leader new)
    (hold : p <+: old) (hleader : p <+: leader)
    : p <+: new := by
  cases ha with
  | inl heq =>
    rw [heq]
    exact hold
  | inr h => exact h.2 p hold hleader

end History

namespace Chronicle

theorem update_update_apply {α β γ : Type} [DecidableEq α] [DecidableEq β] (f : α → β → γ) (a : α) (b : β)
    (v : γ) (a' : α) (b' : β)
    : Function.update f a (Function.update (f a) b v) a' b' = if a' = a ∧ b' = b then v else f a' b' := by
  by_cases ha : a' = a
  . rw [ha, Function.update_self, Function.update_apply]
    simp only [true_and]
  . rw [Function.update_of_ne ha, if_neg fun h => ha h.1]

def advance (c : Chronicle) (n : NodeId) (t : Nat) : Chronicle :=
  { c with term := Function.update c.term n t }

def grant (c : Chronicle) (n x : NodeId) : Chronicle :=
  { c with vote := Function.update c.vote n (Function.update (c.vote n) (c.term n) (some x)) }

def campaign (c : Chronicle) (n : NodeId) : Chronicle :=
  let t := c.term n + 1
  { c with
    term := Function.update c.term n t
    vote := Function.update c.vote n (Function.update (c.vote n) t (some n))
    ballot := Function.update c.ballot t (Function.update (c.ballot t) n (c.held n)) }

def win (c : Chronicle) (n : NodeId) : Chronicle :=
  let t := c.term n
  { c with
    leader := Function.update c.leader t (some n)
    opening := Function.update c.opening t (c.held n)
    log := Function.update c.log t (c.held n) }

def extend (c : Chronicle) (n : NodeId) (e : LogEntry) : Chronicle :=
  let h := c.held n ++ [e]
  { c with
    held := Function.update c.held n h
    log := Function.update c.log (c.term n) h }

def accept (c : Chronicle) (n : NodeId) (h : History) : Chronicle :=
  { c with held := Function.update c.held n h }

def confirm (c : Chronicle) (n : NodeId) (i : Nat) : Chronicle :=
  let t := c.term n
  { c with acked := Function.update c.acked n (Function.update (c.acked n) t (max (c.acked n t) i)) }

/-- The steps of a member. -/
inductive Step (ids : List NodeId) (n : NodeId) (c : Chronicle) : Chronicle → Prop where
  | advance (t : Nat) (ht : c.term n < t) : Step ids n c (c.advance n t)
  | campaign : Step ids n c (c.campaign n)
  | grant (x : NodeId) (hfree : c.vote n (c.term n) = none) (hx : c.vote x (c.term n) = some x)
      (hu : History.UpToDate (c.ballot (c.term n) x) (c.held n)) : Step ids n c (c.grant n x)
  | win (quorum : List NodeId) (hq : IsQuorum ids quorum)
      (hvotes : ∀ id ∈ quorum, c.vote id (c.term n) = some n)
      (hheld : c.held n = c.ballot (c.term n) n) (hnew : c.leader (c.term n) ≠ some n) :
      Step ids n c (c.win n)
  | extend (e : LogEntry) (hl : c.leader (c.term n) = some n) (ht : e.term = c.term n)
      (hi : e.index = (c.held n).length + 1) : Step ids n c (c.extend n e)
  | accept (h : History) (hl : c.leader (c.term n) ≠ none)
      (ha : History.Adopts (c.held n) (c.log (c.term n)) h) : Step ids n c (c.accept n h)
  | confirm (i : Nat) (hl : c.leader (c.term n) ≠ none) (hi : i ≤ (c.log (c.term n)).length)
      (hp : (c.log (c.term n)).take i <+: c.held n) : Step ids n c (c.confirm n i)

variable {ids : List NodeId} {c c' c'' : Chronicle} {n x : NodeId} {h : History} {t t₀ i : Nat}
  {e : LogEntry}

namespace Lawful

theorem vote_none (hc : Lawful ids c) (ht : c.term n < t) : c.vote n t = none := by
  cases hv : c.vote n t with
  | none => rfl
  | some x =>
    have := hc.vote_term n t x hv
    omega

theorem leader_ne (hc : Lawful ids c) (ht : c.term n < t) : c.leader t ≠ some n := by
  intro hl
  have := hc.leads t n hl
  omega

theorem leader_none (hc : Lawful ids c) {quorum : List NodeId} (hq : IsQuorum ids quorum)
    (hvotes : ∀ id ∈ quorum, c.vote id t = some n) (hne : c.leader t ≠ some n)
    : c.leader t = none := by
  cases hl : c.leader t with
  | none => rfl
  | some x =>
    obtain ⟨quorum', hq', helected⟩ := hc.elected t x hl
    obtain ⟨id, hid, hid'⟩ := hq.meet hq'
    have hn := hvotes id hid
    have hx := (helected id hid').1
    rw [hn] at hx
    cases hx
    contradiction

theorem mem_log_term (hc : Lawful ids c) (he : e ∈ c.log t) : e.term ≤ t := by
  rw [← List.take_append_drop (c.opening t).length (c.log t)] at he
  rcases List.mem_append.1 he with he | he
  . rw [← List.prefix_iff_eq_take.1 (hc.opening_isPrefix t)] at he
    have := hc.opening_term t e he
    omega
  . have := hc.log_term t e he
    omega

theorem termAt_mono (hc : Lawful ids c) (hs : c.Sound h) {j : Nat} (hij : i ≤ j) (hj : j ≤ h.length)
    : History.termAt h i ≤ History.termAt h j := by
  cases i with
  | zero => simp
  | succ k =>
    obtain ⟨m, rfl⟩ : ∃ m, j = m + 1 := ⟨j - 1, by omega⟩
    rw [History.termAt_succ (show k < h.length by omega)]
    rw [History.termAt_succ (show m < h.length by omega)]
    apply hc.mem_log_term
    apply (hs.grown m (by omega)).subset
    rw [List.mem_take_iff_getElem]
    exact ⟨k, by omega, rfl⟩

theorem le_lastTerm (hc : Lawful ids c) (hs : c.Sound h) (hi : i ≤ h.length)
    : History.termAt h i ≤ History.lastTerm h :=
  hc.termAt_mono hs hi (Nat.le_refl _)

theorem retains_mono (hc : Lawful ids c) (he : c.Extends c') (hacked : c'.acked = c.acked)
    {id : NodeId} {u : Nat} (hr : c.Retains id t h u)
    : c'.Retains id t h u := by
  apply hr.mono he _ (hc.acked_le id) (Nat.le_refl u)
  intro t₀ _
  rw [hacked]

theorem elected_mono (hc : Lawful ids c) (he : c.Extends c') {y : NodeId} (hy : c.leader t = some y)
    (hretains : ∀ id h u, t ≤ c.term id → c.Retains id t h u → c'.Retains id t h u)
    : ∃ quorum, IsQuorum ids quorum ∧
        ∀ id ∈ quorum, c'.vote id t = some y ∧ c'.Retains id t (c'.opening t) (t - 1) := by
  obtain ⟨quorum, hq, helected⟩ := hc.elected t y hy
  refine ⟨quorum, hq, ?_⟩
  intro id hid
  obtain ⟨hvote, hr⟩ := helected id hid
  rw [he.opening t (by simp [hy])]
  exact ⟨he.vote id t y hvote, hretains id _ _ (hc.vote_term id t y hvote) hr⟩

theorem elected_carry (hc : Lawful ids c) (he : c.Extends c') (hacked : c'.acked = c.acked) {y : NodeId}
    (hy : c.leader t = some y)
    : ∃ quorum, IsQuorum ids quorum ∧
        ∀ id ∈ quorum, c'.vote id t = some y ∧ c'.Retains id t (c'.opening t) (t - 1) :=
  hc.elected_mono he hy fun _ _ _ _ hr => hc.retains_mono he hacked hr

theorem kept_mono (hc : Lawful ids c) (he : c.Extends c') (hheld : c'.held = c.held)
    (hacked : c'.acked = c.acked) (id : NodeId) (hi : 1 ≤ i) (hia : i ≤ c'.acked id t)
    : (c'.log t).take i <+: c'.held id ∨ c'.Lost t i (c'.term id) := by
  rw [hacked] at hia
  have hlen := Nat.le_trans hia (hc.acked_le id t)
  rw [hheld, he.log_take hlen]
  cases hc.kept id t i hi hia with
  | inl hp => exact .inl hp
  | inr hl => exact .inr (hl.mono he hlen (he.term id))

end Lawful

end Chronicle

end ReplicatedStore
