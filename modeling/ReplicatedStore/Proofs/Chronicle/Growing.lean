import ReplicatedStore.Proofs.Chronicle.Step

/-!
New entries and confirmations leave a chronicle lawful.
-/

namespace ReplicatedStore

namespace Chronicle

variable {ids : List NodeId} {c c' c'' : Chronicle} {n x : NodeId} {h : History} {t t₀ i : Nat}
  {e : LogEntry}

namespace Lawful

theorem extend_extends (hc : Lawful ids c) (hl : c.leader (c.term n) = some n)
    : c.Extends (c.extend n e) :=
  { Extends.refl c with
    log := by
      intro t
      simp only [Chronicle.extend, Function.update_apply]
      split
      . next heq =>
        rw [heq, ← hc.leader_held _ _ hl rfl]
        exact List.prefix_append _ _
      . exact List.prefix_refl _ }

theorem extend (hc : Lawful ids c) (hl : c.leader (c.term n) = some n) (ht : e.term = c.term n)
    (hi : e.index = (c.held n).length + 1)
    : Lawful ids (c.extend n e) := by
  have he : c.Extends (c.extend n e) := hc.extend_extends hl
  have hheld := hc.leader_held _ _ hl rfl
  have hlog : (c.extend n e).log (c.term n) = c.held n ++ [e] := by simp [Chronicle.extend]
  have hsound : (c.extend n e).Sound (c.held n ++ [e]) := by
    apply ((hc.held_sound n).mono he).concat hi
    . rw [ht]
      exact he.leader_ne (by simp [hl])
    . simp only [ht, hlog, List.prefix_rfl]
  exact { hc with
    held_sound := (Function.forall_update_iff c.held fun _ h => (c.extend n e).Sound h).2
      ⟨hsound, fun id _ => (hc.held_sound id).mono he⟩
    held_term := by
      apply (Function.forall_update_iff c.held fun id h => ∀ e' ∈ h, e'.term ≤ c.term id).2
      refine ⟨List.forall_mem_append.2 ⟨hc.held_term n, ?_⟩, fun id _ => hc.held_term id⟩
      intro e' hmem
      rw [List.mem_singleton.1 hmem]
      exact Nat.le_of_eq ht
    log_sound := (Function.forall_update_iff c.log fun _ h => (c.extend n e).Sound h).2
      ⟨hsound, fun t _ => (hc.log_sound t).mono he⟩
    log_none := by
      apply (Function.forall_update_iff c.log fun t h => c.leader t = none → h = []).2
      refine ⟨fun hnone => ?_, fun t _ => hc.log_none t⟩
      rw [hl] at hnone
      contradiction
    opening_isPrefix := fun t => (hc.opening_isPrefix t).trans (he.log t)
    log_term := by
      apply (Function.forall_update_iff c.log fun t h => ∀ e' ∈ h.drop (c.opening t).length, e'.term = t).2
      refine ⟨?_, fun t _ => hc.log_term t⟩
      rw [hheld, List.drop_append_of_le_length (hc.opening_isPrefix _).length_le]
      refine List.forall_mem_append.2 ⟨hc.log_term _, ?_⟩
      intro e' hmem
      rw [List.mem_singleton.1 hmem, ht]
    -- only its own history and log grow, so a leader of another term is not touched
    leader_held := by
      intro t id hl' ht'
      by_cases hid : id = n
      . rw [← ht', hid]
        simp [Chronicle.extend]
      . have hne : t ≠ c.term n := by
          rintro rfl
          exact hid (Option.some.inj (hl'.symm.trans hl))
        simp only [Chronicle.extend, Function.update_of_ne hid, Function.update_of_ne hne]
        exact hc.leader_held t id hl' ht'
    ballot_sound := fun id t y hv => (hc.ballot_sound id t y hv).mono he
    granted := fun id t y hv => hc.retains_mono he rfl (hc.granted id t y hv)
    elected := fun t y hy => hc.elected_carry he rfl hy
    acked_le := fun id t => Nat.le_trans (hc.acked_le id t) (he.log t).length_le
    kept := by
      intro id t i hi' hia
      have hlen := Nat.le_trans hia (hc.acked_le id t)
      rw [he.log_take hlen]
      -- what was acknowledged lies below the entry that is added
      cases hc.kept id t i hi' hia with
      | inr hlost => exact .inr (hlost.mono he hlen (Nat.le_refl _))
      | inl hp =>
        left
        by_cases hid : id = n
        . rw [hid] at hp ⊢
          simp only [Chronicle.extend, Function.update_self]
          exact hp.trans (List.prefix_append _ _)
        . simp only [Chronicle.extend, Function.update_of_ne hid]
          exact hp }

theorem accept_extends : c.Extends (c.accept n h) :=
  { Extends.refl c with }

theorem accept_leader_held (hc : Lawful ids c) (ha : History.Adopts (c.held n) (c.log (c.term n)) h)
    (hl : c.leader (c.term n) = some n)
    : h = c.log (c.term n) := by
  have hheld := hc.leader_held _ n hl rfl
  rcases ha with rfl | ⟨hp, hcommon⟩
  . exact hheld
  . exact hp.eq_of_length_le (hcommon _ (hheld ▸ List.prefix_rfl) List.prefix_rfl).length_le

theorem accept_kept (hc : Lawful ids c) (hl : c.leader (c.term n) ≠ none)
    (ha : History.Adopts (c.held n) (c.log (c.term n)) h) (hi : 1 ≤ i) (hia : i ≤ c.acked n t)
    : (c.log t).take i <+: h ∨ c.Lost t i (c.term n) := by
  cases hc.kept n t i hi hia with
  | inr hlost => exact .inr hlost
  | inl hp =>
    by_cases hlog : (c.log t).take i <+: c.log (c.term n)
    . exact .inl (ha.of_isPrefix hp hlog)
    . right
      -- what the leader lacks, it lacked when it was elected
      have hne : t ≠ c.term n := by
        rintro rfl
        exact hlog (List.take_prefix _ _)
      have hle := hc.acked_term n t (Nat.lt_of_lt_of_le hi hia)
      refine ⟨c.term n, by omega, Nat.le_refl _, hl, ?_⟩
      intro hopening
      exact hlog (hopening.trans (hc.opening_isPrefix _))

theorem accept (hc : Lawful ids c) (hl : c.leader (c.term n) ≠ none)
    (ha : History.Adopts (c.held n) (c.log (c.term n)) h)
    : Lawful ids (c.accept n h) := by
  have he : c.Extends (c.accept n h) := accept_extends
  have hother : ∀ id, id ≠ n → (c.accept n h).held id = c.held id := by
    intro id hid
    simp [Chronicle.accept, hid]
  exact { hc with
    held_sound := by
      apply (Function.forall_update_iff c.held fun _ h' => (c.accept n h).Sound h').2
      refine ⟨Sound.mono ?_ he, fun id _ => (hc.held_sound id).mono he⟩
      rcases ha with rfl | ⟨hp, -⟩
      . exact hc.held_sound n
      . exact (hc.log_sound _).of_isPrefix hp
    held_term := by
      apply (Function.forall_update_iff c.held fun id h' => ∀ e ∈ h', e.term ≤ c.term id).2
      refine ⟨?_, fun id _ => hc.held_term id⟩
      rcases ha with rfl | ⟨hp, -⟩
      . exact hc.held_term n
      . exact fun e hmem => hc.mem_log_term (hp.subset hmem)
    log_sound := fun t => (hc.log_sound t).mono he
    leader_held := by
      intro t id hl' ht
      by_cases hid : id = n
      . rw [hid] at hl' ht ⊢
        rw [← ht] at hl' ⊢
        simp only [Chronicle.accept, Function.update_self]
        exact hc.accept_leader_held ha hl'
      . rw [hother id hid]
        exact hc.leader_held t id hl' ht
    ballot_sound := fun id t y hv => (hc.ballot_sound id t y hv).mono he
    granted := fun id t y hv => hc.retains_mono he rfl (hc.granted id t y hv)
    elected := fun t y hy => hc.elected_carry he rfl hy
    kept := by
      intro id t i hi hia
      by_cases hid : id = n
      . rw [hid] at hia ⊢
        simp only [Chronicle.accept, Function.update_self]
        exact hc.accept_kept hl ha hi hia
      . rw [hother id hid]
        exact hc.kept id t i hi hia }

theorem confirm_extends : c.Extends (c.confirm n i) :=
  { Extends.refl c with
    acked := by
      intro id t
      simp only [Chronicle.confirm, update_update_apply]
      split
      . next h =>
        rw [h.1, h.2]
        exact Nat.le_max_left _ _
      . exact Nat.le_refl _ }

theorem confirm (hc : Lawful ids c) (hl : c.leader (c.term n) ≠ none)
    (hi : i ≤ (c.log (c.term n)).length) (hp : (c.log (c.term n)).take i <+: c.held n)
    : Lawful ids (c.confirm n i) := by
  have he : c.Extends (c.confirm n i) := confirm_extends
  have hacked : ∀ id t, (c.confirm n i).acked id t = c.acked id t ∨
      id = n ∧ t = c.term n ∧ (c.confirm n i).acked id t = max (c.acked n t) i := by
    intro id t
    simp only [Chronicle.confirm, update_update_apply]
    split
    . next h => exact .inr ⟨h.1, h.2, by rw [h.2]⟩
    . exact .inl rfl
  -- a vote in a term leaves no room for confirmations in earlier ones
  have hretains : ∀ id t h u, t ≤ c.term id → c.Retains id t h u →
      (c.confirm n i).Retains id t h u := by
    intro id t h u ht hr
    apply hr.mono he _ (hc.acked_le id) (Nat.le_refl u)
    intro t₀ ht₀
    rcases hacked id t₀ with h | ⟨rfl, rfl, -⟩
    . exact h
    . omega
  exact { hc with
    held_sound := fun id => (hc.held_sound id).mono he
    log_sound := fun t => (hc.log_sound t).mono he
    ballot_sound := fun id t y hv => (hc.ballot_sound id t y hv).mono he
    granted := fun id t y hv => hretains _ _ _ _ (hc.vote_term id t y hv) (hc.granted id t y hv)
    elected := fun t y hy => hc.elected_mono he hy fun id h u hle hr => hretains id t h u hle hr
    acked_leader := by
      intro id t ha
      rcases hacked id t with h | ⟨-, rfl, -⟩
      . rw [h] at ha
        exact hc.acked_leader id t ha
      . exact hl
    acked_term := by
      intro id t ha
      rcases hacked id t with h | ⟨rfl, rfl, -⟩
      . rw [h] at ha
        exact hc.acked_term id t ha
      . exact Nat.le_refl _
    acked_le := by
      intro id t
      rcases hacked id t with h | ⟨rfl, rfl, h⟩
      . rw [h]
        exact hc.acked_le id t
      . rw [h]
        exact Nat.max_le.2 ⟨hc.acked_le _ _, hi⟩
    kept := by
      intro id t j hj hja
      by_cases hold : j ≤ c.acked id t
      . exact hc.kept id t j hj hold
      . rcases hacked id t with h | ⟨rfl, rfl, h⟩
        . omega
        . left
          rw [h] at hja
          exact (List.take_prefix_take_left (by omega)).trans hp }

end Lawful

end Chronicle

end ReplicatedStore
