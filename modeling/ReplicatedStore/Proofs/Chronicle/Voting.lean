import ReplicatedStore.Proofs.Chronicle.Step

/-!
Terms, votes and elections leave a chronicle lawful.
-/

namespace ReplicatedStore

namespace Chronicle

variable {ids : List NodeId} {c c' c'' : Chronicle} {n x : NodeId} {h : History} {t t₀ i : Nat}
  {e : LogEntry}

namespace Lawful

theorem advance_extends (ht : c.term n < t) : c.Extends (c.advance n t) :=
  { Extends.refl c with
    term := by
      intro id
      simp only [advance, Function.update_apply]
      split
      . next h =>
        rw [h]
        omega
      . omega }

theorem advance (hc : Lawful ids c) (ht : c.term n < t) : Lawful ids (c.advance n t) := by
  have he := advance_extends ht
  have hterm : ∀ id, c.term id ≤ (c.advance n t).term id := he.term
  exact {
    held_sound := fun id => (hc.held_sound id).mono he
    held_term := fun id e hmem => Nat.le_trans (hc.held_term id e hmem) (hterm id)
    log_sound := fun u => (hc.log_sound u).mono he
    log_none := hc.log_none
    opening_isPrefix := hc.opening_isPrefix
    opening_term := hc.opening_term
    log_term := hc.log_term
    leads := fun u id hl => Nat.le_trans (hc.leads u id hl) (hterm id)
    leader_held := by
      intro u id hl hu
      have := hc.leads u id hl
      simp only [Chronicle.advance, Function.update_apply] at hu
      split at hu
      . next heq =>
        rw [heq] at this
        omega
      . exact hc.leader_held u id hl hu
    vote_term := fun id u x hv => Nat.le_trans (hc.vote_term id u x hv) (hterm id)
    stands := hc.stands
    ballot_sound := fun id u x hv => (hc.ballot_sound id u x hv).mono he
    ballot_term := hc.ballot_term
    granted := hc.granted
    elected := hc.elected
    acked_leader := hc.acked_leader
    acked_term := fun id u ha => Nat.le_trans (hc.acked_term id u ha) (hterm id)
    acked_le := hc.acked_le
    kept := by
      intro id u i hi hia
      cases hc.kept id u i hi hia with
      | inl hp => exact .inl hp
      | inr hl =>
        right
        apply hl.mono he
        . exact Nat.le_trans hia (hc.acked_le id u)
        . apply hterm }

theorem grant_extends (hfree : c.vote n (c.term n) = none) : c.Extends (c.grant n x) :=
  { Extends.refl c with
    vote := by
      intro id u y hv
      simp only [grant, update_update_apply]
      split
      . next h =>
        rw [h.1, h.2, hfree] at hv
        contradiction
      . exact hv }

theorem retains_of_upToDate (hc : Lawful ids c) {ballot : History} (hs : c.Sound ballot)
    (hterm : ∀ e ∈ ballot, e.term < c.term n) (hu : History.UpToDate ballot (c.held n))
    : c.Retains n (c.term n) ballot (c.term n) := by
  intro t₀ i ht hi hia hti
  cases hc.kept n t₀ i hi hia with
  | inr hl => exact .inr hl
  | inl hp =>
    have hlen := Nat.le_trans hia (hc.acked_le n t₀)
    have hheld : i ≤ (c.held n).length := by
      have := hp.length_le
      rw [List.length_take] at this
      omega
    have hlast : t₀ ≤ History.lastTerm (c.held n) := by
      calc t₀
        _ = History.termAt (c.log t₀) i := hti.symm
        _ = History.termAt ((c.log t₀).take i) i := by rw [History.termAt_take (Nat.le_refl i)]
        _ = History.termAt (c.held n) i := by
          rw [History.termAt_of_isPrefix hp]
          simp [hlen]
        _ ≤ History.lastTerm (c.held n) := hc.le_lastTerm (hc.held_sound n) hheld
    rcases hu with hlt | ⟨heq, hle⟩
    . have hne : 0 < ballot.length := by
        by_contra hzero
        have : ballot = [] := by
          apply List.eq_nil_of_length_eq_zero
          omega
        rw [this] at hlt
        simp [History.lastTerm] at hlt
      obtain ⟨e, he, heq⟩ := History.lastTerm_mem hne
      -- the leader whose entry the ballot ends with either had the confirmed entries or had lost them
      by_cases hopening : (c.log t₀).take i <+: c.opening (History.lastTerm ballot)
      . left
        apply hopening.trans
        cases List.prefix_or_prefix_of_prefix (hs.isPrefix_log hne) (hc.opening_isPrefix _) with
        | inr h => exact h
        | inl h =>
          have := hc.opening_term _ e (h.subset he)
          omega
      . right
        have := hterm e he
        exact ⟨History.lastTerm ballot, by omega, by omega, hs.led_lastTerm hne, hopening⟩
    . left
      apply hp.trans
      have hlog := (hc.held_sound n).isPrefix_log (by omega)
      have hlog' := hs.isPrefix_log (by omega)
      rw [← heq] at hlog'
      exact List.prefix_of_prefix_length_le hlog hlog' hle

theorem grant (hc : Lawful ids c) (hfree : c.vote n (c.term n) = none)
    (hx : c.vote x (c.term n) = some x)
    (hu : History.UpToDate (c.ballot (c.term n) x) (c.held n))
    : Lawful ids (c.grant n x) := by
  have he := grant_extends (x := x) hfree
  have hvote : ∀ id t y, (c.grant n x).vote id t = some y →
      c.vote id t = some y ∨ id = n ∧ t = c.term n ∧ y = x := by
    intro id t y hv
    simp only [Chronicle.grant, update_update_apply] at hv
    split at hv
    . next h => exact .inr ⟨h.1, h.2, (Option.some.inj hv).symm⟩
    . exact .inl hv
  exact { hc with
    held_sound := fun id => (hc.held_sound id).mono he
    log_sound := fun t => (hc.log_sound t).mono he
    vote_term := by
      intro id t y hv
      rcases hvote id t y hv with hv | ⟨rfl, rfl, -⟩
      . exact hc.vote_term id t y hv
      . exact Nat.le_refl _
    stands := by
      intro id t y hv
      apply he.vote
      rcases hvote id t y hv with hv | ⟨-, rfl, rfl⟩
      . exact hc.stands id t y hv
      . exact hx
    ballot_sound := by
      intro id t y hv
      rcases hvote id t y hv with hv | ⟨-, rfl, rfl⟩
      . exact (hc.ballot_sound id t y hv).mono he
      . exact (hc.ballot_sound _ _ _ hx).mono he
    ballot_term := by
      intro id t y hv
      rcases hvote id t y hv with hv | ⟨-, rfl, rfl⟩
      . exact hc.ballot_term id t y hv
      . exact hc.ballot_term _ _ _ hx
    granted := by
      intro id t y hv
      apply hc.retains_mono he rfl
      rcases hvote id t y hv with hv | ⟨rfl, rfl, rfl⟩
      . exact hc.granted id t y hv
      . exact hc.retains_of_upToDate (hc.ballot_sound _ _ _ hx) (hc.ballot_term _ _ _ hx) hu
    elected := fun t y hl => hc.elected_carry he rfl hl
    kept := fun id t i hi hia => hc.kept_mono he rfl rfl id hi hia }

theorem campaign_extends (hc : Lawful ids c) : c.Extends (c.campaign n) :=
  { Extends.refl c with
    term := by
      intro id
      simp only [Chronicle.campaign, Function.update_apply]
      split
      . next h =>
        rw [h]
        omega
      . omega
    vote := by
      intro id u y hv
      simp only [Chronicle.campaign, update_update_apply]
      split
      . next h =>
        rw [h.1, h.2, hc.vote_none (Nat.lt_succ_self _)] at hv
        contradiction
      . exact hv
    ballot := by
      intro u y hv
      simp only [Chronicle.campaign, update_update_apply]
      split
      . next h =>
        rw [h.1, h.2, hc.vote_none (Nat.lt_succ_self _)] at hv
        contradiction
      . rfl }

theorem campaign (hc : Lawful ids c) : Lawful ids (c.campaign n) := by
  have he : c.Extends (c.campaign n) := hc.campaign_extends
  have hterm : ∀ id, c.term id ≤ (c.campaign n).term id := he.term
  have hown : (c.campaign n).term n = c.term n + 1 := by simp [Chronicle.campaign]
  have hballot : ∀ t y, c.vote y t = some y → (c.campaign n).ballot t y = c.ballot t y := he.ballot
  have hown_ballot : (c.campaign n).ballot (c.term n + 1) n = c.held n := by
    simp [Chronicle.campaign]
  -- the one new vote is the vote of the candidate for itself
  have hvote : ∀ id t y, (c.campaign n).vote id t = some y →
      c.vote id t = some y ∨ id = n ∧ t = c.term n + 1 ∧ y = n := by
    intro id t y hv
    simp only [Chronicle.campaign, update_update_apply] at hv
    split at hv
    . next h => exact .inr ⟨h.1, h.2, (Option.some.inj hv).symm⟩
    . exact .inl hv
  exact { hc with
    held_sound := fun id => (hc.held_sound id).mono he
    held_term := fun id e hmem => Nat.le_trans (hc.held_term id e hmem) (hterm id)
    log_sound := fun t => (hc.log_sound t).mono he
    leads := fun t id hl => Nat.le_trans (hc.leads t id hl) (hterm id)
    leader_held := by
      intro t id hl ht
      have := hc.leads t id hl
      by_cases hid : id = n
      . rw [hid, hown] at ht
        rw [hid] at this
        omega
      . simp only [Chronicle.campaign, Function.update_apply, if_neg hid] at ht
        exact hc.leader_held t id hl ht
    vote_term := by
      intro id t y hv
      rcases hvote id t y hv with hv | ⟨rfl, rfl, -⟩
      . exact Nat.le_trans (hc.vote_term id t y hv) (hterm id)
      . omega
    stands := by
      intro id t y hv
      rcases hvote id t y hv with hv | ⟨rfl, rfl, rfl⟩
      . exact he.vote y t y (hc.stands id t y hv)
      . exact hv
    ballot_sound := by
      intro id t y hv
      rcases hvote id t y hv with hv | ⟨rfl, rfl, rfl⟩
      . rw [hballot t y (hc.stands id t y hv)]
        exact (hc.ballot_sound id t y hv).mono he
      . rw [hown_ballot]
        exact (hc.held_sound _).mono he
    ballot_term := by
      intro id t y hv
      rcases hvote id t y hv with hv | ⟨rfl, rfl, rfl⟩
      . rw [hballot t y (hc.stands id t y hv)]
        exact hc.ballot_term id t y hv
      . rw [hown_ballot]
        intro e hmem
        have := hc.held_term _ e hmem
        omega
    granted := by
      intro id t y hv
      rcases hvote id t y hv with hv | ⟨rfl, rfl, rfl⟩
      . rw [hballot t y (hc.stands id t y hv)]
        exact hc.retains_mono he rfl (hc.granted id t y hv)
      . rw [hown_ballot]
        -- its ballot is what it holds, so what it keeps of its acknowledgements is there
        intro t₀ i _ hi hia _
        cases hc.kept_mono he rfl rfl _ hi hia with
        | inl hp => exact .inl hp
        | inr hl =>
          rw [hown] at hl
          exact .inr hl
    elected := fun t y hl => hc.elected_carry he rfl hl
    acked_term := fun id t ha => Nat.le_trans (hc.acked_term id t ha) (hterm id)
    kept := fun id t i hi hia => hc.kept_mono he rfl rfl id hi hia }

theorem win_extends (hc : Lawful ids c) (hl : c.leader (c.term n) = none)
    : c.Extends (c.win n) :=
  { Extends.refl c with
    leader := by
      intro t y hy
      simp only [Chronicle.win, Function.update_apply]
      split
      . next ht =>
        rw [ht, hl] at hy
        contradiction
      . exact hy
    opening := by
      intro t ht
      simp only [Chronicle.win, Function.update_apply]
      split
      . next heq =>
        rw [heq] at ht
        contradiction
      . rfl
    log := by
      intro t
      simp only [Chronicle.win, Function.update_apply]
      split
      . next heq =>
        rw [heq, hc.log_none _ hl]
        simp
      . exact List.prefix_refl _ }

theorem win_retains (hc : Lawful ids c) (hl : c.leader (c.term n) = none) {id : NodeId}
    (hvote : c.vote id (c.term n) = some n)
    : (c.win n).Retains id (c.term n) (c.ballot (c.term n) n) (c.term n - 1) := by
  apply hc.retains_mono (hc.win_extends hl) rfl
  intro t₀ i ht hi hia hti
  cases hc.granted id _ _ hvote t₀ i ht hi hia hti with
  | inl hp => exact .inl hp
  | inr hlost =>
    obtain ⟨u, hu, hut, hled, hmissing⟩ := hlost
    have : u ≠ c.term n := by
      rintro rfl
      contradiction
    exact .inr ⟨u, hu, by omega, hled, hmissing⟩

theorem win (hc : Lawful ids c) {quorum : List NodeId} (hq : IsQuorum ids quorum)
    (hvotes : ∀ id ∈ quorum, c.vote id (c.term n) = some n)
    (hheld : c.held n = c.ballot (c.term n) n) (hnew : c.leader (c.term n) ≠ some n)
    : Lawful ids (c.win n) := by
  have hl : c.leader (c.term n) = none := hc.leader_none hq hvotes hnew
  have he : c.Extends (c.win n) := hc.win_extends hl
  -- any one voter knows that the ballot is older than the term
  obtain ⟨voter, hvoter, -⟩ := hq.meet hq
  have hballot := hc.ballot_term voter _ n (hvotes voter hvoter)
  have hleader : ∀ t y, (c.win n).leader t = some y →
      c.leader t = some y ∨ t = c.term n ∧ y = n := by
    intro t y hy
    simp only [Chronicle.win, Function.update_apply] at hy
    split at hy
    . next ht => exact .inr ⟨ht, (Option.some.inj hy).symm⟩
    . exact .inl hy
  have hlog : (c.win n).log (c.term n) = c.held n := by simp [Chronicle.win]
  have hopening : (c.win n).opening (c.term n) = c.held n := by simp [Chronicle.win]
  have hlog_other : ∀ t, t ≠ c.term n → (c.win n).log t = c.log t := by
    intro t ht
    simp [Chronicle.win, ht]
  have hopening_other : ∀ t, t ≠ c.term n → (c.win n).opening t = c.opening t := by
    intro t ht
    simp [Chronicle.win, ht]
  exact { hc with
    held_sound := fun id => (hc.held_sound id).mono he
    log_sound := (Function.forall_update_iff c.log fun _ h => (c.win n).Sound h).2
      ⟨(hc.held_sound n).mono he, fun t _ => (hc.log_sound t).mono he⟩
    log_none := by
      intro t ht
      by_cases heq : t = c.term n
      . simp [Chronicle.win, heq] at ht
      . rw [hlog_other t heq]
        apply hc.log_none
        simpa [Chronicle.win, Function.update_apply, heq] using ht
    opening_isPrefix := by
      intro t
      by_cases ht : t = c.term n
      . simp only [ht, hlog, hopening, List.prefix_rfl]
      . rw [hlog_other t ht, hopening_other t ht]
        exact hc.opening_isPrefix t
    opening_term := (Function.forall_update_iff c.opening fun t h => ∀ e ∈ h, e.term < t).2
      ⟨hheld ▸ hballot, fun t _ => hc.opening_term t⟩
    log_term := by
      intro t
      by_cases ht : t = c.term n
      . rw [ht, hlog, hopening]
        simp
      . rw [hlog_other t ht, hopening_other t ht]
        exact hc.log_term t
    leads := by
      intro t y hy
      rcases hleader t y hy with hy | ⟨rfl, rfl⟩
      . exact hc.leads t y hy
      . exact Nat.le_refl _
    leader_held := by
      intro t y hy ht
      rcases hleader t y hy with hy | ⟨rfl, rfl⟩
      . by_cases heq : t = c.term n
        . rw [heq, hl] at hy
          contradiction
        . rw [hlog_other t heq]
          exact hc.leader_held t y hy ht
      . rw [hlog]
        rfl
    ballot_sound := fun id t y hv => (hc.ballot_sound id t y hv).mono he
    granted := fun id t y hv => hc.retains_mono he rfl (hc.granted id t y hv)
    elected := by
      intro t y hy
      rcases hleader t y hy with hy | ⟨rfl, rfl⟩
      . exact hc.elected_carry he rfl hy
      . refine ⟨quorum, hq, fun id hid => ⟨hvotes id hid, ?_⟩⟩
        rw [hopening, hheld]
        exact hc.win_retains hl (hvotes id hid)
    acked_leader := fun id t ha => he.leader_ne (hc.acked_leader id t ha)
    acked_le := fun id t => Nat.le_trans (hc.acked_le id t) (he.log t).length_le
    kept := fun id t i hi hia => hc.kept_mono he rfl rfl id hi hia }

end Lawful

end Chronicle

end ReplicatedStore
