import ReplicatedStore.Proofs.Chronicle.Evolution

/-!
What a quorum confirmed to the leader of a term is in the history of every leader of a later term, so
committed histories never part.
-/

namespace ReplicatedStore

namespace Chronicle

structure Committed (ids : List NodeId) (c : Chronicle) (t i : Nat) : Prop where
  pos : 1 ≤ i
  term : History.termAt (c.log t) i = t
  quorum : ∃ quorum, IsQuorum ids quorum ∧ ∀ id ∈ quorum, i ≤ c.acked id t

/-- A history that is committed by the end of a term. -/
def Settled (ids : List NodeId) (c : Chronicle) (t : Nat) (h : History) : Prop :=
  h = [] ∨ ∃ u i, u ≤ t ∧ Committed ids c u i ∧ h <+: (c.log u).take i

variable {ids : List NodeId} {c c' : Chronicle} {t u i : Nat} {h g : History}

theorem Committed.witness (hc : Committed ids c t i) : ∃ id, i ≤ c.acked id t := by
  obtain ⟨quorum, hq, hacked⟩ := hc.quorum
  obtain ⟨id, hid, -⟩ := hq.meet hq
  exact ⟨id, hacked id hid⟩

theorem Committed.leader_ne (hcom : Committed ids c t i) (hc : Lawful ids c)
    : c.leader t ≠ none := by
  obtain ⟨id, hid⟩ := hcom.witness
  apply hc.acked_leader id
  have := hcom.pos
  omega

theorem Committed.le_length (hcom : Committed ids c t i) (hc : Lawful ids c)
    : i ≤ (c.log t).length := by
  obtain ⟨id, hid⟩ := hcom.witness
  exact Nat.le_trans hid (hc.acked_le id t)

theorem Committed.mono (hcom : Committed ids c t i) (hc : Lawful ids c) (he : c.Extends c')
    : Committed ids c' t i where
  pos := hcom.pos
  term := by
    rw [he.log_termAt (hcom.le_length hc)]
    exact hcom.term
  quorum := by
    obtain ⟨quorum, hq, hacked⟩ := hcom.quorum
    exact ⟨quorum, hq, fun id hid => Nat.le_trans (hacked id hid) (he.acked id t)⟩

theorem Committed.isPrefix_opening (hcom : Committed ids c t i) (hc : Lawful ids c)
    (hlt : t < u) (hl : c.leader u ≠ none)
    : (c.log t).take i <+: c.opening u := by
  -- the induction is on the later term: whoever was elected then met a member of the committing
  -- quorum, and that member's candidate could have lost the entries only to a leader in between
  induction u using Nat.strongRecOn with
  | ind u ih =>
    obtain ⟨x, hx⟩ := Option.ne_none_iff_exists'.1 hl
    obtain ⟨quorum, hq, hacked⟩ := hcom.quorum
    obtain ⟨quorum', hq', helected⟩ := hc.elected u x hx
    obtain ⟨id, hid, hid'⟩ := hq.meet hq'
    have hretains := (helected id hid').2
    cases hretains t i hlt hcom.pos (hacked id hid) hcom.term with
    | inl hp => exact hp
    | inr hlost =>
      obtain ⟨v, hv, hvu, hled, hmissing⟩ := hlost
      have := ih v (by omega) hv hled
      contradiction

theorem Committed.isPrefix_log (hcom : Committed ids c t i) (hc : Lawful ids c)
    (hle : t ≤ u) (hl : c.leader u ≠ none)
    : (c.log t).take i <+: c.log u := by
  cases Nat.eq_or_lt_of_le hle with
  | inl heq =>
    rw [heq]
    exact List.take_prefix _ _
  | inr hlt => exact (hcom.isPrefix_opening hc hlt hl).trans (hc.opening_isPrefix u)

theorem settled_nil (ids : List NodeId) (c : Chronicle) (t : Nat) : Settled ids c t [] :=
  .inl rfl

theorem Settled.of_isPrefix (hs : Settled ids c t h) (hp : g <+: h) : Settled ids c t g := by
  rcases hs with rfl | ⟨u, i, hu, hcom, hlog⟩
  . exact .inl (List.prefix_nil.1 hp)
  . exact .inr ⟨u, i, hu, hcom, hp.trans hlog⟩

theorem Settled.later (hs : Settled ids c t h) (hle : t ≤ u) : Settled ids c u h := by
  rcases hs with rfl | ⟨v, i, hv, hcom, hlog⟩
  . exact .inl rfl
  . exact .inr ⟨v, i, by omega, hcom, hlog⟩

theorem Settled.mono (hs : Settled ids c t h) (hc : Lawful ids c) (he : c.Extends c')
    : Settled ids c' t h := by
  rcases hs with rfl | ⟨u, i, hu, hcom, hlog⟩
  . exact .inl rfl
  . refine .inr ⟨u, i, hu, hcom.mono hc he, ?_⟩
    rw [he.log_take (hcom.le_length hc)]
    exact hlog

theorem Settled.sound (hs : Settled ids c t h) (hc : Lawful ids c) : c.Sound h := by
  rcases hs with rfl | ⟨u, i, -, -, hlog⟩
  . exact sound_nil c
  . exact (hc.log_sound u).of_isPrefix (hlog.trans (List.take_prefix _ _))

theorem Settled.isPrefix_log (hs : Settled ids c t h) (hc : Lawful ids c) (hle : t ≤ u)
    (hl : c.leader u ≠ none)
    : h <+: c.log u := by
  rcases hs with rfl | ⟨v, i, hv, hcom, hlog⟩
  . simp
  . exact hlog.trans (hcom.isPrefix_log hc (by omega) hl)

theorem Settled.prefix_or_prefix (hs : Settled ids c t h) (hs' : Settled ids c u g)
    (hc : Lawful ids c)
    : h <+: g ∨ g <+: h := by
  rcases hs with rfl | ⟨v, i, -, hcom, hlog⟩
  . simp
  . rcases hs' with rfl | ⟨w, j, -, hcom', hlog'⟩
    . simp
    . have hh : Settled ids c v h := .inr ⟨v, i, Nat.le_refl v, hcom, hlog⟩
      have hg : Settled ids c w g := .inr ⟨w, j, Nat.le_refl w, hcom', hlog'⟩
      cases Nat.le_total v w with
      | inl hle =>
        have hled := hcom'.leader_ne hc
        exact List.prefix_or_prefix_of_prefix (hh.isPrefix_log hc hle hled)
          (hg.isPrefix_log hc (Nat.le_refl w) hled)
      | inr hle =>
        have hled := hcom.leader_ne hc
        exact List.prefix_or_prefix_of_prefix (hh.isPrefix_log hc (Nat.le_refl v) hled)
          (hg.isPrefix_log hc hle hled)

theorem Settled.eq_of_length (hs : Settled ids c t h) (hs' : Settled ids c u g)
    (hc : Lawful ids c) (hlen : h.length = g.length)
    : h = g := by
  cases hs.prefix_or_prefix hs' hc with
  | inl hp => exact hp.eq_of_length hlen
  | inr hp => exact (hp.eq_of_length hlen.symm).symm

end Chronicle

end ReplicatedStore
