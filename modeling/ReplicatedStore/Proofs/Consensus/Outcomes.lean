import ReplicatedStore.Proofs.Consensus.Clients

/-!
What a client may conclude from a failure: when another entry is committed in the place of its own, its
own never will be.
-/

namespace ReplicatedStore

def Definite {α : Type} : Except Error α → Prop
  | .error (.conflict _) => True
  | .error (.notLeader _) => True
  | _ => False

def Node.clientSide (node : Node)
    : Nat × List (Nat × Waiter) × List (Nat × Except Error Unit) × Nat × Nat :=
  (node.nextTicket, node.pending, node.settled, node.lastApplied, node.announced)

namespace Chronicle

def Barred (K : Cluster) (c : Chronicle) (t i : Nat) : Prop :=
  ∃ u h, Settled K.ids c u h ∧ h.length = i ∧ h.lastTerm ≠ t

def Fulfilled (K : Cluster) (c : Chronicle) (t i : Nat) : Prop :=
  ∃ u h, Settled K.ids c u h ∧ h.length = i ∧ h.lastTerm = t

structure Told (K : Cluster) (excepted : Nat → Prop) (x y : Node) (c : Chronicle) : Prop where
  next : y.nextTicket = x.nextTicket
  waits : y.pending ⊆ x.pending
  news : ∀ o ∈ y.settled, Definite o.2 → o ∈ x.settled ∨
    ∃ w ∈ x.pending, w.2.ticket = o.1 ∧ (excepted w.1 ∨ Barred K c w.2.term w.1)
  wins : ∀ o ∈ y.settled, o.2 = .ok () → o ∈ x.settled ∨
    ∃ w ∈ x.pending, w.2.ticket = o.1 ∧ w.1 ≤ y.lastApplied ∧ Fulfilled K c w.2.term w.1
  applied : x.lastApplied ≤ y.lastApplied
  announced : x.announced ≤ x.lastApplied → y.announced ≤ y.lastApplied

variable {K : Cluster} {excepted : Nat → Prop} {x y z : Node} {c c' : Chronicle} {t i : Nat}

theorem Barred.mono (hb : Barred K c t i) (hc : c.Lawful K.ids) (he : c.Extends c')
    : Barred K c' t i := by
  obtain ⟨u, h, hs, hlength, hterm⟩ := hb
  exact ⟨u, h, hs.mono hc he, hlength, hterm⟩

theorem Fulfilled.mono (hf : Fulfilled K c t i) (hc : c.Lawful K.ids) (he : c.Extends c')
    : Fulfilled K c' t i := by
  obtain ⟨u, h, hs, hlength, hterm⟩ := hf
  exact ⟨u, h, hs.mono hc he, hlength, hterm⟩

theorem Told.of_eq (h : y.clientSide = x.clientSide) : Told K excepted x y c := by
  injection h with hnext h
  injection h with hpending h
  injection h with hsettled h
  injection h with happlied hannounced
  constructor
  case next => exact hnext
  case waits =>
    rw [hpending]
    exact List.Subset.refl _
  case news =>
    rw [hsettled]
    intro o ho _
    exact .inl ho
  case wins =>
    rw [hsettled]
    intro o ho _
    exact .inl ho
  case applied => exact Nat.le_of_eq happlied.symm
  case announced =>
    rw [happlied, hannounced]
    exact id

theorem Told.of_indefinite {p : Nat → Bool} {outcome : Nat → Error}
    (hnext : y.nextTicket = x.nextTicket) (hwaits : y.pending ⊆ x.pending)
    (hsettled : y.settled = x.settled ++ NodeM.outcomes p outcome x.pending)
    (happlied : x.lastApplied ≤ y.lastApplied)
    (hannounced : x.announced ≤ x.lastApplied → y.announced ≤ y.lastApplied)
    (h : ∀ index, ¬ Definite (α := Unit) (.error (outcome index)))
    : Told K excepted x y c where
  next := hnext
  waits := hwaits
  news := by
    rw [hsettled]
    intro o ho hdefinite
    rcases List.mem_append.1 ho with ho | ho
    . exact .inl ho
    . obtain ⟨w, -, rfl⟩ := List.mem_map.1 ho
      exact absurd hdefinite (h w.1)
  wins := by
    rw [hsettled]
    intro o ho hok
    rcases List.mem_append.1 ho with ho | ho
    . exact .inl ho
    . exact absurd hok (NodeM.ne_ok_of_mem_outcomes ho)
  applied := happlied
  announced := hannounced

theorem Told.trans (hxy : Told K excepted x y c) (hyz : Told K excepted y z c')
    (hc : c.Lawful K.ids) (he : c.Extends c')
    : Told K excepted x z c' where
  next := hyz.next.trans hxy.next
  waits := List.Subset.trans hyz.waits hxy.waits
  news := by
    intro o ho hdefinite
    rcases hyz.news o ho hdefinite with ho | ⟨w, hw, hticket, hwhy⟩
    . rcases hxy.news o ho hdefinite with ho | ⟨w, hw, hticket, hwhy⟩
      . exact .inl ho
      . exact .inr ⟨w, hw, hticket, hwhy.imp id (·.mono hc he)⟩
    . exact .inr ⟨w, hxy.waits hw, hticket, hwhy⟩
  wins := by
    intro o ho hok
    rcases hyz.wins o ho hok with ho | ⟨w, hw, hwin⟩
    . rcases hxy.wins o ho hok with ho | ⟨w, hw, hticket, hle, hfulfilled⟩
      . exact .inl ho
      . exact .inr ⟨w, hw, hticket, Nat.le_trans hle hyz.applied, hfulfilled.mono hc he⟩
    . exact .inr ⟨w, hxy.waits hw, hwin⟩
  applied := Nat.le_trans hxy.applied hyz.applied
  announced h := hyz.announced (hxy.announced h)

theorem Told.weaken {excepted' : Nat → Prop} (ht : Told K excepted x y c)
    (h : ∀ i, excepted i → excepted' i)
    : Told K excepted' x y c := { ht with
  news := by
    intro o ho hdefinite
    rcases ht.news o ho hdefinite with ho | ⟨w, hw, hticket, hwhy⟩
    . exact .inl ho
    . exact .inr ⟨w, hw, hticket, hwhy.imp (h w.1) id⟩ }

theorem Reaches.since {α : Type} {n : NodeId} {Q : α → Node → Chronicle → Prop}
    {r : EStateM.Result Error Node α} (h : Reaches K n c (Told K excepted y) Q r)
    (ht : Told K excepted x y c) (hc : c.Lawful K.ids)
    : Reaches K n c (Told K excepted x) Q r := by
  apply h.imp
  . intro node' c' hev ht'
    exact ht.trans ht' hc (hev.extends hc)
  . intro a node' c' _ _ hq
    exact hq

theorem Told.resolve (excepted : Nat → Prop) (clock : Clock) (x : Node) {index term u : Nat}
    {h : History} (hs : Settled K.ids c u h) (hlength : h.length = index) (hterm : h.lastTerm = term)
    (happlied : index ≤ x.lastApplied)
    : ∃ pending settled,
        NodeM.resolve index term clock x = .ok () { x with pending, settled } ∧
        Told K excepted x { x with pending, settled } c := by
  rw [NodeM.resolve_eq]
  cases hlookup : x.pending.lookup index with
  | none => exact ⟨x.pending, x.settled, rfl, .of_eq rfl⟩
  | some waiter =>
    have hwaits : (index, waiter) ∈ x.pending := by
      obtain ⟨before, after, hsplit, -⟩ := List.lookup_eq_some_iff.1 hlookup
      rw [hsplit]
      exact List.mem_append_right _ List.mem_cons_self
    refine ⟨_, _, rfl, rfl, List.filter_subset_self _, ?_, ?_, Nat.le_refl _, id⟩
    . intro o ho hd
      rcases List.mem_append.1 ho with ho | ho
      . exact .inl ho
      . rw [List.mem_singleton.1 ho] at hd ⊢
        refine .inr ⟨(index, waiter), hwaits, rfl, .inr ⟨u, h, hs, hlength, ?_⟩⟩
        rw [hterm]
        intro heq
        rw [if_pos heq.symm] at hd
        exact hd
    . intro o ho hok
      rcases List.mem_append.1 ho with ho | ho
      . exact .inl ho
      . rw [List.mem_singleton.1 ho] at hok ⊢
        refine .inr ⟨(index, waiter), hwaits, rfl, happlied, u, h, hs, hlength, ?_⟩
        rw [hterm]
        by_contra hne
        rw [if_neg (Ne.symm hne)] at hok
        cases hok

end Chronicle

end ReplicatedStore
