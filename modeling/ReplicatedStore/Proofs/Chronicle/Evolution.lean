import Mathlib.Logic.Relation
import ReplicatedStore.Proofs.Chronicle.Growing
import ReplicatedStore.Proofs.Chronicle.Voting

/-!
Whatever steps the members take, the chronicle goes on and stays lawful.
-/

namespace ReplicatedStore

namespace Chronicle

variable {ids : List NodeId} {c c' c'' : Chronicle} {n x : NodeId} {h : History} {t t₀ i : Nat}
  {e : LogEntry}

theorem blank_lawful (ids : List NodeId) : Lawful ids blank := by
  constructor
  case held_sound => exact fun _ => sound_nil blank
  case log_sound => exact fun _ => sound_nil blank
  all_goals simp [blank]

theorem Step.lawful (hs : Step ids n c c') (hc : Lawful ids c) : Lawful ids c' := by
  cases hs with
  | advance t ht => exact hc.advance ht
  | campaign => exact hc.campaign
  | grant x hfree hx hu => exact hc.grant hfree hx hu
  | win quorum hq hvotes hheld hnew => exact hc.win hq hvotes hheld hnew
  | extend e hl ht hi => exact hc.extend hl ht hi
  | accept h hl ha => exact hc.accept hl ha
  | confirm i hl hi hp => exact hc.confirm hl hi hp

theorem Step.extends (hs : Step ids n c c') (hc : Lawful ids c) : c.Extends c' := by
  cases hs with
  | advance t ht => exact Lawful.advance_extends ht
  | campaign => exact hc.campaign_extends
  | grant x hfree hx hu => exact Lawful.grant_extends hfree
  | win quorum hq hvotes hheld hnew => exact hc.win_extends (hc.leader_none hq hvotes hnew)
  | extend e hl ht hi => exact hc.extend_extends hl
  | accept h hl ha => exact Lawful.accept_extends
  | confirm i hl hi hp => exact Lawful.confirm_extends

structure Leaves (n : NodeId) (c c' : Chronicle) : Prop where
  term : ∀ id, id ≠ n → c'.term id = c.term id
  held : ∀ id, id ≠ n → c'.held id = c.held id
  vote : ∀ id, id ≠ n → c'.vote id = c.vote id
  leader : ∀ t id, id ≠ n → c'.leader t = some id → c.leader t = some id

theorem Leaves.refl (n : NodeId) (c : Chronicle) : Leaves n c c where
  term _ _ := rfl
  held _ _ := rfl
  vote _ _ := rfl
  leader _ _ _ hl := hl

theorem Leaves.trans (h : Leaves n c c') (h' : Leaves n c' c'') : Leaves n c c'' where
  term id hid := by rw [h'.term id hid, h.term id hid]
  held id hid := by rw [h'.held id hid, h.held id hid]
  vote id hid := by rw [h'.vote id hid, h.vote id hid]
  leader t id hid hl := h.leader t id hid (h'.leader t id hid hl)

theorem Step.leaves (hs : Step ids n c c') : Leaves n c c' := by
  cases hs with
  | advance t ht =>
    exact { Leaves.refl n c with
      term := fun id hid => Function.update_of_ne hid _ _ }
  | campaign =>
    exact { Leaves.refl n c with
      term := fun id hid => Function.update_of_ne hid _ _
      vote := fun id hid => Function.update_of_ne hid _ _ }
  | grant x hfree hx hu =>
    exact { Leaves.refl n c with
      vote := fun id hid => Function.update_of_ne hid _ _ }
  | win quorum hq hvotes hheld hnew =>
    exact { Leaves.refl n c with
      leader := by
        intro t id hid hl
        simp only [Chronicle.win, Function.update_apply] at hl
        split at hl
        . exact absurd (Option.some.inj hl).symm hid
        . exact hl }
  | extend e hl ht hi =>
    exact { Leaves.refl n c with
      held := fun id hid => Function.update_of_ne hid _ _ }
  | accept h hl ha =>
    exact { Leaves.refl n c with
      held := fun id hid => Function.update_of_ne hid _ _ }
  | confirm i hl hi hp => exact { Leaves.refl n c with }

def Evolves (ids : List NodeId) (n : NodeId) : Chronicle → Chronicle → Prop :=
  Relation.ReflTransGen (Step ids n)

theorem Evolves.lawful (hs : Evolves ids n c c') (hc : Lawful ids c) : Lawful ids c' := by
  induction hs with
  | refl => exact hc
  | tail _ hstep ih => exact hstep.lawful ih

theorem Evolves.extends (hs : Evolves ids n c c') (hc : Lawful ids c) : c.Extends c' := by
  induction hs with
  | refl => exact Extends.refl c
  | tail hrun hstep ih => exact ih.trans (hstep.extends (Evolves.lawful hrun hc))

theorem Evolves.leaves (hs : Evolves ids n c c') : Leaves n c c' := by
  induction hs with
  | refl => exact Leaves.refl n c
  | tail _ hstep ih => exact ih.trans hstep.leaves

end Chronicle

end ReplicatedStore
