import ReplicatedStore.Proofs.Runs.Safety

/-!
Log matching: an entry with its term at one index stands for everything before it, on whichever member
and at whichever moment it is found.
-/

namespace ReplicatedStore

open Chronicle

def LogStore.Marks (log : LogStore) (i t : Nat) : Prop :=
  (∃ e, log.get? i = some e ∧ e.term = t) ∨ (i = log.snapshotIndex ∧ t = log.snapshotTerm)

variable {K : Cluster} {events : List Event} {chronicle : Nat → Chronicle} {log : LogStore}
  {h : History} {i j k m t : Nat} {a b : NodeId} {x y : Node} {e : LogEntry}

namespace LogStore

theorem lt_of_get? (hget : log.get? i = some e) : log.snapshotIndex < i := by
  by_contra hle
  unfold get? at hget
  rw [if_pos (by omega)] at hget
  cases hget

theorem Shows.of_get? (hs : log.Shows h) (hget : log.get? i = some e)
    : ∃ k, i = k + 1 ∧ h[k]? = some e := by
  have hlt := lt_of_get? hget
  rw [hs.get? hlt] at hget
  exact ⟨i - 1, by omega, hget⟩

theorem Shows.of_marks (hs : log.Shows h) (hmarks : log.Marks i t)
    : i ≤ h.length ∧ h.termAt i = t := by
  rcases hmarks with ⟨e, hget, rfl⟩ | ⟨rfl, rfl⟩
  . obtain ⟨k, rfl, hk⟩ := hs.of_get? hget
    obtain ⟨hlt, rfl⟩ := List.getElem?_eq_some_iff.1 hk
    exact ⟨hlt, History.termAt_succ hlt⟩
  . exact ⟨hs.covered, hs.term.symm⟩

end LogStore

theorem Chronicle.Chronicled.held_sound (hc : Chronicled K events chronicle) {N : Nat} (hN : k ≤ N)
    (n : NodeId)
    : (chronicle N).Sound ((chronicle k).held n) :=
  ((hc.lawful k).held_sound n).mono (hc.later hN)

theorem get?_eq_of_marks (hc : Chronicled K events chronicle)
    (hx : (K.moment events j).node? a = some x) (hy : (K.moment events k).node? b = some y)
    (hxm : x.log.Marks i t) (hym : y.log.Marks i t) {e f : LogEntry} (hm : m ≤ i)
    (he : x.log.get? m = some e) (hf : y.log.get? m = some f)
    : e = f := by
  have hxs := (hc.mirror hx).shows
  have hys := (hc.mirror hy).shows
  obtain ⟨hxi, hxt⟩ := hxs.of_marks hxm
  obtain ⟨hyi, hyt⟩ := hys.of_marks hym
  have hsame : ((chronicle j).held a).take i = ((chronicle k).held b).take i :=
    (hc.held_sound (Nat.le_max_left j k) a).take_eq (hc.held_sound (Nat.le_max_right j k) b) hxi hyi
      (hxt.trans hyt.symm)
  obtain ⟨l, rfl, hl⟩ := hxs.of_get? he
  obtain ⟨l', hsucc, hl'⟩ := hys.of_get? hf
  cases hsucc
  rw [← List.getElem?_take_of_lt hm, hsame, List.getElem?_take_of_lt hm, hl'] at hl
  exact (Option.some.inj hl).symm

theorem term_le_of_marks (hc : Chronicled K events chronicle)
    (hx : (K.moment events k).node? a = some x) {s : Nat} (hs : x.log.Marks i s)
    (ht : x.log.Marks j t) (hij : i ≤ j)
    : s ≤ t := by
  have hshows := (hc.mirror hx).shows
  obtain ⟨-, rfl⟩ := hshows.of_marks hs
  obtain ⟨hj, rfl⟩ := hshows.of_marks ht
  exact (hc.lawful k).termAt_mono ((hc.lawful k).held_sound a) hij hj

/-- Wherever and whenever two logs have the same term at an index, they have the same entries up to there,
as far as both still have them; and in one log the terms never fall. -/
theorem log_matching (K : Cluster) (events : List Event)
    : (∀ j k a b x y i t, (K.moment events j).node? a = some x →
        (K.moment events k).node? b = some y → x.log.Marks i t → y.log.Marks i t →
        ∀ m ≤ i, ∀ e f, x.log.get? m = some e → y.log.get? m = some f → e = f) ∧
      ∀ k a x i j s t, (K.moment events k).node? a = some x → x.log.Marks i s → x.log.Marks j t →
        i ≤ j → s ≤ t := by
  obtain ⟨chronicle, hc⟩ := exists_chronicled K events
  constructor
  . intro j k a b x y i t hx hy hxm hym m hm e f he hf
    exact get?_eq_of_marks hc hx hy hxm hym hm he hf
  . intro k a x i j s t hx hs ht hij
    exact term_le_of_marks hc hx hs ht hij

theorem log_matching_handover
    : ∃ x x' y e f, (Handover.members.moment Handover.events 7).node? "a" = some x ∧
        (Handover.members.moment Handover.events 12).node? "a" = some x' ∧
        (Handover.members.moment Handover.events 19).node? "b" = some y ∧
        x.log.Marks 2 1 ∧ x'.log.Marks 2 1 ∧ y.log.Marks 2 1 ∧ y.log.Marks 3 2 ∧
        x.log.get? 1 = some e ∧ y.log.get? 1 = some f ∧ e = f ∧
        (∀ g, x'.log.get? 2 = some g → some g = y.log.get? 2) ∧ 1 ≤ 2 := by
  have hxm : ((Handover.members.moment Handover.events 7).node? "a").map
      (fun x => (x.log.get? 1, x.log.get? 2)) = some (some Handover.opening, some Handover.entry) := by
    decide +kernel
  obtain ⟨x, hx, hxr⟩ := Option.map_eq_some_iff.1 hxm
  have hxm' : ((Handover.members.moment Handover.events 12).node? "a").map
      (fun x => (x.log.snapshotIndex, x.log.snapshotTerm)) = some (2, 1) := by
    decide +kernel
  obtain ⟨x', hx', hxr'⟩ := Option.map_eq_some_iff.1 hxm'
  have hym : ((Handover.members.moment Handover.events 19).node? "b").map
      (fun y => (y.log.get? 1, y.log.get? 2, y.log.get? 3))
      = some (some Handover.opening, some Handover.entry, some ⟨2, 3, []⟩) := by
    decide +kernel
  obtain ⟨y, hy, hyr⟩ := Option.map_eq_some_iff.1 hym
  obtain ⟨hx₁, hx₂⟩ := Prod.mk.inj hxr
  obtain ⟨hi, ht⟩ := Prod.mk.inj hxr'
  obtain ⟨hy₁, hyr⟩ := Prod.mk.inj hyr
  obtain ⟨hy₂, hy₃⟩ := Prod.mk.inj hyr
  have hmx : x.log.Marks 2 1 := .inl ⟨_, hx₂, rfl⟩
  have hmx' : x'.log.Marks 2 1 := .inr ⟨hi.symm, ht.symm⟩
  have hmy : y.log.Marks 2 1 := .inl ⟨_, hy₂, rfl⟩
  have hmy' : y.log.Marks 3 2 := .inl ⟨_, hy₃, rfl⟩
  obtain ⟨hsame, hrises⟩ := log_matching Handover.members Handover.events
  refine ⟨x, x', y, _, _, hx, hx', hy, hmx, hmx', hmy, hmy', hx₁, hy₁, ?_, ?_, ?_⟩
  . exact hsame 7 19 "a" "b" x y 2 1 hx hy hmx hmy 1 (by omega) _ _ hx₁ hy₁
  . intro g hg
    rw [hy₂]
    exact congrArg some (hsame 12 19 "a" "b" x' y 2 1 hx' hy hmx' hmy 2 (by omega) _ _ hg hy₂)
  . exact hrises 19 "b" y 2 3 1 2 hy hmy hmy' (by omega)

end ReplicatedStore
