import ReplicatedStore.Proofs.Consensus.Mirror

/-!
Actions of a node beside steps of its member in the chronicle: what holds of two actions holds of one
after the other.
-/

namespace ReplicatedStore

namespace NodeM

variable {α β : Type} {clock : Clock} {node node' : Node} {x : NodeM α} {a : α} {e : Error}

theorem bind_of_ok {f : α → NodeM β} (h : x clock node = .ok a node')
    : (x >>= f) clock node = f a clock node' :=
  EStateM.bind_of_ok (x := x clock) h

theorem bind_of_error {f : α → NodeM β} (h : x clock node = .error e node')
    : (x >>= f) clock node = .error e node' :=
  EStateM.bind_of_error (x := x clock) h

theorem of_bind {f : α → NodeM β} {b : β} (h : (x >>= f) clock node = .ok b node')
    : ∃ a mid, x clock node = .ok a mid ∧ f a clock mid = .ok b node' := by
  cases hx : x clock node with
  | ok a mid =>
    rw [bind_of_ok hx] at h
    exact ⟨a, mid, rfl, h⟩
  | error e mid =>
    rw [bind_of_error hx] at h
    cases h

theorem bind_get {f : Node → NodeM β} : (get >>= f) clock node = f node clock node := by
  rfl

theorem bind_read {f : Clock → NodeM β} : (read >>= f) clock node = f clock clock node := by
  rfl

theorem bind_modify {g : Node → Node} {f : PUnit → NodeM β}
    : (modify g >>= f) clock node = f ⟨⟩ clock (g node) := by
  rfl

theorem onLog_ok {operation : LogM α} {log : LogStore} (h : operation node.log = .ok a log)
    : onLog operation clock node = .ok a { node with log } := by
  unfold onLog
  rw [h]

theorem onLog_error {operation : LogM α} {log : LogStore} (h : operation node.log = .error e log)
    : onLog operation clock node = .error e { node with log } := by
  unfold onLog
  rw [h]

theorem attempt_ok (h : x clock node = .ok a node') : attempt x clock node = .ok (some a) node' := by
  unfold attempt
  rw [h]

theorem attempt_error (h : x clock node = .error e node') : attempt x clock node = .ok none node' := by
  unfold attempt
  rw [h]

theorem ends_attempt {P : Node → Prop} {Q : α → Node → Prop} (h : EStateM.Ends P Q (x clock node))
    : EStateM.Ends P (fun _ _ => True) (attempt x clock node) := by
  cases hr : x clock node with
  | ok a node' =>
    rw [hr] at h
    rw [attempt_ok hr]
    exact ⟨h.1, trivial⟩
  | error e node' =>
    rw [hr] at h
    rw [attempt_error hr]
    exact ⟨h, trivial⟩

end NodeM

namespace Chronicle

/-- What came of an action, the chronicle can come to as well. `P` holds afterwards in any case, and
`Q` unless the action failed. -/
def Reaches {α : Type} (K : Cluster) (n : NodeId) (c : Chronicle) (P : Node → Chronicle → Prop)
    (Q : α → Node → Chronicle → Prop) : EStateM.Result Error Node α → Prop
  | .ok a node => ∃ c', Evolves K.ids n c c' ∧ Mirror K c' n node ∧ P node c' ∧ Q a node c'
  | .error _ node => ∃ c', Evolves K.ids n c c' ∧ Mirror K c' n node ∧ P node c'

variable {α β : Type} {K : Cluster} {n : NodeId} {c c' : Chronicle} {clock : Clock}
  {node node' : Node} {P P' : Node → Chronicle → Prop} {Q Q' : α → Node → Chronicle → Prop}
  {R : β → Node → Chronicle → Prop}

namespace Reaches

theorem of_mirror {a : α} (hm : Mirror K c n node) (hp : P node c) (hq : Q a node c)
    : Reaches K n c P Q (.ok a node) :=
  ⟨c, .refl, hm, hp, hq⟩

theorem of_error {e : Error} (hm : Mirror K c n node) (hp : P node c)
    : Reaches K n c P Q (.error e node) :=
  ⟨c, .refl, hm, hp⟩

theorem before {r : EStateM.Result Error Node α} (hev : Evolves K.ids n c c')
    (h : Reaches K n c' P Q r)
    : Reaches K n c P Q r := by
  cases r with
  | ok a node =>
    obtain ⟨c'', hev', hm, hp, hq⟩ := h
    exact ⟨c'', hev.trans hev', hm, hp, hq⟩
  | error e node =>
    obtain ⟨c'', hev', hm, hp⟩ := h
    exact ⟨c'', hev.trans hev', hm, hp⟩

theorem imp {r : EStateM.Result Error Node α} (h : Reaches K n c P Q r)
    (hp : ∀ node' c', Evolves K.ids n c c' → P node' c' → P' node' c')
    (hq : ∀ a node' c', Evolves K.ids n c c' → Mirror K c' n node' → Q a node' c' →
      Q' a node' c')
    : Reaches K n c P' Q' r := by
  cases r with
  | ok a node =>
    obtain ⟨c', hev, hm, hp₀, hq₀⟩ := h
    exact ⟨c', hev, hm, hp _ _ hev hp₀, hq a node c' hev hm hq₀⟩
  | error e node =>
    obtain ⟨c', hev, hm, hp₀⟩ := h
    exact ⟨c', hev, hm, hp _ _ hev hp₀⟩

theorem bind {x : NodeM α} {f : α → NodeM β} (hx : Reaches K n c P Q (x clock node))
    (hf : ∀ a node' c', Evolves K.ids n c c' → Mirror K c' n node' → P node' c' → Q a node' c' →
      Reaches K n c' P R (f a clock node'))
    : Reaches K n c P R ((x >>= f) clock node) := by
  cases hr : x clock node with
  | ok a node' =>
    rw [hr] at hx
    obtain ⟨c', hev, hm, hp, hq⟩ := hx
    rw [NodeM.bind_of_ok hr]
    exact before hev (hf a node' c' hev hm hp hq)
  | error e node' =>
    rw [hr] at hx
    rw [NodeM.bind_of_error hr]
    exact hx

theorem map {f : α → β} {x : NodeM α} (hx : Reaches K n c P Q (x clock node))
    (hf : ∀ a node' c', Q a node' c' → R (f a) node' c')
    : Reaches K n c P R ((f <$> x) clock node) := by
  rw [← bind_pure_comp]
  apply hx.bind
  intro a node' c' _ hm hp hq
  exact .of_mirror hm hp (hf a node' c' hq)

theorem attempt {x : NodeM α} (hx : Reaches K n c P Q (x clock node))
    : Reaches K n c P (fun result node' c' => ∀ a ∈ result, Q a node' c')
        (NodeM.attempt x clock node) := by
  cases hr : x clock node with
  | ok a node' =>
    rw [hr] at hx
    obtain ⟨c', hev, hm, hp, hq⟩ := hx
    rw [NodeM.attempt_ok hr]
    refine ⟨c', hev, hm, hp, ?_⟩
    intro b hb
    cases hb
    exact hq
  | error e node' =>
    rw [hr] at hx
    obtain ⟨c', hev, hm, hp⟩ := hx
    rw [NodeM.attempt_error hr]
    refine ⟨c', hev, hm, hp, ?_⟩
    intro b hb
    cases hb

end Reaches

end Chronicle

end ReplicatedStore
