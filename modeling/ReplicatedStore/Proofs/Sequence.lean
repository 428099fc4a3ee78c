import Mathlib.Algebra.Group.Nat.Defs

/-!
Running one action after another, when it is known what the first one does, and what is found in lists of
keys with values.
-/

namespace ReplicatedStore

theorem lookup_map_snd {κ α β : Type} [BEq κ] [LawfulBEq κ] (entries : List (κ × α)) (f : κ → α → β) (key : κ)
    : (entries.map fun (i, a) => (i, f i a)).lookup key = (entries.lookup key).map (f key) := by
  induction entries with
  | nil => rfl
  | cons entry entries ih =>
    obtain ⟨i, a⟩ := entry
    rw [List.map_cons, List.lookup_cons, List.lookup_cons]
    by_cases hkey : key = i
    . rw [hkey, BEq.rfl]
      rfl
    . rw [show (key == i) = false by simpa using hkey, ih]

theorem Except.of_bind {ε α β : Type} {x : Except ε α} {f : α → Except ε β} {b : β} (h : (x >>= f) = .ok b)
    : ∃ a, x = .ok a ∧ f a = .ok b := by
  cases x with
  | ok a => exact ⟨a, rfl, h⟩
  | error e => cases h

theorem Except.of_map {ε α β : Type} {x : Except ε α} {g : α → β} {b : β} (h : g <$> x = .ok b)
    : ∃ a, x = .ok a ∧ g a = b := by
  cases x with
  | ok a => exact ⟨a, rfl, Except.ok.inj h⟩
  | error e => cases h

namespace EStateM

variable {ε σ α β : Type} {x : EStateM ε σ α} {f : α → EStateM ε σ β} {s s' : σ} {a : α} {e : ε}

theorem bind_of_ok (h : x s = .ok a s') : (x >>= f) s = f a s' := by
  simp only [bind, EStateM.bind, h]

theorem bind_of_error (h : x s = .error e s') : (x >>= f) s = .error e s' := by
  simp only [bind, EStateM.bind, h]

theorem bind_get {f : σ → EStateM ε σ β} : (get >>= f) s = f s s := by
  rfl

theorem bind_modify {g : σ → σ} {f : PUnit → EStateM ε σ β}
    : (modify g >>= f) s = f ⟨⟩ (g s) := by
  rfl

theorem of_bind {b : β} {t : σ} (h : (x >>= f) s = .ok b t) : ∃ a s', x s = .ok a s' ∧ f a s' = .ok b t := by
  cases hx : x s with
  | ok a s' =>
    rw [bind_of_ok hx] at h
    exact ⟨a, s', rfl, h⟩
  | error e s' =>
    rw [bind_of_error hx] at h
    cases h

theorem bind_eq_ok_iff {b : β} {t : σ}
    : (x >>= f) s = .ok b t ↔ ∃ a s', x s = .ok a s' ∧ f a s' = .ok b t := by
  constructor
  . exact of_bind
  . rintro ⟨a, s', hx, hf⟩
    rw [bind_of_ok hx]
    exact hf

theorem pure_eq_ok_iff {b : α} {t : σ} : (pure a : EStateM ε σ α) s = .ok b t ↔ a = b ∧ s = t := by
  constructor
  . intro h
    cases h
    exact ⟨rfl, rfl⟩
  . rintro ⟨rfl, rfl⟩
    rfl

def Ends (P : σ → Prop) (Q : α → σ → Prop) : EStateM.Result ε σ α → Prop
  | .ok a s => P s ∧ Q a s
  | .error _ s => P s

variable {P P' : σ → Prop} {Q Q' : α → σ → Prop} {R : β → σ → Prop}

theorem Ends.imp {r : EStateM.Result ε σ α} (h : Ends P Q r) (hp : ∀ s, P s → P' s)
    (hq : ∀ a s, P s → Q a s → Q' a s)
    : Ends P' Q' r := by
  cases r with
  | ok a s => exact ⟨hp s h.1, hq a s h.1 h.2⟩
  | error e s => exact hp s h

theorem Ends.bind (hx : Ends P Q (x s)) (hf : ∀ a s', P s' → Q a s' → Ends P R (f a s'))
    : Ends P R ((x >>= f) s) := by
  cases hr : x s with
  | ok a s' =>
    rw [hr] at hx
    rw [bind_of_ok hr]
    exact hf a s' hx.1 hx.2
  | error e s' =>
    rw [hr] at hx
    rw [bind_of_error hr]
    exact hx

theorem Ends.map (hx : Ends P Q (x s)) (g : α → β) (hq : ∀ a s', P s' → Q a s' → R (g a) s')
    : Ends P R ((g <$> x) s) := by
  rw [← bind_pure_comp]
  apply hx.bind
  exact fun a s' hp h => ⟨hp, hq a s' hp h⟩

def Yields (Q : α → σ → Prop) (E : σ → Prop) : EStateM.Result ε σ α → Prop
  | .ok a s => Q a s
  | .error _ s => E s

variable {E E' : σ → Prop} {r : EStateM.Result ε σ α}

theorem Yields.imp (h : Yields Q E r) (hq : ∀ a s, Q a s → Q' a s) (he : ∀ s, E s → E' s)
    : Yields Q' E' r := by
  cases r with
  | ok a s => exact hq a s h
  | error e s => exact he s h

theorem Yields.ends (h : Yields (fun _ s => P s) P r) : Ends P (fun _ _ => True) r := by
  cases r with
  | ok a s => exact ⟨h, trivial⟩
  | error e s => exact h

theorem Yields.bind (hx : Yields Q E (x s)) (he : ∀ s', E s' → E' s')
    (hf : ∀ a s', Q a s' → Yields R E' (f a s'))
    : Yields R E' ((x >>= f) s) := by
  cases hr : x s with
  | ok a s' =>
    rw [hr] at hx
    rw [bind_of_ok hr]
    exact hf a s' hx
  | error e s' =>
    rw [hr] at hx
    rw [bind_of_error hr]
    exact he s' hx

def value? : EStateM.Result ε σ α → Option α
  | .ok a _ => some a
  | .error _ _ => none

def state? : EStateM.Result ε σ α → Option σ
  | .ok _ s => some s
  | .error _ _ => none

def failed? : EStateM.Result ε σ α → Option σ
  | .ok _ _ => none
  | .error _ s => some s

theorem eq_ok_of_value? (h : value? r = some a) : ∃ s, r = .ok a s := by
  cases r with
  | ok a' s =>
    cases h
    exact ⟨s, rfl⟩
  | error e s => cases h

theorem eq_ok_of_state? (h : state? r = some s) : ∃ a, r = .ok a s := by
  cases r with
  | ok a s' =>
    cases h
    exact ⟨a, rfl⟩
  | error e s' => cases h

theorem eq_error_of_failed? (h : failed? r = some s) : ∃ e, r = .error e s := by
  cases r with
  | ok a s => cases h
  | error e s' =>
    cases h
    exact ⟨e, rfl⟩

end EStateM

end ReplicatedStore
