import Mathlib.Algebra.Ring.Int.Defs
import ReplicatedStore.Encoding.Reader
import ReplicatedStore.Proofs.Sequence

/-!
Arithmetic in words of fixed width, without a result where the exact number does not fit the word, and readers
that work with it.
-/

namespace ReplicatedStore

namespace Exact

variable {α β : Type} {n : Int}

def byte? (n : Int) : Option UInt8 :=
  if 0 ≤ n ∧ n < 2 ^ 8 then some (UInt8.ofNat n.toNat) else none

def word? (n : Int) : Option UInt64 :=
  if 0 ≤ n ∧ n < 2 ^ 64 then some (UInt64.ofNat n.toNat) else none

def integer? (n : Int) : Option Int64 :=
  if -2 ^ 63 ≤ n ∧ n < 2 ^ 63 then some (Int64.ofInt n) else none

def count? (n : Int) : Option Nat :=
  if 0 ≤ n ∧ n < 2 ^ 64 then some n.toNat else none

def shift? (u : UInt64) (count : Nat) : Option UInt64 :=
  if count < 64 then word? (u.toNat * 2 ^ count : Nat) else none

theorem byte?_eq {b : UInt8} (h : n = b.toNat) : byte? n = some b := by
  have := b.toNat_lt
  unfold byte?
  rw [if_pos (by omega), h, Int.toNat_natCast, UInt8.ofNat_toNat]

theorem word?_eq {u : UInt64} (h : n = u.toNat) : word? n = some u := by
  have := u.toNat_lt
  unfold word?
  rw [if_pos (by omega), h, Int.toNat_natCast, UInt64.ofNat_toNat]

theorem integer?_eq {v : Int64} (h : n = v.toInt) : integer? n = some v := by
  have := v.le_toInt
  have := v.toInt_lt
  unfold integer?
  rw [if_pos (by omega), h, Int64.ofInt_toInt]

example : integer? (-Int64.minValue.toInt) = none := by decide

theorem count?_eq {k : Nat} (h : n = k) (hlt : k < 2 ^ 64) : count? n = some k := by
  unfold count?
  rw [if_pos (by omega), h, Int.toNat_natCast]

theorem shift?_eq {u v : UInt64} {count : Nat} (hcount : count < 64) (h : u.toNat * 2 ^ count = v.toNat)
    : shift? u count = some v := by
  unfold shift?
  rw [if_pos hcount, h]
  exact word?_eq rfl

theorem bind_of_some {result : Option α} {a : α} {f : α → Option β} (h : result = some a)
    : result >>= f = f a := by
  rw [h]
  rfl

def exactly (result : Option α) : OptionT Reader α :=
  OptionT.mk (pure result)

def Follows (checked : OptionT Reader α) (read : Reader α) : Prop :=
  checked.run = some <$> read

variable {checked : OptionT Reader α} {read : Reader α} {f : α → OptionT Reader β} {g : α → Reader β}
  {result : Option α} {a : α}

theorem follows_lift (read : Reader α) : Follows (liftM read) read := by
  unfold Follows
  rw [← bind_pure_comp]
  rfl

theorem follows_exactly (h : result = some a) : Follows (exactly result) (pure a) := by
  unfold Follows exactly
  rw [h, map_pure]
  rfl

theorem bind_congr_of_ok {f g : α → Reader β}
    (h : ∀ a, (∃ input rest, read input = .ok a rest) → f a = g a)
    : read >>= f = read >>= g := by
  funext input
  cases hread : read input with
  | ok a rest =>
    rw [EStateM.bind_of_ok hread, EStateM.bind_of_ok hread, h a ⟨input, rest, hread⟩]
  | error e rest =>
    rw [EStateM.bind_of_error hread, EStateM.bind_of_error hread]

theorem Follows.bind (h : Follows checked read)
    (hnext : ∀ a, (∃ input rest, read input = .ok a rest) → Follows (f a) (g a))
    : Follows (checked >>= f) (read >>= g) := by
  unfold Follows at h ⊢
  rw [OptionT.run_bind, h, Option.elimM, bind_map_left, map_bind]
  exact bind_congr_of_ok hnext

theorem Follows.exactly_bind {next : Reader β} (h : result = some a) (hnext : Follows (f a) next)
    : Follows (exactly result >>= f) next := by
  have := (follows_exactly h).bind (f := f) (g := fun _ => next) fun a' ha' => by
    obtain ⟨_, _, hpure⟩ := ha'
    cases hpure
    exact hnext
  simpa using this

theorem Follows.ite {checked' : OptionT Reader α} {read' : Reader α} {p : Prop} [Decidable p]
    (h : p → Follows checked read) (h' : ¬ p → Follows checked' read')
    : Follows (if p then checked else checked') (if p then read else read') := by
  split
  . next hp => exact h hp
  . next hp => exact h' hp

theorem Follows.unless {p : Prop} [Decidable p] {e : EncodingError} {f : Unit → OptionT Reader α}
    {g : Unit → Reader α} (h : ¬ p → Follows (f ()) (g ()))
    : Follows (if p then (liftM (throw e : Reader Unit)) >>= f else f ())
        (if p then throw e >>= g else g ()) := by
  apply Follows.ite
  . intro _
    apply (follows_lift _).bind
    rintro _ ⟨_, _, hthrow⟩
    cases hthrow
  . exact h

end Exact

end ReplicatedStore
