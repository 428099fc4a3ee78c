/-!
Moments in UTC, counted in seconds since 1970, with the range that calendar years from -262143 to
262142 cover. A nanosecond part from one to two thousand million names a leap second. Any second can be
given one, but from its parts a moment is made only if the second is the last of its minute.
-/

namespace ReplicatedStore

namespace Timestamp

def leastSeconds : Int := -8334601228800

def greatestSeconds : Int := 8210266876799

def Valid (secs : Int) (nanos : Nat) : Prop :=
  leastSeconds ≤ secs ∧ secs ≤ greatestSeconds ∧ nanos < 2000000000

instance (secs : Int) (nanos : Nat) : Decidable (Valid secs nanos) := by
  unfold Valid; infer_instance

def LeapEndsMinute (secs : Int) (nanos : Nat) : Prop :=
  1000000000 ≤ nanos → secs % 60 = 59

instance (secs : Int) (nanos : Nat) : Decidable (LeapEndsMinute secs nanos) := by
  unfold LeapEndsMinute; infer_instance

end Timestamp

structure Timestamp where
  secs : Int
  nanos : Nat
  valid : Timestamp.Valid secs nanos
  deriving DecidableEq

namespace Timestamp

def ofParts? (secs : Int) (nanos : Nat) : Option Timestamp :=
  if h : Valid secs nanos ∧ LeapEndsMinute secs nanos then some ⟨secs, nanos, h.1⟩ else none

def ofMillis? (millis : Int) : Option Timestamp :=
  ofParts? (millis / 1000) (millis % 1000 * 1000000).toNat

def millis (t : Timestamp) : Int :=
  t.secs * 1000 + (t.nanos / 1000000 : Nat)

def compare (a b : Timestamp) : Ordering :=
  (Ord.compare a.secs b.secs).then (Ord.compare a.nanos b.nanos)

instance : Inhabited Timestamp where
  default := ⟨0, 0, by decide⟩

end Timestamp

end ReplicatedStore
