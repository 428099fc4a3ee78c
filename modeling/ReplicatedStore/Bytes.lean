/-!
Byte strings, ordered lexicographically by unsigned byte, and their fixed-width integer forms.
-/

namespace ReplicatedStore

abbrev Bytes := List UInt8

namespace Bytes

def compare : Bytes → Bytes → Ordering
  | [], [] => .eq
  | [], _ :: _ => .lt
  | _ :: _, [] => .gt
  | a :: as, b :: bs => if a < b then .lt else if b < a then .gt else compare as bs

def bigEndian : Nat → Nat → Bytes
  | 0, _ => []
  | k + 1, n => UInt8.ofNat (n >>> (8 * k)) :: bigEndian k n

def ofBigEndian (bytes : Bytes) : Nat :=
  bytes.foldl (fun acc b => acc * 256 + b.toNat) 0

def littleEndian : Nat → Nat → Bytes
  | 0, _ => []
  | k + 1, n => UInt8.ofNat n :: littleEndian k (n / 256)

def ofLittleEndian : Bytes → Nat
  | [] => 0
  | b :: rest => b.toNat + 256 * ofLittleEndian rest

def ofText (text : String) : Bytes :=
  text.toUTF8.toList

def hexByte (b : UInt8) : String :=
  String.ofList [Nat.digitChar (b.toNat / 16), Nat.digitChar (b.toNat % 16)]

@[simp]
theorem bigEndian_length (k n : Nat) : (bigEndian k n).length = k := by
  induction k with
  | zero => rfl
  | succ k ih => simp [bigEndian, ih]

@[simp]
theorem littleEndian_length (k n : Nat) : (littleEndian k n).length = k := by
  induction k generalizing n with
  | zero => rfl
  | succ k ih => simp [littleEndian, ih]

theorem ofLittleEndian_littleEndian (k n : Nat) :
    ofLittleEndian (littleEndian k n) = n % Nat.pow 256 k := by
  induction k generalizing n with
  | zero => exact (Nat.mod_one n).symm
  | succ k ih =>
    have h : (UInt8.ofNat n).toNat = n % 256 := by simp
    calc (UInt8.ofNat n).toNat + 256 * ofLittleEndian (littleEndian k (n / 256))
      _ = n % 256 + 256 * (n / 256 % Nat.pow 256 k) := by rw [h, ih]
      _ = n % (256 * Nat.pow 256 k) := Nat.mod_mul.symm
      _ = n % Nat.pow 256 (k + 1) := congrArg (n % ·) (Nat.mul_comm 256 (Nat.pow 256 k))

end Bytes

end ReplicatedStore
