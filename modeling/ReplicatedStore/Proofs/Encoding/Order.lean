import Mathlib.Order.Compare
import Mathlib.Tactic.Ring
import ReplicatedStore.Encoding.FixedWidth

/-!
The order of byte strings when more bytes follow, and fixed-width numbers in it: their order is that of the
numbers, and a float is ranked by its sign and magnitude.
-/

namespace ReplicatedStore

namespace Bytes

def Ranks (x y : Bytes) (order : Ordering) : Prop :=
  ∀ s t, compare (x ++ s) (y ++ t) = order.then (compare s t)

def LeadsBelow (bound : UInt8) (x : Bytes) : Prop :=
  ∃ first rest, x = first :: rest ∧ first.toNat < bound.toNat

variable {x y x' y' : Bytes} {order order' : Ordering}

theorem compare_cons (a b : UInt8) (x y : Bytes)
    : compare (a :: x) (b :: y) = (Ord.compare a.toNat b.toNat).then (compare x y) := by
  rw [compare]
  simp only [UInt8.lt_iff_toNat_lt]
  split
  . next hlt => simp [Nat.compare_eq_lt.2 hlt]
  . split
    . next hgt => simp [Nat.compare_eq_gt.2 hgt]
    . next hlt hgt =>
      have : a.toNat = b.toNat := by omega
      simp [this]

theorem compare_self (x : Bytes) : compare x x = .eq := by
  induction x with
  | nil => rfl
  | cons a x ih => simp [compare_cons, ih]

theorem ranks_nil : Ranks [] [] .eq := by
  intro s t
  rfl

theorem ranks_byte (a b : UInt8) : Ranks [a] [b] (Ord.compare a.toNat b.toNat) := by
  intro s t
  exact compare_cons a b s t

theorem Ranks.append (h : Ranks x y order) (h' : Ranks x' y' order')
    : Ranks (x ++ x') (y ++ y') (order.then order') := by
  intro s t
  rw [List.append_assoc, List.append_assoc, h, h', Ordering.then_assoc]

theorem Ranks.cons (a : UInt8) (h : Ranks x y order) : Ranks (a :: x) (a :: y) order := by
  have := (ranks_byte a a).append h
  simpa using this

theorem compare_swap (x y : Bytes) : compare y x = (compare x y).swap := by
  induction x generalizing y with
  | nil => cases y <;> rfl
  | cons a x ih =>
    cases y with
    | nil => rfl
    | cons b y => rw [compare_cons, compare_cons, ih, Ordering.swap_then, Nat.compare_swap]

theorem Ranks.swap (h : Ranks x y order) : Ranks y x order.swap := by
  intro s t
  rw [compare_swap, h, Ordering.swap_then, ← compare_swap]

theorem ranks_self (x : Bytes) : Ranks x x .eq := by
  induction x with
  | nil => exact ranks_nil
  | cons a x ih => exact ih.cons a

theorem ranks_of_lt {a b : UInt8} (h : a.toNat < b.toNat) (x y : Bytes) : Ranks (a :: x) (b :: y) .lt := by
  intro s t
  rw [List.cons_append, List.cons_append, compare_cons, Nat.compare_eq_lt.2 h]
  rfl

theorem LeadsBelow.ranks {bound : UInt8} (h : LeadsBelow bound x) (y : Bytes) : Ranks x (bound :: y) .lt := by
  obtain ⟨first, rest, rfl, hlt⟩ := h
  exact ranks_of_lt hlt rest y

theorem LeadsBelow.append {bound : UInt8} (h : LeadsBelow bound x) (y : Bytes)
    : LeadsBelow bound (x ++ y) := by
  obtain ⟨first, rest, rfl, hlt⟩ := h
  exact ⟨first, rest ++ y, rfl, hlt⟩

theorem ranks_of_length (h : x.length = y.length) : Ranks x y (Bytes.compare x y) := by
  induction x generalizing y with
  | nil =>
    cases y with
    | nil => exact ranks_nil
    | cons b y => simp at h
  | cons a x ih =>
    cases y with
    | nil => simp at h
    | cons b y =>
      rw [compare_cons]
      exact (ranks_byte a b).append (ih (by simpa using h))

theorem compare_digits {p a b : Nat} (ha : a < p) (hb : b < p) (m n : Nat)
    : Ord.compare (a + p * m) (b + p * n) = (Ord.compare m n).then (Ord.compare a b) := by
  rcases Nat.lt_trichotomy m n with hlt | rfl | hgt
  . have : p * (m + 1) ≤ p * n := Nat.mul_le_mul_left p hlt
    rw [Nat.mul_succ] at this
    rw [Nat.compare_eq_lt.2 hlt, Nat.compare_eq_lt.2 (by omega)]
    rfl
  . rw [Nat.compare_eq_eq.2 rfl, Ordering.then]
    rcases Nat.lt_trichotomy a b with hlt | rfl | hgt
    . rw [Nat.compare_eq_lt.2 hlt, Nat.compare_eq_lt.2 (by omega)]
    . rw [Nat.compare_eq_eq.2 rfl, Nat.compare_eq_eq.2 rfl]
    . rw [Nat.compare_eq_gt.2 hgt, Nat.compare_eq_gt.2 (by omega)]
  . have : p * (n + 1) ≤ p * m := Nat.mul_le_mul_left p hgt
    rw [Nat.mul_succ] at this
    rw [Nat.compare_eq_gt.2 hgt, Nat.compare_eq_gt.2 (by omega)]
    rfl

theorem compare_bigEndian_mod (k m n : Nat)
    : Bytes.compare (bigEndian k m) (bigEndian k n) = Ord.compare (m % 256 ^ k) (n % 256 ^ k) := by
  induction k with
  | zero => simp [bigEndian, Nat.mod_one, Bytes.compare]
  | succ k ih =>
    have hbyte : ∀ n : Nat, (UInt8.ofNat (n >>> (8 * k))).toNat = n / 256 ^ k % 256 := by
      intro n
      rw [UInt8.toNat_ofNat', Nat.shiftRight_eq_div_pow, Nat.pow_mul]
    have hpos : 0 < 256 ^ k := Nat.pow_pos (by decide)
    rw [bigEndian, bigEndian, compare_cons, ih, hbyte, hbyte, Nat.pow_succ, Nat.mod_mul, Nat.mod_mul]
    rw [compare_digits (Nat.mod_lt m hpos) (Nat.mod_lt n hpos)]

theorem compare_bigEndian {k m n : Nat} (hm : m < 256 ^ k) (hn : n < 256 ^ k)
    : Bytes.compare (bigEndian k m) (bigEndian k n) = Ord.compare m n := by
  rw [compare_bigEndian_mod, Nat.mod_eq_of_lt hm, Nat.mod_eq_of_lt hn]

theorem ranks_bigEndian {k m n : Nat} (hm : m < 256 ^ k) (hn : n < 256 ^ k)
    : Ranks (bigEndian k m) (bigEndian k n) (Ord.compare m n) := by
  rw [← compare_bigEndian hm hn]
  apply ranks_of_length
  simp

end Bytes

theorem Width.pow_bits (w : Width) : 2 ^ w.bits = 256 ^ w.bytes := by
  unfold Width.bits
  rw [Nat.pow_mul]

theorem Width.bits_pos (w : Width) : 0 < w.bits := by
  cases w <;> decide

namespace FixedWidth

variable {w : Nat}

theorem ranks_write (w : Width) (a b : BitVec w.bits)
    : Bytes.Ranks (write w a) (write w b) (Ord.compare a.toNat b.toNat) := by
  apply Bytes.ranks_bigEndian
  . exact w.pow_bits ▸ a.isLt
  . exact w.pow_bits ▸ b.isLt

theorem toNat_intMin (hw : 0 < w) : (BitVec.intMin w).toNat = 2 ^ (w - 1) := by
  rw [BitVec.toNat_intMin, Nat.mod_eq_of_lt]
  exact Nat.pow_lt_pow_right (by decide) (by omega)

theorem two_pow_pred (hw : 0 < w) : 2 ^ w = 2 ^ (w - 1) + 2 ^ (w - 1) := by
  rw [← Nat.two_mul, ← Nat.pow_succ']
  congr
  omega

theorem getLsbD_msb {bits : BitVec w} {i : Nat} (hi : i + 1 = w) : bits.getLsbD i = bits.msb := by
  subst hi
  simp [BitVec.msb_eq_getLsbD_last]

theorem toNat_or_intMin {bits : BitVec w} (hw : 0 < w) (h : bits.msb = false)
    : (bits ||| BitVec.intMin w).toNat = bits.toNat + 2 ^ (w - 1) := by
  have hdisjoint : bits &&& BitVec.intMin w = 0#w := by
    apply BitVec.eq_of_getLsbD_eq
    intro i hi
    rw [BitVec.getLsbD_and, BitVec.getLsbD_intMin]
    by_cases hlast : i + 1 = w
    . simp [getLsbD_msb hlast, h]
    . simp [hlast]
  have hlt : bits.toNat < 2 ^ (w - 1) := by
    rw [BitVec.msb_eq_decide] at h
    simpa using h
  rw [← BitVec.add_eq_or_of_and_eq_zero _ _ hdisjoint, BitVec.toNat_add, toNat_intMin hw]
  rw [Nat.mod_eq_of_lt]
  rw [two_pow_pred hw]
  omega

theorem toNat_clear_intMin {bits : BitVec w} (hw : 0 < w) (h : bits.msb = true)
    : (bits &&& ~~~BitVec.intMin w).toNat + 2 ^ (w - 1) = bits.toNat := by
  have hclear : (bits &&& ~~~BitVec.intMin w).msb = false := by
    rw [BitVec.msb_and, BitVec.msb_not]
    simp [BitVec.msb_intMin, hw]
  rw [← toNat_or_intMin hw hclear]
  congr 1
  apply BitVec.eq_of_getLsbD_eq
  intro i hi
  rw [BitVec.getLsbD_or, BitVec.getLsbD_and, BitVec.getLsbD_not, BitVec.getLsbD_intMin]
  by_cases hlast : i + 1 = w
  . simp [getLsbD_msb hlast, hlast, h]
  . simp [hlast, hi]

theorem flipSign_of_msb {bits : BitVec w} (h : bits.msb = true)
    : flipSign bits = bits &&& ~~~BitVec.intMin w := by
  unfold flipSign
  apply BitVec.eq_of_getLsbD_eq
  intro i hi
  rw [BitVec.getLsbD_xor, BitVec.getLsbD_and, BitVec.getLsbD_not, BitVec.getLsbD_intMin]
  by_cases hlast : i + 1 = w
  . simp [getLsbD_msb hlast, hlast, h]
  . simp [hlast, hi]

theorem flipSign_of_not_msb {bits : BitVec w} (h : bits.msb = false)
    : flipSign bits = bits ||| BitVec.intMin w := by
  unfold flipSign
  apply BitVec.eq_of_getLsbD_eq
  intro i hi
  rw [BitVec.getLsbD_xor, BitVec.getLsbD_or, BitVec.getLsbD_intMin]
  by_cases hlast : i + 1 = w
  . simp [getLsbD_msb hlast, hlast, h]
  . simp [hlast]

theorem toNat_flipSign {bits : BitVec w} (hw : 0 < w)
    : ((flipSign bits).toNat : Int) = bits.toInt + 2 ^ (w - 1) := by
  have hpow : ((2 ^ w : Nat) : Int) = 2 ^ (w - 1) + 2 ^ (w - 1) := by
    rw [two_pow_pred hw]
    push_cast
    rfl
  rw [BitVec.toInt_eq_msb_cond]
  cases h : bits.msb with
  | true =>
    have := toNat_clear_intMin hw h
    rw [flipSign_of_msb h, if_pos rfl, ← this, hpow]
    push_cast
    ring
  | false =>
    rw [flipSign_of_not_msb h, toNat_or_intMin hw h, if_neg (by simp)]
    push_cast
    rfl

theorem toNat_orderFloat {bits : BitVec w} (hw : 0 < w)
    : ((orderFloat bits).toNat : Int) = floatRank bits + 2 ^ (w - 1) := by
  unfold orderFloat floatRank
  cases h : bits.msb with
  | true =>
    have hclear := toNat_clear_intMin hw h
    have hlt := bits.isLt
    have hpow := two_pow_pred hw
    rw [if_pos rfl, if_pos rfl, BitVec.toNat_not]
    have hcast : ((2 ^ (w - 1) : Nat) : Int) = 2 ^ (w - 1) := by
      push_cast
      rfl
    rw [← hcast]
    omega
  | false =>
    rw [if_neg (by simp), if_neg (by simp), toNat_or_intMin hw h]
    push_cast
    rfl

theorem compare_of_shift {a b : Nat} {x y c : Int} (ha : (a : Int) = x + c) (hb : (b : Int) = y + c)
    : Ord.compare a b = Ord.compare x y := by
  rcases Int.lt_trichotomy x y with hlt | rfl | hgt
  . rw [compare_lt_iff_lt.2 hlt, Nat.compare_eq_lt.2 (by omega)]
  . rw [compare_eq_iff_eq.2 rfl, Nat.compare_eq_eq.2 (by omega)]
  . rw [compare_gt_iff_gt.2 hgt, Nat.compare_eq_gt.2 (by omega)]

theorem ranks_flipSign (w : Width) (a b : BitVec w.bits)
    : Bytes.Ranks (write w (flipSign a)) (write w (flipSign b)) (Ord.compare a.toInt b.toInt) := by
  rw [← compare_of_shift (toNat_flipSign w.bits_pos) (toNat_flipSign w.bits_pos)]
  apply ranks_write

theorem ranks_orderFloat (w : Width) (a b : BitVec w.bits)
    : Bytes.Ranks (write w (orderFloat a)) (write w (orderFloat b))
        (Ord.compare (floatRank a) (floatRank b)) := by
  rw [← compare_of_shift (toNat_orderFloat w.bits_pos) (toNat_orderFloat w.bits_pos)]
  apply ranks_write

end FixedWidth

end ReplicatedStore
