/-!
Numbers of the binary64 format as exact values, and the rounding of quotients and decimals to them.
-/

namespace ReplicatedStore

inductive Binary64 where
  | finite (negative : Bool) (mantissa : Nat) (exponent : Int)
  | infinite (negative : Bool)
  | nan
  deriving DecidableEq, Repr, Inhabited

namespace Binary64

def minExponent : Int := -1074

def maxExponent : Int := 971

-- The quotient of two numbers rounded to the nearest whole number; a half goes to the even one.
def roundHalfEven (num den : Nat) : Nat :=
  let q := num / den
  let r := num % den
  if 2 * r < den then q
  else if den < 2 * r then q + 1
  else q + q % 2

def inUnits (num den : Nat) (exponent : Int) : Nat × Nat :=
  (num * Nat.pow 2 (-exponent).toNat, den * Nat.pow 2 exponent.toNat)

def exponentFor (num den : Nat) : Int :=
  let guess : Int := num.log2 - den.log2 - 53
  let (a, b) := inUnits num den guess
  max minExponent (if a / b < Nat.pow 2 53 then guess else guess + 1)

def ofQuotient (negative : Bool) (num den : Nat) : Binary64 :=
  if num = 0 then .finite negative 0 minExponent
  else
    let exponent := exponentFor num den
    let (a, b) := inUnits num den exponent
    let mantissa := roundHalfEven a b
    let (mantissa, exponent) :=
      if mantissa = Nat.pow 2 53 then (Nat.pow 2 52, exponent + 1) else (mantissa, exponent)
    if maxExponent < exponent then .infinite negative else .finite negative mantissa exponent

def ofNat (n : Nat) : Binary64 := ofQuotient false n 1

def divide (x : Binary64) (den : Nat) : Binary64 :=
  match x with
  | .finite negative mantissa exponent =>
    ofQuotient negative (mantissa * Nat.pow 2 exponent.toNat) (den * Nat.pow 2 (-exponent).toNat)
  | other => other

def ofDecimal (negative : Bool) (digits : Nat) (exponent : Int) : Binary64 :=
  let size : Int := (Nat.toDigits 10 digits).length + exponent
  if digits = 0 ∨ size < -330 then .finite negative 0 minExponent
  else if 330 < size then .infinite negative
  else ofQuotient negative (digits * Nat.pow 10 exponent.toNat) (Nat.pow 10 (-exponent).toNat)

def isZero : Binary64 → Bool
  | .finite _ mantissa _ => mantissa = 0
  | _ => false

-- The nearest whole number between zero and a limit; a half goes up, and no number goes to zero.
def toNatWithin (limit : Nat) : Binary64 → Nat
  | .finite false mantissa exponent =>
    let (a, b) := (mantissa * Nat.pow 2 exponent.toNat, Nat.pow 2 (-exponent).toNat)
    min limit ((2 * a + b) / (2 * b))
  | .infinite false => limit
  | _ => 0

end Binary64

end ReplicatedStore
