import ReplicatedStore.Binary64

/-!
The decimal text of a binary64 number: the fewest digits that read back as the number, written without
an exponent.
-/

namespace ReplicatedStore

namespace Binary64

-- The reals that round to a number, as multiples of a quarter of its unit; the ends count if the mantissa is
-- even.
structure Interval where
  least : Nat
  greatest : Nat
  closed : Bool

def interval (mantissa : Nat) (exponent : Int) : Interval where
  least := 4 * mantissa - (if mantissa = Nat.pow 2 52 ∧ minExponent < exponent then 1 else 2)
  greatest := 4 * mantissa + 2
  closed := mantissa % 2 = 0

def quarterUnit (exponent place : Int) : Nat × Nat :=
  (Nat.pow 2 (exponent - 2).toNat * Nat.pow 10 (-place).toNat,
    Nat.pow 2 (2 - exponent).toNat * Nat.pow 10 place.toNat)

-- The multiple of a power of ten that reads back as a number, the nearer one of two; the greater one if they
-- are as near.
def onGrid? (mantissa : Nat) (exponent place : Int) : Option Nat :=
  let (a, b) := quarterUnit exponent place
  let reals := interval mantissa exponent
  let inside (digits : Nat) : Bool :=
    if reals.closed then reals.least * a ≤ digits * b && digits * b ≤ reals.greatest * a
    else reals.least * a < digits * b && digits * b < reals.greatest * a
  let below := 4 * mantissa * a / b
  match inside below, inside (below + 1) with
  | false, false => none
  | true, false => some below
  | false, true => some (below + 1)
  | true, true =>
    if 4 * mantissa * a - below * b < (below + 1) * b - 4 * mantissa * a then some below
    else some (below + 1)

def search (mantissa : Nat) (exponent : Int) : Nat → Int → Nat × Int
  | 0, place => (mantissa, place)
  | fuel + 1, place =>
    match onGrid? mantissa exponent place with
    | some digits => (digits, place)
    | none => search mantissa exponent fuel (place - 1)

def topPlace (mantissa : Nat) (exponent : Int) : Int :=
  (exponent + mantissa.log2 + 2) * 30103 / 100000 + 2

def shortest (mantissa : Nat) (exponent : Int) : Nat × Int :=
  search mantissa exponent 25 (topPlace mantissa exponent)

def positional (digits : Nat) (place : Int) : String :=
  let zeros := place.toNat
  let places := (-place).toNat
  let all := Nat.toDigits 10 digits
  let whole := List.replicate (places + 1 - all.length) '0' ++ all ++ List.replicate zeros '0'
  let point := whole.length - places
  if places = 0 then String.ofList whole
  else String.ofList (whole.take point ++ '.' :: whole.drop point)

def magnitudeText (mantissa : Nat) (exponent : Int) : String :=
  if mantissa = 0 then "0"
  else
    let (digits, place) := shortest mantissa exponent
    positional digits place

def text : Binary64 → String
  | .finite negative mantissa exponent =>
    (if negative then "-" else "") ++ magnitudeText mantissa exponent
  | .infinite negative => if negative then "-inf" else "inf"
  | .nan => "NaN"

end Binary64

end ReplicatedStore
