import ReplicatedStore.Config.Value
import ReplicatedStore.Timestamp.Calendar

/-!
The scalars of a TOML text that are written without quotes: truth values, integers, reals, dates and
times. Dates and times are values only as texts.
-/

namespace ReplicatedStore

namespace Toml

def ungrouped? (isDigit : Char → Bool) : List Char → Option (List Char)
  | [] => none
  | [c] => if isDigit c then some [c] else none
  | c :: '_' :: d :: rest =>
    if isDigit c && isDigit d then (ungrouped? isDigit (d :: rest)).map (c :: ·) else none
  | c :: rest => if isDigit c then (ungrouped? isDigit rest).map (c :: ·) else none

def digitValue (c : Char) : Nat :=
  if c.isDigit then c.toNat - '0'.toNat
  else if c.isLower then c.toNat - 'a'.toNat + 10
  else c.toNat - 'A'.toNat + 10

def isDigitOf (radix : Nat) (c : Char) : Bool := c.isAlphanum && digitValue c < radix

def valueOf (radix : Nat) (digits : List Char) : Nat :=
  digits.foldl (fun n c => radix * n + digitValue c) 0

def unsigned : List Char → Option Bool × List Char
  | '+' :: rest => (some false, rest)
  | '-' :: rest => (some true, rest)
  | chars => (none, chars)

def wholeDigits? (chars : List Char) : Option (List Char) := do
  let digits ← ungrouped? Char.isDigit chars
  match digits with
  | '0' :: _ :: _ => none
  | _ => return digits

def integer? (chars : List Char) : Option Int := do
  let n ← match chars with
    | '0' :: 'x' :: rest => valueOf 16 <$> ungrouped? (isDigitOf 16) rest |>.map Int.ofNat
    | '0' :: 'o' :: rest => valueOf 8 <$> ungrouped? (isDigitOf 8) rest |>.map Int.ofNat
    | '0' :: 'b' :: rest => valueOf 2 <$> ungrouped? (isDigitOf 2) rest |>.map Int.ofNat
    | _ =>
      let (negative, rest) := unsigned chars
      let n : Int := valueOf 10 (← wholeDigits? rest)
      pure (if negative = some true then -n else n)
  let bound : Int := Nat.pow 2 63
  if -bound ≤ n ∧ n < bound then return n else none

def exponent? : List Char → Option Int
  | [] => some 0
  | _ :: rest => do
    let (negative, digits) := unsigned rest
    let n : Int := valueOf 10 (← ungrouped? Char.isDigit digits)
    return if negative = some true then -n else n

def real? (chars : List Char) : Option Binary64 := do
  let (sign, magnitude) := unsigned chars
  let negative := sign = some true
  if magnitude = ['i', 'n', 'f'] then return .infinite negative
  if magnitude = ['n', 'a', 'n'] then return .nan
  let (mantissa, exponent) := magnitude.span fun c => c ≠ 'e' && c ≠ 'E'
  let (whole, fraction) := mantissa.span (· ≠ '.')
  if fraction.isEmpty && exponent.isEmpty then none
  let wholeDigits ← wholeDigits? whole
  let fractionDigits ← match fraction with
    | [] => pure []
    | _ :: digits => ungrouped? Char.isDigit digits
  let e ← exponent? exponent
  match Binary64.ofDecimal negative (valueOf 10 (wholeDigits ++ fractionDigits))
      (e - fractionDigits.length) with
  | .infinite _ => none
  | x => return x

def fixed? (count : Nat) (chars : List Char) : Option (Nat × List Char) :=
  let digits := chars.take count
  if digits.length = count && digits.all Char.isDigit then
    some (valueOf 10 digits, chars.drop count)
  else none

def literal? (c : Char) : List Char → Option (List Char)
  | d :: rest => if c = d then some rest else none
  | [] => none

def twoDigits (n : Nat) : String := String.ofList [Nat.digitChar (n / 10), Nat.digitChar (n % 10)]

def date? (chars : List Char) : Option (String × List Char) := do
  let (year, rest) ← fixed? 4 chars
  let (month, rest) ← fixed? 2 (← literal? '-' rest)
  let (day, rest) ← fixed? 2 (← literal? '-' rest)
  if ({ year, month, day } : CalendarDate).isValid then
    return (String.ofList (chars.take 10), rest)
  else none

def fraction? : List Char → Option (String × List Char)
  | '.' :: rest =>
    let (digits, rest) := rest.span Char.isDigit
    if digits.isEmpty then none
    else
      let counted := ((digits.take 9).reverse.dropWhile (· = '0')).reverse
      some (String.ofList ('.' :: (if counted.isEmpty then ['0'] else counted)), rest)
  | rest => some ("", rest)

def time? (chars : List Char) : Option (String × List Char) := do
  let (hour, rest) ← fixed? 2 chars
  let (minute, rest) ← fixed? 2 (← literal? ':' rest)
  if 23 < hour || 59 < minute then none
  let start := twoDigits hour ++ ":" ++ twoDigits minute
  match rest with
  | ':' :: rest =>
    let (second, rest) ← fixed? 2 rest
    if 60 < second then none
    let (fraction, rest) ← fraction? rest
    return (start ++ ":" ++ twoDigits second ++ fraction, rest)
  | _ => return (start, rest)

def offset? : List Char → Option String
  | [] => some ""
  | ['Z'] | ['z'] => some "Z"
  | sign :: rest => do
    if sign ≠ '+' && sign ≠ '-' then none
    let (hours, rest) ← fixed? 2 rest
    let (minutes, rest) ← fixed? 2 (← literal? ':' rest)
    if !rest.isEmpty || 23 < hours || 59 < minutes then none
    let sign := if hours = 0 && minutes = 0 then '+' else sign
    return sign.toString ++ twoDigits hours ++ ":" ++ twoDigits minutes

def moment? (chars : List Char) : Option String :=
  match date? chars with
  | some (date, []) => some date
  | some (date, c :: rest) => do
    if c ≠ 'T' && c ≠ 't' && c ≠ ' ' then none
    let (time, rest) ← time? rest
    return date ++ "T" ++ time ++ (← offset? rest)
  | none =>
    match time? chars with
    | some (time, []) => some time
    | _ => none

def scalar? (chars : List Char) : Option ConfigValue :=
  if chars = ['t', 'r', 'u', 'e'] then some (.truth true)
  else if chars = ['f', 'a', 'l', 's', 'e'] then some (.truth false)
  else
    match integer? chars with
    | some n => some (.integer n)
    | none =>
      match real? chars with
      | some x => some (.real x)
      | none => (moment? chars).map .text

end Toml

end ReplicatedStore
