import ReplicatedStore.Json

/-!
Reads a JSON text, which holds one value and blanks around it.
-/

namespace ReplicatedStore

namespace Json

abbrev Parser := EStateM String (List Char)

namespace Parser

def isBlank (c : Char) : Bool :=
  c = ' ' || c = '\t' || c = '\n' || c = '\r'

def blanks : Parser Unit :=
  modify (·.dropWhile isBlank)

def next : Parser Char := do
  match ← get with
  | c :: rest =>
    set rest
    return c
  | [] => throw "text ends inside a value"

def accept (c : Char) : Parser Bool := do
  match ← get with
  | d :: rest =>
    if c = d then
      set rest
      return true
    else return false
  | [] => return false

def expect (c : Char) : Parser Unit := do
  unless ← accept c do throw s!"expected {c}"

def word (text : String) (value : Json) : Parser Json := do
  text.toList.forM expect
  return value

def digits : Parser (List Char) :=
  modifyGet fun chars => chars.span Char.isDigit

def natOfDigits (digits : List Char) : Nat :=
  digits.foldl (fun n c => 10 * n + (c.toNat - '0'.toNat)) 0

def someDigits : Parser (List Char) := do
  match ← digits with
  | [] => throw "expected a digit"
  | ds => return ds

def wholePart : Parser (List Char) := do
  match ← someDigits with
  | '0' :: _ :: _ => throw "a number starts with zero"
  | ds => return ds

def exponentPart : Parser (Option Int) := do
  let spelled ← if ← accept 'e' then pure true else accept 'E'
  if spelled then
    let negative ← accept '-'
    unless negative do
      let _ ← accept '+'
    let n : Int := natOfDigits (← someDigits)
    return some (if negative then -n else n)
  else return none

def number : Parser Json := do
  let negative ← accept '-'
  let whole ← wholePart
  let fraction ← if ← accept '.' then someDigits else pure []
  let exponent ← exponentPart
  let n := natOfDigits (whole ++ fraction)
  let mantissa : Int := if negative then -n else n
  if fraction.isEmpty && exponent.isNone && !(negative && n = 0) then
    return .integer mantissa
  else return .decimal mantissa (exponent.getD 0 - fraction.length)

def hexDigit? (c : Char) : Option Nat :=
  if '0' ≤ c ∧ c ≤ '9' then some (c.toNat - '0'.toNat)
  else if 'a' ≤ c ∧ c ≤ 'f' then some (c.toNat - 'a'.toNat + 10)
  else if 'A' ≤ c ∧ c ≤ 'F' then some (c.toNat - 'A'.toNat + 10)
  else none

def unit? (a b c d : Char) : Option Nat := do
  return (((← hexDigit? a) * 16 + (← hexDigit? b)) * 16 + (← hexDigit? c)) * 16 + (← hexDigit? d)

def isHighSurrogate (unit : Nat) : Bool := 0xD800 ≤ unit && unit < 0xDC00

def isLowSurrogate (unit : Nat) : Bool := 0xDC00 ≤ unit && unit < 0xE000

def unitOnto (unit : Nat) (read : Option (List Char)) : Option (List Char) :=
  if isHighSurrogate unit || isLowSurrogate unit then none else read.map (Char.ofNat unit :: ·)

def escaped? : Char → Option Char
  | '"' => some '"'
  | '\\' => some '\\'
  | '/' => some '/'
  | 'b' => some '\x08'
  | 'f' => some '\x0c'
  | 'n' => some '\n'
  | 'r' => some '\r'
  | 't' => some '\t'
  | _ => none

-- The characters of a string up to its closing quote, last first, and what follows the quote. A character
-- outside the basic plane is spelled as a pair of surrogates. There are no characters if a surrogate stands
-- alone.
def stringRest (read : Option (List Char)) : List Char → Except String (Option (List Char) × List Char)
  | '"' :: rest => .ok (read, rest)
  | '\\' :: 'u' :: a :: b :: c :: d :: '\\' :: 'u' :: e :: f :: g :: h :: rest =>
    match unit? a b c d, unit? e f g h with
    | some high, some low =>
      if isHighSurrogate high && isLowSurrogate low then
        let code := 0x10000 + (high - 0xD800) * 0x400 + (low - 0xDC00)
        stringRest (read.map (Char.ofNat code :: ·)) rest
      else stringRest (unitOnto high read) ('\\' :: 'u' :: e :: f :: g :: h :: rest)
    | _, _ => .error "expected a hexadecimal digit"
  | '\\' :: 'u' :: a :: b :: c :: d :: rest =>
    match unit? a b c d with
    | some unit => stringRest (unitOnto unit read) rest
    | none => .error "expected a hexadecimal digit"
  | '\\' :: c :: rest =>
    match escaped? c with
    | some c => stringRest (read.map (c :: ·)) rest
    | none => .error "no such escape"
  | c :: rest =>
    if c.toNat < 0x20 || c = '\\' then .error "control character in a string"
    else stringRest (read.map (c :: ·)) rest
  | [] => .error "text ends inside a string"

def string : Parser (Option String) := fun chars =>
  match stringRest (some []) chars with
  | .ok (read, rest) => .ok (read.map fun read => String.ofList read.reverse) rest
  | .error e => .error e chars

mutual

def value : Nat → Parser Json
  | 0 => throw "text too short"
  | fuel + 1 => do
    blanks
    match ← next with
    | '{' =>
      blanks
      if ← accept '}' then return .object []
      return (← members fuel).elim .unreadable .object
    | '[' =>
      blanks
      if ← accept ']' then return .array []
      return .array (← items fuel)
    | '"' => return (← string).elim .unreadable .string
    | 't' => word "rue" (.bool true)
    | 'f' => word "alse" (.bool false)
    | 'n' => word "ull" .null
    | c =>
      modify (c :: ·)
      number

def items : Nat → Parser (List Json)
  | 0 => throw "text too short"
  | fuel + 1 => do
    let item ← value fuel
    blanks
    if ← accept ',' then return item :: (← items fuel)
    expect ']'
    return [item]

def members : Nat → Parser (Option (List (String × Json)))
  | 0 => throw "text too short"
  | fuel + 1 => do
    blanks
    expect '"'
    let name ← string
    blanks
    expect ':'
    let item ← value fuel
    blanks
    let more ← if ← accept ',' then members fuel else do
      expect '}'
      pure (some [])
    return do return (← name, item) :: (← more)

end

end Parser

def parse (text : String) : Except String Json :=
  let chars := text.toList
  let whole : Parser Json := do
    let json ← Parser.value (chars.length + 1)
    Parser.blanks
    unless (← get).isEmpty do throw "text goes on after the value"
    return json
  match whole chars with
  | .ok json _ => .ok json
  | .error e _ => .error e

end Json

end ReplicatedStore
