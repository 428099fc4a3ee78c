/-!
Addresses to listen on: an IP address of either version and a port. IP version 6 is written in its
canonical form, with the first of the longest runs of zeros left out.
-/

namespace ReplicatedStore

inductive SocketAddress where
  | v4 (octets : List Nat) (port : Nat)
  | v6 (groups : List Nat) (scope port : Nat)
  deriving DecidableEq, Repr, Inhabited

namespace SocketAddress

def anyV4 (port : Nat) : SocketAddress := .v4 [0, 0, 0, 0] port

abbrev Reading (α : Type) := List Char → Option (α × List Char)

def char (c : Char) : Reading Unit
  | d :: rest => if c = d then some ((), rest) else none
  | [] => none

def digitValue? (radix : Nat) (c : Char) : Option Nat :=
  let value :=
    if '0' ≤ c ∧ c ≤ '9' then c.toNat - '0'.toNat
    else if 'a' ≤ c ∧ c ≤ 'f' then c.toNat - 'a'.toNat + 10
    else if 'A' ≤ c ∧ c ≤ 'F' then c.toNat - 'A'.toNat + 10
    else radix
  if value < radix then some value else none

def number (radix limit : Nat) : Reading Nat := fun chars =>
  let (digits, rest) := chars.span fun c => (digitValue? radix c).isSome
  let value := digits.foldl (fun n c => radix * n + (digitValue? radix c).getD 0) 0
  if digits.isEmpty || limit < value then none else some (value, rest)

def octet : Reading Nat := fun chars =>
  match number 10 255 chars with
  | none => none
  | some (n, rest) =>
    let size := chars.length - rest.length
    if 3 < size || (size ≠ 1 && chars.head? = some '0') then none else some (n, rest)

def ipV4 : Reading (List Nat) := fun chars => do
  let (a, rest) ← octet chars
  let (_, rest) ← char '.' rest
  let (b, rest) ← octet rest
  let (_, rest) ← char '.' rest
  let (c, rest) ← octet rest
  let (_, rest) ← char '.' rest
  let (d, rest) ← octet rest
  return ([a, b, c, d], rest)

def group : Reading Nat := fun chars => do
  let (n, rest) ← number 16 0xFFFFFFFF chars
  if 4 < chars.length - rest.length then none else return (n, rest)

-- As many groups as there are, but not more than `limit`. The last two may be written as four octets; tells
-- whether they are.
def groups : (limit : Nat) → (first : Bool) → List Char → (List Nat × Bool) × List Char
  | 0, _, chars => (([], false), chars)
  | left + 1, first, chars =>
    let start := if first then some chars else (char ':' chars).map (·.2)
    match (if left = 0 then none else start >>= ipV4) with
    | some ([a, b, c, d], rest) => (([256 * a + b, 256 * c + d], true), rest)
    | _ =>
      match start >>= group with
      | some (n, rest) =>
        let ((more, octets), rest) := groups left false rest
        ((n :: more, octets), rest)
      | none => (([], false), chars)

def ipV6 : Reading (List Nat) := fun chars => do
  let ((head, octets), rest) := groups 8 true chars
  if head.length = 8 then return (head, rest)
  if octets then none
  let (_, rest) ← char ':' rest
  let (_, rest) ← char ':' rest
  let ((tail, _), rest) := groups (7 - head.length) true rest
  return (head ++ List.replicate (8 - head.length - tail.length) 0 ++ tail, rest)

def port : Reading Nat := fun chars => do
  let (_, rest) ← char ':' chars
  number 10 65535 rest

def scope : Reading Nat := fun chars => do
  let (_, rest) ← char '%' chars
  number 10 0xFFFFFFFF rest

def readV4 : Reading SocketAddress := fun chars => do
  let (octets, rest) ← ipV4 chars
  let (port, rest) ← port rest
  return (.v4 octets port, rest)

def readV6 : Reading SocketAddress := fun chars => do
  let (_, rest) ← char '[' chars
  let (groups, rest) ← ipV6 rest
  let (scope, rest) := (scope rest).getD (0, rest)
  let (_, rest) ← char ']' rest
  let (port, rest) ← port rest
  return (.v6 groups scope port, rest)

def ofText? (text : String) : Option SocketAddress :=
  match (readV4 text.toList).or (readV6 text.toList) with
  | some (address, []) => some address
  | _ => none

def longestZeros (groups : List Nat) : Nat × Nat :=
  go 0 0 (0, 0) groups
where
  go (i run : Nat) (longest : Nat × Nat) : List Nat → Nat × Nat
    | [] => longest
    | g :: rest =>
      let run := if g = 0 then run + 1 else 0
      go (i + 1) run (if longest.2 < run then (i + 1 - run, run) else longest) rest

def groupText (n : Nat) : String := String.ofList (Nat.toDigits 16 n)

def octetsText (octets : List Nat) : String :=
  ".".intercalate (octets.map toString)

def ipV6Text (groups : List Nat) : String :=
  match groups with
  | [0, 0, 0, 0, 0, 0xFFFF, a, b] =>
    "::ffff:" ++ octetsText [a / 256, a % 256, b / 256, b % 256]
  | _ =>
    let join (part : List Nat) : String := ":".intercalate (part.map groupText)
    let (start, size) := longestZeros groups
    if size ≤ 1 then join groups
    else join (groups.take start) ++ "::" ++ join (groups.drop (start + size))

def text : SocketAddress → String
  | .v4 octets port => s!"{octetsText octets}:{port}"
  | .v6 groups 0 port => s!"[{ipV6Text groups}]:{port}"
  | .v6 groups scope port => s!"[{ipV6Text groups}%{scope}]:{port}"

end SocketAddress

end ReplicatedStore
