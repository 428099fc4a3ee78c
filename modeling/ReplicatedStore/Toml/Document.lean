import ReplicatedStore.Toml.Scalar
import ReplicatedStore.Toml.Table
import ReplicatedStore.Toml.Text

/-!
Reads a TOML text as a table of values.
-/

namespace ReplicatedStore

namespace Toml

namespace Reader

def isScalarChar (c : Char) : Bool :=
  c.isAlphanum || c = '+' || c = '-' || c = '.' || c = '_' || c = ':'

def scalar : Reader ConfigValue := do
  let chars ← takeWhile isScalarChar
  let chars ← match date? chars, ← get with
    | some (_, []), ' ' :: c :: rest =>
      if c.isDigit then
        set (c :: rest)
        pure (chars ++ ' ' :: (← takeWhile isScalarChar))
      else pure chars
    | _, _ => pure chars
  scalar? chars

def maxDepth : Nat := 80

def key (fuel : Nat) : Reader (List String × String) := do
  let parts ← dottedKey fuel
  if maxDepth < parts.length then failure
  return (parts.dropLast, parts.getLastD "")

mutual

def value : Nat → (depth : Nat) → Reader ConfigValue
  | 0, _ => failure
  | fuel + 1, depth => do
    match ← peek?, depth with
    | some '"', _ => return .text (← string fuel '"')
    | some '\'', _ => return .text (← string fuel '\'')
    | some '[', depth + 1 =>
      expect '['
      return .list (← items fuel depth)
    | some '{', depth + 1 =>
      expect '{'
      return .table (membersToValues (← members fuel depth []))
    | _, _ => scalar

def items : Nat → (depth : Nat) → Reader (List ConfigValue)
  | 0, _ => failure
  | fuel + 1, depth => do
    gap fuel
    if ← accept ']' then return []
    let item ← value fuel depth
    gap fuel
    if ← accept ',' then return item :: (← items fuel depth)
    expect ']'
    return [item]

def members : Nat → (depth : Nat) → Members → Reader Members
  | 0, _, _ => failure
  | fuel + 1, depth, known => do
    gap fuel
    if ← accept '}' then return known
    let (path, name) ← key fuel
    gap fuel
    expect '='
    gap fuel
    let item ← value fuel depth
    let known ← known.put path name item
    gap fuel
    if ← accept ',' then return ← members fuel depth known
    expect '}'
    return known

end

def header (fuel : Nat) : Reader (Bool × List String × String) := do
  expect '['
  let row ← accept '['
  let (path, name) ← key fuel
  expect ']'
  if row then expect ']'
  return (row, path, name)

def lines : Nat → (current : List String) → Members → Reader Members
  | 0, _, _ => failure
  | fuel + 1, current, known => do
    blanks
    match ← peek? with
    | none => return known
    | some '#' | some '\n' | some '\r' =>
      endLine
      lines fuel current known
    | some '[' =>
      let (row, path, name) ← header fuel
      endLine
      let known ← if row then known.addRow path name else known.openTable path name
      lines fuel (path ++ [name]) known
    | some _ =>
      let (path, name) ← key fuel
      expect '='
      blanks
      let item ← value fuel maxDepth
      endLine
      let known ← known.descend false (fun _ table => table.put path name item) current .header
      lines fuel current known

end Reader

def withoutMark : List Char → List Char
  | '\ufeff' :: rest => rest
  | chars => chars

-- The members of the table that a text spells, if it is well formed. A byte order mark may stand in front.
def parse (text : String) : Option (List (String × ConfigValue)) := do
  let chars := withoutMark text.toList
  let (known, _) ← Reader.lines (2 * chars.length + 2) [] [] chars
  return membersToValues known

end Toml

end ReplicatedStore
