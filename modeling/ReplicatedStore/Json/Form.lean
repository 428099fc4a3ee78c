import ReplicatedStore.Bytes
import ReplicatedStore.Json

/-!
The JSON forms of values. Byte strings are hexadecimal digits, pairs are arrays of two, an absent value
is null, and a number may also be spelled in a string.
-/

namespace ReplicatedStore

class ToJson (α : Type) where
  toJson : α → Json

class OfJson (α : Type) where
  ofJson : Json → Except String α

export ToJson (toJson)

export OfJson (ofJson)

namespace Json

def getAs [OfJson α] (json : Json) (name : String) : Except String α :=
  match ofJson (json.member name) with
  | .ok a => .ok a
  | .error e => .error s!"{name}: {e}"

def getOr [OfJson α] (json : Json) (name : String) (default : α) : Except String α :=
  if json.has name then json.getAs name else .ok default

end Json

instance : ToJson Json := ⟨id⟩

instance : OfJson Json := ⟨.ok⟩

instance : ToJson Unit := ⟨fun _ => .null⟩

instance : ToJson Bool := ⟨.bool⟩

instance : OfJson Bool where
  ofJson
    | .bool b => .ok b
    | .null => .ok false
    | _ => .error "expected a truth value"

instance : ToJson Int := ⟨.integer⟩

instance : ToJson Nat := ⟨fun n => .integer n⟩

instance : OfJson Int where
  ofJson
    | .integer n => .ok n
    | .string s => s.toInt?.elim (.error "expected an integer") .ok
    | _ => .error "expected an integer"

instance : OfJson Nat where
  ofJson json := do
    match ← ofJson json with
    | Int.ofNat n => return n
    | Int.negSucc _ => throw "expected a natural number"

instance : ToJson String := ⟨.string⟩

instance : OfJson String where
  ofJson
    | .string s => .ok s
    | _ => .error "expected a string"

instance [ToJson α] : ToJson (Option α) where
  toJson
    | none => .null
    | some a => toJson a

instance [OfJson α] : OfJson (Option α) where
  ofJson
    | .null => .ok none
    | json => some <$> ofJson json

instance [ToJson α] : ToJson (List α) where
  toJson as := .array (as.map toJson)

instance [OfJson α] : OfJson (List α) where
  ofJson
    | .null => .ok []
    | .array items => items.mapM ofJson
    | _ => .error "expected an array"

instance [ToJson α] [ToJson β] : ToJson (α × β) where
  toJson p := .array [toJson p.1, toJson p.2]

instance [OfJson α] [OfJson β] : OfJson (α × β) where
  ofJson
    | .array [a, b] => do return (← ofJson a, ← ofJson b)
    | _ => .error "expected an array of two"

instance : ToJson Ordering where
  toJson
    | .lt => .integer (-1)
    | .eq => .integer 0
    | .gt => .integer 1

namespace Bytes

def hex (bytes : Bytes) : String :=
  String.ofList
    (bytes.flatMap fun b => [Nat.digitChar (b.toNat / 16), Nat.digitChar (b.toNat % 16)])

def hexDigit? (c : Char) : Option Nat :=
  if '0' ≤ c ∧ c ≤ '9' then some (c.toNat - '0'.toNat)
  else if 'a' ≤ c ∧ c ≤ 'f' then some (c.toNat - 'a'.toNat + 10)
  else none

def ofHexDigits? (read : Bytes) : List Char → Option Bytes
  | [] => some read.reverse
  | a :: b :: rest =>
    match hexDigit? a, hexDigit? b with
    | some x, some y => ofHexDigits? (UInt8.ofNat (16 * x + y) :: read) rest
    | _, _ => none
  | [_] => none

def ofHex? (text : String) : Option Bytes := ofHexDigits? [] text.toList

end Bytes

instance : ToJson Bytes := ⟨fun bytes => .string bytes.hex⟩

instance : OfJson Bytes where
  ofJson
    | .string s => (Bytes.ofHex? s).elim (.error "expected hexadecimal digits") .ok
    | json => do
      match Bytes.ofHex? (← json.getAs "hex") with
      | some piece => return (List.replicate (← json.getAs "times") piece).flatten
      | none => throw "expected hexadecimal digits"

end ReplicatedStore
