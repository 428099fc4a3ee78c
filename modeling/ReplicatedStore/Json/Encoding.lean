import ReplicatedStore.Encoding.TypeRegistry
import ReplicatedStore.Json.Form

/-!
The JSON forms of field types, of their values and of failed decodings. Integers are decimal digits in
a string, floats are the hexadecimal digits of their bits.
-/

namespace ReplicatedStore

def Json.fault (kind message : String) : Json :=
  .object [("error", .string kind), ("message", .string message)]

instance [ToJson ε] [ToJson α] : ToJson (Except ε α) where
  toJson
    | .ok a => .object [("ok", toJson a)]
    | .error e => toJson e

instance : ToJson EncodingError where
  toJson e :=
    let kind := match e with
      | .truncated .. => "Truncated"
      | .malformed _ => "Invalid"
      | .trailing _ => "TrailingBytes"
      | .composition _ => "Composition"
    .fault kind e.message

def FieldType.splitName (name : String) : String × Nat :=
  let base := String.ofList (name.toList.filter (· ≠ '?'))
  (base, name.length - base.length)

def FieldType.ofName? (name : String) : Option FieldType :=
  let (base, depth) := splitName name
  (BasicType.all.find? (·.name == base)).map fun type =>
    Nat.repeat FieldType.nullable depth (.basic type)

instance : OfJson FieldType where
  ofJson json := do
    match FieldType.ofName? (← ofJson json) with
    | some type => return type
    | none => throw "expected the name of a type"

def Json.decimalDigits (n : Int) : Json := .string (toString n)

def Json.hexDigits (count n : Nat) : Json :=
  .string (String.ofList ((List.range count).reverse.map fun i => Nat.digitChar (n / Nat.pow 16 i % 16)))

def Json.natOfHex (json : Json) : Except String Nat := do
  let text : String ← ofJson json
  text.toList.foldlM (fun n c =>
    match Bytes.hexDigit? c with
    | some d => .ok (16 * n + d)
    | none => .error "expected hexadecimal digits") 0

instance : ToJson Timestamp where
  toJson t := .object [("secs", .decimalDigits t.secs), ("nanos", toJson t.nanos)]

instance : OfJson Timestamp where
  ofJson json := do
    let moment ← if json.has "ms" then do pure (Timestamp.ofMillis? (← json.getAs "ms"))
      else do pure (Timestamp.ofParts? (← json.getAs "secs") (← json.getAs "nanos"))
    moment.elim (.error "expected a moment") .ok

namespace BasicType

def valueOfJson : (type : BasicType) → Json → Except String type.Value
  | .boolean, json => (ofJson json : Except String Bool)
  | .int w, json => do return BitVec.ofInt w.bits (← ofJson json)
  | .uint w, json => do return BitVec.ofInt w.bits (← ofJson json)
  | .f32, json => do return BitVec.ofNat 32 (← json.natOfHex)
  | .f64, json => do return BitVec.ofNat 64 (← json.natOfHex)
  | .varlong, json => do return Int64.ofInt (← ofJson json)
  | .date, json => (ofJson json : Except String Timestamp)
  | .string, .string s => .ok s
  | .string, json => do
    return String.join (List.replicate (← json.getAs "times") (← json.getAs "text"))
  | .bytes, json => (ofJson json : Except String Bytes)

def valueToJson : (type : BasicType) → type.Value → Json
  | .boolean, (v : Bool) => toJson v
  | .int _, v => .decimalDigits (BitVec.toInt v)
  | .uint _, v => .decimalDigits (BitVec.toNat v)
  | .f32, v => .hexDigits 8 (BitVec.toNat v)
  | .f64, v => .hexDigits 16 (BitVec.toNat v)
  | .varlong, v => .decimalDigits (Int64.toInt v)
  | .date, (v : Timestamp) => toJson v
  | .string, (v : String) => toJson v
  | .bytes, (v : Bytes) => toJson v

end BasicType

namespace FieldType

def valueOfJson : (type : FieldType) → Json → Except String type.Value
  | .basic type, json => type.valueOfJson json
  | .nullable _, .null => .ok none
  | .nullable inner, json => some <$> inner.valueOfJson (json.member "some")

def valueToJson : (type : FieldType) → type.Value → Json
  | .basic type, v => type.valueToJson v
  | .nullable _, none => .null
  | .nullable inner, some v => .object [("some", inner.valueToJson v)]

def infoToJson (name : String) (starts00 startsFF delimiting : Bool) : Json :=
  .object [("name", toJson name), ("prefix_00", toJson starts00), ("prefix_ff", toJson startsFF),
    ("self_delimiting", toJson delimiting)]

end FieldType

instance : ToJson FieldType where
  toJson t := FieldType.infoToJson t.name t.startsWith00 t.startsWithFF t.selfDelimiting

instance : ToJson RegisteredType where
  toJson t := FieldType.infoToJson t.name t.startsWith00 t.startsWithFF t.selfDelimiting

end ReplicatedStore
