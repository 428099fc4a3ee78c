import ReplicatedStore.Encoding.FieldType

/-!
Field types by name. The nullable form of a registered type strips null markers from encodings and
leaves the rest to the type inside, without knowing its values.
-/

namespace ReplicatedStore

inductive RegisteredType where
  | typed (type : FieldType)
  | nullable (inner : RegisteredType)
  deriving DecidableEq, Repr

namespace RegisteredType

def name : RegisteredType → String
  | .typed type => type.name
  | .nullable inner => inner.name ++ "?"

def startsWithFF : RegisteredType → Bool
  | .typed type => type.startsWithFF
  | .nullable _ => true

def startsWith00 : RegisteredType → Bool
  | .typed type => type.startsWith00
  | .nullable inner => !inner.startsWithFF && inner.startsWith00

def selfDelimiting : RegisteredType → Bool
  | .typed type => type.selfDelimiting
  | .nullable inner => inner.selfDelimiting

def skip : RegisteredType → Reader Unit
  | .typed type => type.skip
  | .nullable inner => do
    if ← NullMarker.read inner.startsWithFF then return
    inner.skip

def strip (inner : RegisteredType) : Reader (Option Bytes) := do
  if ← NullMarker.read inner.startsWithFF then
    Reader.finish
    return none
  return some (← Reader.remaining)

def compareAsValues : RegisteredType → Bytes → Bytes → Except EncodingError Ordering
  | .typed type, a, b => type.compareAsValues a b
  | .nullable inner, a, b => do
    match ← (strip inner).value a, ← (strip inner).value b with
    | none, none => return .eq
    | none, some _ => return .gt
    | some _, none => return .lt
    | some x, some y => inner.compareAsValues x y

end RegisteredType

structure TypeRegistry where
  types : List RegisteredType := []
  deriving Repr

namespace TypeRegistry

def get? (registry : TypeRegistry) (name : String) : Option RegisteredType :=
  registry.types.find? (·.name == name)

def names (registry : TypeRegistry) : List String :=
  registry.types.map (·.name)

def place (type : RegisteredType) : List RegisteredType → List RegisteredType
  | [] => [type]
  | t :: rest => if type.name < t.name then type :: t :: rest else t :: place type rest

def register (registry : TypeRegistry) (type : RegisteredType) :
    Except EncodingError TypeRegistry :=
  if (registry.get? type.name).isSome then
    .error (.composition s!"field type '{type.name}' is already registered")
  else .ok ⟨place type registry.types⟩

def builtin : TypeRegistry :=
  ⟨BasicType.all.foldl (fun types t => place (.typed (.basic t)) types) []⟩

def require (registry : TypeRegistry) (name : String) : Except EncodingError RegisteredType :=
  match registry.get? name with
  | some type => .ok type
  | none => .error (.composition s!"unknown field type '{name}'")

def nullable (registry : TypeRegistry) (name : String) :
    Except EncodingError (RegisteredType × TypeRegistry) := do
  match registry.get? (name ++ "?") with
  | some type => return (type, registry)
  | none =>
    let type := .nullable (← registry.require name)
    return (type, ← registry.register type)

end TypeRegistry

end ReplicatedStore
