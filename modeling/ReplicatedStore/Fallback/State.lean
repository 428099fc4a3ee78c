import ReplicatedStore.Encoding.Utf8
import ReplicatedStore.Error
import ReplicatedStore.Json.Form
import ReplicatedStore.Json.Parser
import ReplicatedStore.Json.Printer
import ReplicatedStore.Storage.Volume
import ReplicatedStore.Timestamp.Text

/-!
Which store a node serves from, kept in the file `fallback.state` as a JSON object.
-/

namespace ReplicatedStore

inductive ActiveStore where
  | replicated
  | standalone
  deriving DecidableEq, Repr, Inhabited

namespace ActiveStore

def name : ActiveStore → String
  | .replicated => "replicated"
  | .standalone => "standalone"

def ofName? : String → Option ActiveStore
  | "replicated" => some .replicated
  | "standalone" => some .standalone
  | _ => none

end ActiveStore

instance : ToJson ActiveStore := ⟨fun store => .string store.name⟩

instance : OfJson ActiveStore where
  ofJson json := do
    (ActiveStore.ofName? (← ofJson json)).elim (.error "expected the name of a store") .ok

structure FallbackState where
  active : ActiveStore := .replicated
  lastSeen : Option Timestamp := none
  deriving DecidableEq, Inhabited

namespace FallbackState

def fileName : String := "fallback.state"

def momentToJson : Option Timestamp → Json
  | none => .null
  | some moment => .string moment.text

def encode (state : FallbackState) : String :=
  Json.pretty (.object [("active", toJson state.active), ("last_active_time", momentToJson state.lastSeen)])

def activeOfJson? : Json → Option ActiveStore
  | .string name => ActiveStore.ofName? name
  | .object [(name, .null)] => ActiveStore.ofName? name
  | _ => none

def momentOfJson? : Json → Option (Option Timestamp)
  | .null => some none
  | .string text => (Timestamp.ofText? text).map some
  | _ => none

def valuesOf (name : String) (members : List (String × Json)) : List Json :=
  (members.filter (·.1 == name)).map (·.2)

def ofJson? : Json → Option FallbackState
  | .array [active, moment] => do return ⟨← activeOfJson? active, ← momentOfJson? moment⟩
  | .object members =>
    match valuesOf "active" members, valuesOf "last_active_time" members with
    | [active], [] => do return ⟨← activeOfJson? active, none⟩
    | [active], [moment] => do return ⟨← activeOfJson? active, ← momentOfJson? moment⟩
    | _, _ => none
  | _ => none

def decode (text : String) : Except Error FallbackState :=
  match Json.parse text with
  | .error e => .error (.serialization e)
  | .ok json => (ofJson? json).elim (.error (.serialization "not a state of the coordinator")) .ok

def load : Disk FallbackState := do
  match ← Disk.read? fileName with
  | none => return {}
  | some content =>
    match String.fromUTF8? ⟨content.toArray⟩ with
    | none => throw (.serialization "not a text")
    | some text =>
      match decode text with
      | .ok state => return state
      | .error e => throw e

def save (state : FallbackState) : Disk Unit :=
  Disk.replace fileName (Bytes.ofText (encode state))

end FallbackState

end ReplicatedStore
