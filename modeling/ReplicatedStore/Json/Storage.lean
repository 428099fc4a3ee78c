import ReplicatedStore.Json.KeySpace
import ReplicatedStore.Storage.HardState
import ReplicatedStore.Storage.LogStore

/-!
The JSON forms of log entries and snapshots, and changes made to files from outside.
-/

namespace ReplicatedStore

instance : ToJson LogEntry where
  toJson e := .array [toJson e.term, toJson e.index, toJson e.command]

instance : OfJson LogEntry where
  ofJson
    | .array [term, index, command] =>
      do return ⟨← ofJson term, ← ofJson index, ← ofJson command⟩
    | _ => .error "expected an entry"

instance : ToJson Snapshot where
  toJson s := .array [toJson s.index, toJson s.term, toJson s.data]

instance : ToJson HardState where
  toJson s := .array [toJson s.term, toJson s.votedFor]

instance : ToJson SyncPolicy := ⟨fun policy => .string policy.name⟩

instance : OfJson SyncPolicy where
  ofJson json := do
    match ← ofJson json with
    | none => return .always
    | some name => (SyncPolicy.ofName? name).elim (.error s!"no such policy: {name}") .ok

namespace Volume

inductive Edit where
  | store (content : Bytes)
  | append (bytes : Bytes)
  | cut (count : Nat)
  | flip (place : Int) (mask : UInt8)
  | delete
  | makeDirectory
  | deleteDirectory
  deriving DecidableEq, Repr

def edit (volume : Volume) (name : String) (change : Edit) : Volume :=
  let content := (volume.content? name).getD []
  match volume.find? name, change with
  | some .directory, .deleteDirectory => volume.without name
  | some .directory, _ => volume
  | none, .makeDirectory => volume.put name .directory
  | _, .makeDirectory | _, .deleteDirectory => volume
  | _, .store content => volume.store name content
  | _, .append bytes => volume.store name (content ++ bytes)
  | _, .cut count => volume.store name (content.take (content.length - count))
  | _, .flip place mask =>
    let i := if place < 0 then (content.length + place).toNat else place.toNat
    volume.store name (content.modify i (· ^^^ mask))
  | _, .delete => volume.without name

def listing (volume : Volume) (names : List String) : Json :=
  .object (names.map fun name => (name, toJson (volume.content? name)))

end Volume

instance : OfJson (Option Volume.Edit) where
  ofJson json := do
    match ← json.getAs "do" with
    | "set" => return some (.store (← json.getAs "hex"))
    | "glue" => return some (.append (← json.getAs "hex"))
    | "cut" => return some (.cut (← json.getAs "drop"))
    | "xor" => return some (.flip (← json.getAs "at") (UInt8.ofNat (← json.getAs "with")))
    | "delete" => return some .delete
    | "mkdir" => return some .makeDirectory
    | "rmdir" => return some .deleteDirectory
    | _ => return none

end ReplicatedStore
