import ReplicatedStore.Json.Encoding
import ReplicatedStore.KeySpace.TransactionView

/-!
The JSON forms of errors, key ranges, maps, write sets, and the operations of a transaction.
-/

namespace ReplicatedStore

def Error.kind : Error → String
  | .io _ => "Io"
  | .corrupted _ => "Corrupted"
  | .encoding _ => "Codec"
  | .log _ => "Log"
  | .notLeader _ => "NotLeader"
  | .indeterminate _ => "CommitIndeterminate"
  | .conflict _ => "Conflict"
  | .transactionClosed => "TransactionClosed"
  | .readOnly => "ReadOnly"
  | .unavailable _ => "Unavailable"
  | .mergeFailed _ => "MergeFailed"
  | .transport _ => "Transport"
  | .invalidConfig _ => "InvalidConfig"
  | .config _ => "Config"
  | .serialization _ => "Serialization"
  | .timeout _ => "Timeout"
  | .internal _ => "Internal"

instance : ToJson Error where
  toJson e :=
    match e with
    | .io _ | .config _ | .serialization _ => .object [("error", .string e.kind)]
    | _ => .fault e.kind e.message

instance : OfJson Error where
  ofJson json := do
    match json with
    | .array (kind :: arguments) =>
      let first := arguments.headD .null
      let text := match first with
        | .string s => s
        | _ => ""
      match ← ofJson kind with
      | "Io" => return .io text
      | "Corrupted" => return .corrupted text
      | "Log" => return .log text
      | "NotLeader" => return .notLeader (← ofJson first)
      | "CommitIndeterminate" => return .indeterminate text
      | "Conflict" => return .conflict text
      | "TransactionClosed" => return .transactionClosed
      | "ReadOnly" => return .readOnly
      | "Unavailable" => return .unavailable text
      | "MergeFailed" => return .mergeFailed text
      | "Transport" => return .transport text
      | "InvalidConfig" => return .invalidConfig text
      | "Config" => return .config text
      | "Serialization" => return .serialization text
      | "Timeout" => return .timeout text
      | "Internal" => return .internal text
      | "Truncated" =>
        return .encoding (.truncated (← ofJson first) (← ofJson (arguments.getD 1 .null)))
      | "Invalid" => return .encoding (.malformed text)
      | "TrailingBytes" => return .encoding (.trailing (← ofJson first))
      | "Composition" => return .encoding (.composition text)
      | other => throw s!"no such error: {other}"
    | _ => throw "expected an error"

instance : ToJson KeyRange := ⟨fun range => toJson (range.min, range.max)⟩

instance : OfJson KeyRange where
  ofJson json := do
    let (min, max) ← ofJson json
    return ⟨min, max⟩

instance : ToJson KeyRanges := ⟨fun set => toJson set.ranges⟩

instance : OfJson KeyRanges where
  ofJson json := KeyRanges.ofList <$> ofJson json

instance : ToJson KeyMap := ⟨fun map => toJson map.pairs⟩

instance : OfJson KeyMap where
  ofJson json := KeyMap.ofList <$> ofJson json

instance : ToJson WriteSet where
  toJson w := .object [("removes", toJson w.removes), ("puts", toJson w.puts)]

instance : ToJson KeyFate where
  toJson
    | .put value => .object [("put", toJson value)]
    | .removed => .string "removed"
    | .untouched => .string "untouched"

instance : ToJson Answer where
  toJson
    | .value value => toJson value
    | .pair pair => toJson pair
    | .pairs pairs => toJson pairs
    | .done => .null

instance : OfJson (Option Operation) where
  ofJson json := do
    match ← json.getAs "do" with
    | "get" => return some (.get (← json.getAs "key"))
    | "at_least" => return some (.atLeast (← json.getAs "min") (← json.getAs "max"))
    | "at_most" => return some (.atMost (← json.getAs "max") (← json.getAs "min"))
    | "range" => return some (.range (← json.getAs "range") (← json.getAs "reverse"))
    | "put" => return some (.put (← json.getAs "key") (← json.getAs "value"))
    | "remove" => return some (.remove (← json.getAs "key"))
    | "remove_range" => return some (.removeRange (← json.getAs "range"))
    | _ => return none

end ReplicatedStore
