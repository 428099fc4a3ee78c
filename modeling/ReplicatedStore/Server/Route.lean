import ReplicatedStore.Encoding.Utf8
import ReplicatedStore.Server.Message

/-!
Which parts of the server paths lead to, and which methods are allowed there.
-/

namespace ReplicatedStore

inductive MessageKind where
  | vote
  | append
  | snapshot
  | commit
  deriving DecidableEq, Repr

inductive Route where
  | message (kind : MessageKind)
  | key (written : String)
  | status
  | metrics
  deriving DecidableEq, Repr

namespace Route

def key? (path : String) : Option String :=
  let chars := path.toList
  let stem := "/kv/".toList
  let rest := chars.drop stem.length
  if stem.isPrefixOf chars && !rest.isEmpty && !rest.contains '/' then some (String.ofList rest)
  else none

def ofPath? (path : String) : Option Route :=
  match path with
  | "/raft/vote" => some (.message .vote)
  | "/raft/append" => some (.message .append)
  | "/raft/snapshot" => some (.message .snapshot)
  | "/raft/commit" => some (.message .commit)
  | "/status" => some .status
  | "/metrics" => some .metrics
  | _ => (key? path).map .key

def methods : Route → List String
  | .message _ => ["POST"]
  | .key _ => ["GET", "HEAD", "PUT", "DELETE"]
  | .status | .metrics => ["GET", "HEAD"]

end Route

def percentDecode : List Char → Bytes
  | '%' :: a :: b :: rest =>
    match hexValue? a, hexValue? b with
    | some x, some y => UInt8.ofNat (16 * x + y) :: percentDecode rest
    | _, _ => Bytes.ofText "%" ++ percentDecode (a :: b :: rest)
  | c :: rest => Bytes.ofText c.toString ++ percentDecode rest
  | [] => []
where
  hexValue? (c : Char) : Option Nat := Bytes.hexDigit? c.toLower

def keyText? (written : String) : Option String :=
  (Utf8.decode (percentDecode written.toList)).toOption

end ReplicatedStore
