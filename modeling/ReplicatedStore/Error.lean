import ReplicatedStore.Encoding.Reader

/-!
Why an operation of the store fails, how each failure reads, and what a client may do about it.
-/

namespace ReplicatedStore

inductive Error where
  | io (reason : String)
  | corrupted (what : String)
  | encoding (error : EncodingError)
  | log (what : String)
  | notLeader (leader : Option String)
  | indeterminate (what : String)
  | conflict (what : String)
  | transactionClosed
  | readOnly
  | unavailable (what : String)
  | mergeFailed (what : String)
  | transport (what : String)
  | invalidConfig (what : String)
  | config (what : String)
  | serialization (what : String)
  | timeout (what : String)
  | internal (what : String)
  deriving DecidableEq, Repr, Inhabited

namespace Error

def message : Error → String
  | .io reason => s!"I/O error: {reason}"
  | .corrupted what => s!"Corrupted data: {what}"
  | .encoding error => s!"Codec error: {error.message}"
  | .log what => s!"Log error: {what}"
  | .notLeader leader => s!"Not leader: current leader is {leader.getD defaultLeader}"
  | .indeterminate what => s!"Commit outcome unknown: {what}"
  | .conflict what => s!"Transaction conflict: {what}"
  | .transactionClosed => "Transaction is no longer usable"
  | .readOnly => "Transaction is read-only"
  | .unavailable what => s!"Store unavailable: {what}"
  | .mergeFailed what => s!"Merge failed: {what}"
  | .transport what => s!"Transport error: {what}"
  | .invalidConfig what => s!"Invalid configuration: {what}"
  | .config what => s!"Configuration error: {what}"
  | .serialization what => s!"Serialization error: {what}"
  | .timeout what => s!"Operation timeout: {what}"
  | .internal what => s!"Internal error: {what}"
where
  defaultLeader : String := "unknown"

-- Whether the whole transaction may be tried again. A commit of unknown outcome may not: its writes can still
-- take effect.
def isRetryable : Error → Bool
  | .conflict _ | .notLeader _ | .timeout _ | .unavailable _ | .transport _ => true
  | _ => false

def isFatal : Error → Bool
  | .encoding _ | .corrupted _ => true
  | _ => false

def status : Error → Nat
  | .conflict _ => 409
  | .invalidConfig _ | .readOnly => 400
  | .timeout _ => 408
  | .indeterminate _ => 504
  | .notLeader _ | .unavailable _ | .transport _ => 503
  | _ => 500

end Error

def EncodingError.lift : Except EncodingError α → Except Error α
  | .ok a => .ok a
  | .error e => .error (.encoding e)

end ReplicatedStore
