import ReplicatedStore.Cluster.Process

/-!
What carries requests between nodes: links that can be cut, or answers that were prepared beforehand.
-/

namespace ReplicatedStore

namespace Request

def kind : Request → String
  | .vote _ => "vote"
  | .append _ => "append"
  | .snapshot _ => "snapshot"
  | .commit _ => "commit"

end Request

inductive PreparedReply where
  | answer (delay : Option Nat) (response : Response)
  | silence
  deriving DecidableEq, Repr

structure Links where
  isolated : List NodeId := []
  cut : List (NodeId × NodeId) := []
  deriving DecidableEq, Repr, Inhabited

namespace Links

def reaches (links : Links) (source target : NodeId) : Bool :=
  !links.isolated.contains source && !links.isolated.contains target &&
    !links.cut.contains (source, target)

def isolate (links : Links) (id : NodeId) : Links :=
  { links with isolated := id :: links.isolated }

def heal (links : Links) (id : NodeId) : Links :=
  { links with isolated := links.isolated.filter (· ≠ id) }

def sever (links : Links) (a b : NodeId) : Links :=
  { links with cut := (a, b) :: (b, a) :: links.cut }

end Links

inductive Network where
  | links (links : Links)
  | prepared (replies : List ((String × NodeId) × List PreparedReply))
  | unconnected
  deriving Inhabited

namespace Network

def repliesFor (replies : List ((String × NodeId) × List PreparedReply)) (kind : String)
    (peer : NodeId) : List PreparedReply :=
  (replies.lookup (kind, peer)).getD []

def setReplies (replies : List ((String × NodeId) × List PreparedReply)) (kind : String)
    (peer : NodeId) (queue : List PreparedReply) : List ((String × NodeId) × List PreparedReply) :=
  ((kind, peer), queue) :: replies.filter (·.1 ≠ (kind, peer))

def dispatch (network : Network) (source target : NodeId) (receiver : Option Handle)
    (request : Request) : Dispatch × Network :=
  match network with
  | .links wires =>
    if !wires.reaches source target then
      (.refused (.transport s!"{source} cannot reach {target}"), network)
    else
      match receiver with
      | some handle => (.reaches handle, network)
      | none => (.refused (.transport s!"{target} is not running"), network)
  | .prepared replies =>
    match repliesFor replies request.kind target with
    | [] => (.refused (.transport s!"no reply from {target}"), network)
    | reply :: rest =>
      (match reply with
        | .answer delay response => .answered delay response
        | .silence => .lost,
        .prepared (setReplies replies request.kind target rest))
  | .unconnected => (.refused (.transport s!"unknown peer {target}"), network)

def reply (network : Network) (source target : NodeId) : Except Error Unit :=
  match network with
  | .links wires =>
    if wires.reaches target source then .ok ()
    else .error (.transport s!"reply from {target} to {source} lost")
  | _ => .ok ()

end Network

end ReplicatedStore
