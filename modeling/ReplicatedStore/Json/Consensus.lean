import ReplicatedStore.Consensus.Message
import ReplicatedStore.Json.Storage

/-!
The JSON forms of the messages between nodes. A point of the log is written as index and term.
-/

namespace ReplicatedStore

def Json.getPoint (json : Json) (name : String) : Except String (Nat × Nat) :=
  json.getOr name (0, 0)

instance : ToJson VoteRequest where
  toJson m :=
    .object [("term", toJson m.term), ("candidate", toJson m.candidate),
      ("last_index", toJson m.lastIndex), ("last_term", toJson m.lastTerm)]

instance : OfJson VoteRequest where
  ofJson json := do
    return ⟨← json.getAs "term", ← json.getAs "candidate", ← json.getOr "last_index" 0,
      ← json.getOr "last_term" 0⟩

instance : ToJson VoteResponse where
  toJson m := .object [("term", toJson m.term), ("granted", toJson m.granted)]

instance : OfJson VoteResponse where
  ofJson json := do return ⟨← json.getAs "term", ← json.getAs "granted"⟩

instance : ToJson AppendRequest where
  toJson m :=
    .object [("term", toJson m.term), ("leader", toJson m.leader),
      ("prev", toJson (m.prevIndex, m.prevTerm)), ("entries", toJson m.entries),
      ("commit", toJson m.commit)]

instance : OfJson AppendRequest where
  ofJson json := do
    let (prevIndex, prevTerm) ← json.getPoint "prev"
    return ⟨← json.getAs "term", ← json.getAs "leader", prevIndex, prevTerm, ← json.getAs "entries",
      ← json.getOr "commit" 0⟩

instance : ToJson AppendResponse where
  toJson m :=
    .object [("term", toJson m.term), ("success", toJson m.success), ("match", toJson m.agreesThrough),
      ("conflict", toJson m.resumeAt)]

instance : OfJson AppendResponse where
  ofJson json := do
    return ⟨← json.getAs "term", ← json.getAs "success", ← json.getOr "match" 0,
      ← json.getOr "conflict" 0⟩

instance : ToJson SnapshotRequest where
  toJson m :=
    .object [("term", toJson m.term), ("leader", toJson m.leader), ("index", toJson m.index),
      ("index_term", toJson m.indexTerm), ("data", toJson m.data)]

instance : OfJson SnapshotRequest where
  ofJson json := do
    return ⟨← json.getAs "term", ← json.getAs "leader", ← json.getAs "index", ← json.getAs "index_term",
      ← json.getOr "data" ([] : Bytes)⟩

instance : ToJson SnapshotResponse where
  toJson m := .object [("term", toJson m.term)]

instance : OfJson SnapshotResponse where
  ofJson json := do return ⟨← json.getAs "term"⟩

instance : ToJson CommitRequest where
  toJson m :=
    .object [("base", toJson (m.baseIndex, m.baseTerm)), ("reads", toJson m.reads),
      ("mutations", toJson m.mutations)]

instance : OfJson CommitRequest where
  ofJson json := do
    let (baseIndex, baseTerm) ← json.getPoint "base"
    return ⟨baseTerm, baseIndex, ⟨← json.getAs "reads"⟩, ← json.getOr "mutations" ([] : Bytes)⟩

instance : ToJson CommitOutcome where
  toJson
    | .committed term index => .object [("committed", toJson (term, index))]
    | .conflict what => .object [("conflict", toJson what)]
    | .notLeader leader => .object [("not_leader", toJson leader)]
    | .indeterminate what => .object [("indeterminate", toJson what)]
    | .failed what => .object [("failed", toJson what)]

instance : OfJson CommitOutcome where
  ofJson json := do
    if json.has "committed" then
      let (term, index) ← json.getPoint "committed"
      return .committed term index
    else if json.has "conflict" then return .conflict (← json.getAs "conflict")
    else if json.has "indeterminate" then return .indeterminate (← json.getAs "indeterminate")
    else if json.has "failed" then return .failed (← json.getAs "failed")
    else return .notLeader (← json.getAs "not_leader")

end ReplicatedStore
