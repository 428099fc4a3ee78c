import ReplicatedStore.Proofs.Consensus.Mirror
import ReplicatedStore.Cluster.Process

/-!
What the messages of a cluster say of its chronicle. Whatever they say stays true, so a message may come
late, or more than once.
-/

namespace ReplicatedStore

namespace Chronicle

structure Stands (K : Cluster) (c : Chronicle) (source : NodeId) (q : VoteRequest) : Prop where
  member : source ∈ K.ids
  candidate : q.candidate = source
  term_lt : q.term < 2 ^ 64
  vote : c.vote source q.term = some source
  lastIndex : q.lastIndex = (c.ballot q.term source).length
  lastTerm : q.lastTerm = (c.ballot q.term source).lastTerm

structure Offers (K : Cluster) (c : Chronicle) (source : NodeId) (q : AppendRequest) : Prop where
  term_lt : q.term < 2 ^ 64
  leader : c.leader q.term = some source
  prev_le : q.prevIndex ≤ (c.log q.term).length
  prevTerm : q.prevTerm = (c.log q.term).termAt q.prevIndex
  entries : (c.log q.term).take q.prevIndex ++ q.entries <+: c.log q.term
  fits : ∀ e ∈ q.entries, e.Fits
  commit_le : q.commit ≤ (c.log q.term).length
  settled : Settled K.ids c q.term ((c.log q.term).take q.commit)

structure Ships (K : Cluster) (c : Chronicle) (source : NodeId) (q : SnapshotRequest) : Prop where
  term_lt : q.term < 2 ^ 64
  leader : c.leader q.term = some source
  index_le : q.index ≤ (c.log q.term).length
  captures : Snapshot.Captures ⟨q.index, q.indexTerm, q.data⟩ (c.log q.term)
  fits : Snapshot.Fits ⟨q.index, q.indexTerm, q.data⟩
  short : q.data.length < 2 ^ 64
  settled : Settled K.ids c q.term ((c.log q.term).take q.index)

def Says (K : Cluster) (c : Chronicle) (source : NodeId) : Request → Prop
  | .vote q => Stands K c source q
  | .append q => Offers K c source q
  | .snapshot q => Ships K c source q
  | .commit _ => True

def Answers (c : Chronicle) (source target : NodeId) : Request → Response → Prop
  | .vote q, .vote r => r.term < 2 ^ 64 ∧ (r.granted → c.vote source q.term = some target)
  | .append q, .append r =>
    r.term < 2 ^ 64 ∧ (r.success → r.agreesThrough ≤ c.acked source q.term)
  | .snapshot q, .snapshot r =>
    r.term < 2 ^ 64 ∧ (r.term ≤ q.term → q.index ≤ c.acked source q.term)
  | _, _ => True

variable {K : Cluster} {c c' : Chronicle} {source target : NodeId}

theorem Stands.mono {q : VoteRequest} (hq : Stands K c source q) (he : c.Extends c')
    : Stands K c' source q where
  member := hq.member
  candidate := hq.candidate
  term_lt := hq.term_lt
  vote := he.vote _ _ _ hq.vote
  lastIndex := by
    rw [he.ballot _ _ hq.vote]
    exact hq.lastIndex
  lastTerm := by
    rw [he.ballot _ _ hq.vote]
    exact hq.lastTerm

theorem Offers.mono {q : AppendRequest} (hq : Offers K c source q) (hc : c.Lawful K.ids)
    (he : c.Extends c')
    : Offers K c' source q where
  term_lt := hq.term_lt
  leader := he.leader _ _ hq.leader
  prev_le := Nat.le_trans hq.prev_le (he.log _).length_le
  prevTerm := by
    rw [he.log_termAt hq.prev_le]
    exact hq.prevTerm
  entries := by
    rw [he.log_take hq.prev_le]
    exact hq.entries.trans (he.log _)
  fits := hq.fits
  commit_le := Nat.le_trans hq.commit_le (he.log _).length_le
  settled := by
    rw [he.log_take hq.commit_le]
    exact hq.settled.mono hc he

theorem Ships.mono {q : SnapshotRequest} (hq : Ships K c source q) (hc : c.Lawful K.ids)
    (he : c.Extends c')
    : Ships K c' source q where
  term_lt := hq.term_lt
  leader := he.leader _ _ hq.leader
  index_le := Nat.le_trans hq.index_le (he.log _).length_le
  captures := {
    term := by
      rw [he.log_termAt hq.index_le]
      exact hq.captures.term
    data := by
      rw [he.log_take hq.index_le]
      exact hq.captures.data }
  fits := hq.fits
  short := hq.short
  settled := by
    rw [he.log_take hq.index_le]
    exact hq.settled.mono hc he

theorem Says.mono {q : Request} (hq : Says K c source q) (hc : c.Lawful K.ids) (he : c.Extends c')
    : Says K c' source q := by
  cases q with
  | vote q => exact Stands.mono hq he
  | append q => exact Offers.mono hq hc he
  | snapshot q => exact Ships.mono hq hc he
  | commit q => trivial

theorem Answers.mono {q : Request} {r : Response} (hr : Answers c source target q r)
    (he : c.Extends c')
    : Answers c' source target q r := by
  unfold Answers at hr ⊢
  split
  . exact ⟨hr.1, fun hgranted => he.vote _ _ _ (hr.2 hgranted)⟩
  . exact ⟨hr.1, fun hsuccess => Nat.le_trans (hr.2 hsuccess) (he.acked _ _)⟩
  . exact ⟨hr.1, fun hterm => Nat.le_trans (hr.2 hterm) (he.acked _ _)⟩
  . trivial

end Chronicle

end ReplicatedStore
