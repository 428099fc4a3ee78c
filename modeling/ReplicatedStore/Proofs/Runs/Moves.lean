import ReplicatedStore.Proofs.Consensus.Installing
import ReplicatedStore.Proofs.Consensus.Proposing
import ReplicatedStore.Proofs.Consensus.Restarting

/-!
The steps that a running node can take, beside steps of its member in the chronicle, and how its clients
fare in them.
-/

namespace ReplicatedStore

def Move.Drops (move : Move) (node : Node) (i : Nat) : Prop :=
  ∃ source q, move = .handle source (.append q) ∧ q.Conflicts node.log i

namespace Chronicle

def Tells (K : Cluster) (c : Chronicle) : Packet → Prop
  | .request source _ q => Says K c source q
  | .response asker answerer q r => answerer ∈ K.ids ∧ Answers c answerer asker q r

variable {K : Cluster} {c c' : Chronicle} {n : NodeId} {node : Node} {clock : Clock}
  {packets : List Packet}

theorem Tells.mono {p : Packet} (hp : Tells K c p) (hc : c.Lawful K.ids) (he : c.Extends c')
    : Tells K c' p := by
  cases p with
  | request source target q => exact Says.mono hp hc he
  | response asker answerer q r => exact ⟨hp.1, Answers.mono hp.2 he⟩

theorem AsksVotes.tells {orders : List Order} (h : AsksVotes K n c orders)
    : ∀ p ∈ orders.filterMap (Order.packet? n), Tells K c p := by
  intro p hp
  obtain ⟨order, horder, hpacket⟩ := List.mem_filterMap.1 hp
  cases order with
  | askVote peer request =>
    cases hpacket
    exact h peer request horder
  | replicate peer => cases hpacket

theorem drops_append (source : NodeId) (q : AppendRequest) (node : Node)
    : Move.Drops (.handle source (.append q)) node = q.Conflicts node.log := by
  funext i
  apply propext
  constructor
  . rintro ⟨_, _, heq, h⟩
    cases heq
    exact h
  . intro h
    exact ⟨source, q, rfl, h⟩

theorem Mirror.rpc {source : NodeId} {q : Request} (hm : Mirror K c n node) (hq : Says K c source q)
    : Reaches K n c (Told K (Move.Drops (.handle source q) node) node)
        (fun r _ c' => Answers c' n source q r)
        (World.rpc q clock node) := by
  cases q with
  | vote q =>
    apply (hm.onVoteRequest hq).map
    intro r _ _ hr
    exact hr
  | append q =>
    rw [drops_append]
    apply (hm.onAppendRequest hq).map
    intro r _ _ hr
    exact hr
  | snapshot q =>
    apply (hm.onSnapshotRequest hq).map
    intro r _ _ hr
    exact hr
  | commit q => exact .of_error hm (.of_eq rfl)

theorem Mirror.take {peer : NodeId} {q : Request} {r : Response} (hm : Mirror K c n node)
    (hroom : node.hasRoom = true) (hpeer : peer ∈ K.ids) (hr : Answers c peer n q r)
    : Reaches K n c (Told K (Move.Drops (.take peer q r) node) node)
        (fun sent _ c' => ∀ p ∈ sent, Tells K c' p)
        ((Move.take peer q r).action n clock node) := by
  have hnone : Reaches K n c (Told K (Move.Drops (.take peer q r) node) node)
      (fun sent _ c' => ∀ p ∈ sent, Tells K c' p)
      ((return [] : NodeM (List Packet)) clock node) := by
    refine .of_mirror hm (.of_eq rfl) ?_
    intro p hp
    cases hp
  cases q with
  | vote q =>
    cases r with
    | vote r =>
      apply (hm.onVoteResponse hroom hpeer hr.1 hr.2).bind
      intro orders node' c' _ hm' htold honly
      exact .of_mirror hm' htold honly.asksVotes.tells
    | append r => exact hnone
    | snapshot r => exact hnone
    | commit r => exact hnone
  | append q =>
    cases r with
    | append r =>
      apply (hm.onAppendResponse hr.1 hr.2).bind
      intro result node' c' _ hm' htold honly
      exact .of_mirror hm' htold honly.asksVotes.tells
    | vote r => exact hnone
    | snapshot r => exact hnone
    | commit r => exact hnone
  | snapshot q =>
    cases r with
    | snapshot r =>
      apply (hm.onSnapshotResponse hr.1 hr.2).bind
      intro result node' c' _ hm' htold honly
      exact .of_mirror hm' htold honly.asksVotes.tells
    | vote r => exact hnone
    | append r => exact hnone
    | commit r => exact hnone
  | commit q => exact hnone

theorem Mirror.act {move : Move} (hm : Mirror K c n node) (clock : Clock)
    (hpackets : ∀ p ∈ packets, Tells K c p)
    (hpossible : move.possible n packets node = true) (hmove : ∀ p, move ≠ .propose p)
    : Reaches K n c (Told K (move.Drops node) node) (fun sent _ c' => ∀ p ∈ sent, Tells K c' p)
        (move.action n clock node) := by
  cases move with
  | propose p => exact absurd rfl (hmove p)
  | tick =>
    apply (hm.tick hpossible).bind
    intro orders node' c' _ hm' htold hasks
    exact .of_mirror hm' htold hasks.tells
  | message peer =>
    have hmade : Reaches K n c (Told K (Move.Drops (.message peer) node) node)
        (fun message _ c' => ∀ m ∈ message, Says K c' n m.request)
        (NodeM.messageFor peer clock node) := by
      obtain ⟨message, hmessage, htrue⟩ := hm.messageFor peer clock
      rw [hmessage]
      exact .of_mirror hm (.of_eq rfl) htrue
    apply hmade.bind
    intro message node' c' _ hm' htold htrue
    refine .of_mirror hm' htold ?_
    intro p hp
    obtain ⟨m, hmem, rfl⟩ := List.mem_map.1 hp
    exact htrue m (by simpa using hmem)
  | openRound =>
    have hround : Reaches K n c (Told K (Move.Drops .openRound node) node)
        (fun messages _ c' => ∀ m ∈ messages, Says K c' n m.2.request)
        (NodeM.openRound clock node) := by
      apply hm.openRound.imp
      . rintro _ _ _ ⟨rfl, rfl⟩
        exact .of_eq rfl
      . intro messages node' c' hev _ htrue m hmem
        exact (htrue.2.2 m hmem).mono hm.lawful (hev.extends hm.lawful)
    apply hround.bind
    intro messages node' c' _ hm' htold htrue
    refine .of_mirror hm' htold ?_
    intro p hp
    obtain ⟨⟨peer, m⟩, hmem, rfl⟩ := List.mem_map.1 hp
    exact htrue _ hmem
  | collect ticket =>
    refine .of_mirror { hm with } ⟨rfl, List.Subset.refl _, ?_, ?_, Nat.le_refl _, fun h => h⟩
      (by simp)
    . intro o ho _
      exact .inl (List.mem_of_mem_filter ho)
    . intro o ho _
      exact .inl (List.mem_of_mem_filter ho)
  | handle source q =>
    have hq : Says K c source q :=
      hpackets (.request source n q) (by simpa [Move.possible] using hpossible)
    apply (hm.rpc hq).bind
    intro r node' c' _ hm' htold hr
    refine .of_mirror hm' htold ?_
    intro p hp
    rw [List.mem_singleton.1 hp]
    exact ⟨hm.member, hr⟩
  | take peer q r =>
    simp only [Move.possible, Bool.and_eq_true, List.contains_iff_mem] at hpossible
    obtain ⟨hpeer, hr⟩ := hpackets _ hpossible.1
    exact hm.take hpossible.2 hpeer hr
  | stop =>
    apply hm.stop.bind
    intro _ node' c' _ hm' htold _
    refine .of_mirror hm' htold ?_
    intro p hp
    cases hp

structure Ticketed (node : Node) : Prop where
  waits : ∀ w ∈ node.pending, w.2.ticket < node.nextTicket
  news : ∀ o ∈ node.settled, Definite o.2 → o.1 < node.nextTicket
  wins : ∀ o ∈ node.settled, o.2 = .ok () → o.1 < node.nextTicket
  announced : node.announced ≤ node.lastApplied

def Serves (K : Cluster) (c : Chronicle) (excepted : Nat → Prop) (x y : Node) : Prop :=
  Told K excepted x y c ∨ ∃ z index term, Enlists x z index term ∧ Told K excepted z y c

variable {excepted : Nat → Prop} {x y z : Node} {index term : Nat}

theorem Ticketed.told (hx : Ticketed x) (ht : Told K excepted x y c) : Ticketed y where
  waits := by
    intro w hw
    rw [ht.next]
    exact hx.waits w (ht.waits hw)
  news := by
    intro o ho hdefinite
    rw [ht.next]
    rcases ht.news o ho hdefinite with ho | ⟨w, hw, hticket, -⟩
    . exact hx.news o ho hdefinite
    . rw [← hticket]
      exact hx.waits w hw
  wins := by
    intro o ho hok
    rw [ht.next]
    rcases ht.wins o ho hok with ho | ⟨w, hw, hticket, -⟩
    . exact hx.wins o ho hok
    . rw [← hticket]
      exact hx.waits w hw
  announced := ht.announced hx.announced

theorem Ticketed.enlists (hx : Ticketed x) (he : Enlists x y index term) : Ticketed y where
  waits := by
    intro w hw
    rw [he.next]
    rcases he.waits w hw with hw | rfl
    . exact Nat.lt_succ_of_lt (hx.waits w hw)
    . exact Nat.lt_succ_self _
  news := by
    intro o ho hdefinite
    rw [he.next]
    exact Nat.lt_succ_of_lt (hx.news o (he.news o ho hdefinite) hdefinite)
  wins := by
    intro o ho hok
    rw [he.next]
    exact Nat.lt_succ_of_lt (hx.wins o (he.wins o ho hok) hok)
  announced := by
    rw [he.announced, he.applied]
    exact hx.announced

end Chronicle

end ReplicatedStore
