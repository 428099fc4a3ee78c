import ReplicatedStore.Proofs.Consensus.Reading
import ReplicatedStore.Proofs.Runs.Submissions

/-!
Transactions in a run, from the node that they begin on to the success of their commit.
-/

namespace ReplicatedStore

open Process Script

theorem World.memberTransaction_eq {ρ : Type} {world : World ρ} {handle : Handle} {node : Node}
    (h : world.node? handle = some node) (stale gated : Bool)
    : world.memberTransaction handle stale gated = {
        view := { base := node.map, readOnly := stale }
        base := .member handle node.readPoint.2 node.readPoint.1 stale
        gated } := by
  unfold World.memberTransaction
  rw [h]

theorem World.planCommit_eq {ρ : Type} {world : World ρ} {id : TransactionId}
    {transaction : ClusterTransaction} {handle : Handle} {term index : Nat} {stale : Bool} {node : Node}
    (h : world.transaction? id = some transaction) (hopen : transaction.view.closed = false)
    (hbase : transaction.base = .member handle term index stale)
    (hnode : world.node? handle = some node)
    : (world.planCommit id).1
        =
      if stale then .settled (.ok ())
      else
        let proposal : Proposal :=
          ⟨term, index, transaction.view.reads, transaction.view.writes⟩
        if node.role.isLeader then .lead handle proposal
        else
          match node.leader with
          | none => .settled (.error (.notLeader none))
          | some leader => .forward handle leader proposal := by
  have hnode' : (world.setTransaction id { transaction with
      view := transaction.view.take.2, committing := true }).node? handle = some node := hnode
  unfold planCommit
  rw [h]
  dsimp only
  rw [hopen, if_neg Bool.false_ne_true, hbase]
  dsimp only
  cases stale with
  | true => rfl
  | false =>
    rw [hbase] at hnode'
    rw [hnode']
    dsimp only
    cases node.role.isLeader with
    | true => rfl
    | false => cases node.leader <;> rfl

def World.showing (scene : Scene) (id : TransactionId) (handle : Handle) (node : Node) :
    World (Except Error Unit) where
  members := []
  network := .unconnected
  nodes := [(handle, node)]
  transactions := [(id, scene.transactions id)]

theorem happens_planCommit {K : Cluster} {events : List Event} (scene : Scene) (id : TransactionId)
    {handle : Handle} {term index m : Nat} {stale : Bool} {node : Node}
    (hbase : (scene.transactions id).base = .member handle term index stale)
    (hopen : (scene.transactions id).view.closed = false)
    (hnode : (scene.nodes handle).Runs K events m node)
    : Happens K events scene m m (.planCommit id) (
        if stale then .settled (.ok ())
        else
          let proposal : Proposal :=
            ⟨term, index, (scene.transactions id).view.reads, (scene.transactions id).view.writes⟩
          if node.role.isLeader then .lead handle proposal
          else
            match node.leader with
            | none => .settled (.error (.notLeader none))
            | some leader => .forward handle leader proposal) := by
  have htransaction : (World.showing scene id handle node).transaction? id
      = some (scene.transactions id) := List.lookup_cons_self
  have hshown : (World.showing scene id handle node).node? handle = some node := List.lookup_cons_self
  refine ⟨rfl, .showing scene id handle node, ⟨htransaction, ?_⟩, ?_⟩
  . intro handle' term' index' stale' hbase'
    rw [hbase] at hbase'
    cases hbase'
    exact ⟨node, hshown, hnode⟩
  . exact (World.planCommit_eq htransaction hopen hbase hshown).symm

theorem happens_planCommit_of_leads {K : Cluster} {events : List Event} {scene : Scene}
    {id : TransactionId} {handle : Handle} {term index m : Nat} {proposal : Proposal}
    (hbase : (scene.transactions id).base = .member handle term index false)
    (hopen : (scene.transactions id).view.closed = false)
    (hproposal : proposal =
      ⟨term, index, (scene.transactions id).view.reads, (scene.transactions id).view.writes⟩)
    (hleads : ∃ x, (scene.nodes handle).Runs K events m x ∧ x.role.isLeader = true)
    : Happens K events scene m m (.planCommit id) (.lead handle proposal) := by
  obtain ⟨x, hx, hleads⟩ := hleads
  have hplan := happens_planCommit scene id hbase hopen hx
  rw [hleads, ← hproposal] at hplan
  exact hplan

structure Beginning (K : Cluster) (events : List Event) (scene : Scene) where
  handle : Handle
  stale : Bool
  gated : Bool
  began : Nat
  node : Node
  running : (scene.nodes handle).Runs K events began node
  world : World (Except Error Unit)
  shown : world.node? handle = some node

namespace Beginning

variable {K : Cluster} {events : List Event} {scene : Scene}

def transaction (b : Beginning K events scene) : ClusterTransaction :=
  b.world.memberTransaction b.handle b.stale b.gated

def baseIndex (b : Beginning K events scene) : Nat :=
  b.node.readPoint.1

def baseTerm (b : Beginning K events scene) : Nat :=
  b.node.readPoint.2

theorem transaction_eq (b : Beginning K events scene)
    : b.transaction = {
        view := { base := b.node.map, readOnly := b.stale }
        base := .member b.handle b.baseTerm b.baseIndex b.stale
        gated := b.gated } :=
  World.memberTransaction_eq b.shown b.stale b.gated

theorem transaction_of (b : Beginning K events scene) {map : KeyMap} {term index : Nat}
    (hmap : b.node.map = map) (hpoint : b.node.readPoint = (index, term))
    : b.transaction = {
        view := { base := map, readOnly := b.stale }
        base := .member b.handle term index b.stale
        gated := b.gated } := by
  rw [b.transaction_eq]
  unfold baseTerm baseIndex
  rw [hmap, hpoint]

end Beginning

/-- A transaction in a run whose commit succeeds. -/
structure Transaction (K : Cluster) (events : List Event) (scene : Scene) extends
    Beginning K events scene where
  id : TransactionId
  operations : List Operation
  staged : scene.transactions id = { toBeginning.transaction with
    view := (toBeginning.transaction.view.performAll operations).2 }
  called : Nat
  began_le : began ≤ called
  returned : Nat
  deeds : List Deed
  committed : Proceeds K events scene [] (Script.commit id).toProcess called returned deeds
    (.answer (.ok ()))

namespace Transaction

variable {K : Cluster} {events : List Event} {scene : Scene} {m b e term index ticket : Nat}

def view (t : Transaction K events scene) : TransactionView :=
  (t.transaction.view.performAll t.operations).2

def answers (t : Transaction K events scene) : List (Except Error Answer) :=
  (t.transaction.view.performAll t.operations).1

def answersOn (t : Transaction K events scene) (map : KeyMap) : List (Except Error Answer) :=
  ((t.transaction.view.rebase map).performAll t.operations).1

def proposal (t : Transaction K events scene) : Proposal where
  baseTerm := t.baseTerm
  baseIndex := t.baseIndex
  reads := t.view.reads
  writes := t.view.writes

@[simp]
theorem proposal_writes (t : Transaction K events scene) : t.proposal.writes = t.view.writes := by
  rfl

variable {leader : Handle} {proposal : Proposal}

def Carries (t : Transaction K events scene) (proposal : Proposal) : Prop :=
  proposal = t.proposal ∨ Proposal.ofRequest t.proposal.toRequest = .ok proposal

def Wrote (t : Transaction K events scene) (term index : Nat) : Prop :=
  ∃ b d leader proposal ticket,
    ⟨b, d, .propose leader proposal, .ok (.appended term index ticket)⟩ ∈ t.deeds

structure Writes (t : Transaction K events scene) (term index : Nat) (leader : Handle)
    (proposal : Proposal) (ticket b e : Nat) : Prop where
  carried : t.Carries proposal
  called_le : t.called ≤ b
  appended : Happens K events scene b (b + 1) (.propose leader proposal)
    (.ok (.appended term index ticket))
  lt : b < e
  le_returned : e ≤ t.returned
  settled : Happens K events scene e e (.settlement leader ticket) (.ok ())
  home : leader = t.handle ∨ ∃ m ≤ t.returned, Happens K events scene m m (.applied t.handle index) ()

structure Reads (t : Transaction K events scene) (leader : Handle) (proposal : Proposal) (b : Nat) :
    Prop where
  carried : t.Carries proposal
  called_le : t.called ≤ b
  valid : Happens K events scene b (b + 1) (.propose leader proposal) (.ok .readOnly)
  deed : ⟨b, b + 1, .propose leader proposal, .ok .readOnly⟩ ∈ t.deeds
  confirmed : MajorityConfirmed K events scene (b + 1) leader t.deeds

variable (t : Transaction K events scene)

theorem transaction_eq
    : scene.transactions t.id = {
        view := t.view
        base := .member t.handle t.baseTerm t.baseIndex t.stale
        gated := t.gated } := by
  rw [t.staged]
  unfold view
  rw [t.toBeginning.transaction_eq]

theorem view_reads_ordered : t.view.reads.Ordered := by
  unfold view
  apply TransactionView.performAll_reads_ordered
  rw [t.toBeginning.transaction_eq]
  exact KeyRanges.ordered_empty

theorem view_removes_ordered : t.view.writes.removes.Ordered := by
  unfold view
  apply TransactionView.performAll_removes_ordered
  rw [t.toBeginning.transaction_eq]
  exact KeyRanges.ordered_empty

theorem writes_isEmpty_of_stale (hstale : t.stale = true) : t.view.writes.isEmpty = true := by
  unfold view
  rw [t.toBeginning.transaction_eq, TransactionView.performAll_writes hstale]
  rfl

theorem answersOn_eq {map : KeyMap} (h : TransactionView.Agrees t.view.reads t.node.map map)
    : t.answersOn map = t.answers := by
  have hbase : t.transaction.view.base = t.node.map := by rw [t.toBeginning.transaction_eq]
  unfold answersOn answers
  rw [TransactionView.performAll_rebase]
  rw [hbase]
  exact h

variable {t}

theorem Carries.eq (h : t.Carries proposal)
    : proposal.baseTerm = t.baseTerm ∧ proposal.baseIndex = t.baseIndex ∧
        proposal.reads = t.view.reads := by
  rcases h with rfl | hrequest
  . exact ⟨rfl, rfl, rfl⟩
  . unfold Proposal.ofRequest at hrequest
    split at hrequest
    . cases hrequest
      exact ⟨rfl, rfl, rfl⟩
    . cases hwrites : WriteSet.decode t.proposal.toRequest.mutations with
      | error e =>
        rw [hwrites] at hrequest
        cases hrequest
      | ok writes =>
        rw [hwrites] at hrequest
        cases hrequest
        exact ⟨rfl, rfl, rfl⟩

theorem Carries.eq_proposal (h : t.Carries proposal) (hshort : t.view.writes.encode.length < 2 ^ 64)
    : proposal = t.proposal := by
  rcases h with rfl | hrequest
  . rfl
  . have hsame : Proposal.ofRequest t.proposal.toRequest = .ok t.proposal := by
      apply Proposal.ofRequest_toRequest
      . simpa using t.view_removes_ordered
      . simpa using hshort
    rw [hsame] at hrequest
    cases hrequest
    rfl

theorem Carries.writes_isEmpty (h : t.Carries proposal) (hwrites : t.view.writes.isEmpty = true)
    : proposal.writes.isEmpty = true := by
  rcases h with rfl | hrequest
  . exact hwrites
  . have hmutations : t.proposal.toRequest.mutations = [] := if_pos hwrites
    unfold Proposal.ofRequest at hrequest
    rw [hmutations] at hrequest
    cases hrequest
    rfl

theorem Carries.writes_of_appended (h : t.Carries proposal)
    (hpropose : Happens K events scene b e (.propose leader proposal)
      (.ok (.appended term index ticket)))
    : t.view.writes.isEmpty = false := by
  obtain ⟨-, clock, x, hacts, hreply⟩ := hpropose
  obtain ⟨y, hok⟩ := NodeM.eq_ok_of_reply hreply
  rw [Bool.eq_false_iff]
  intro hempty
  cases (NodeM.of_propose hok).2.2.2 (h.writes_isEmpty hempty)

variable (t)

theorem plan_cases {plan : CommitPlan} (h : Happens K events scene m m (.planCommit t.id) plan)
    : (∃ e, plan = .settled (.error e)) ∨ (plan = .settled (.ok ()) ∧ t.stale = true) ∨
        (t.stale = false ∧ (plan = .lead t.handle t.proposal ∨
          ∃ leader, plan = .forward t.handle leader t.proposal)) := by
  obtain ⟨-, world, hshows, rfl⟩ := h
  have htransaction := hshows.transaction
  rw [t.transaction_eq] at htransaction
  obtain ⟨x, hx, -⟩ := hshows.node t.handle _ _ _ (by rw [t.transaction_eq])
  cases hclosed : t.view.closed with
  | true =>
    unfold World.planCommit
    rw [htransaction]
    dsimp only
    rw [if_pos hclosed]
    exact .inl ⟨_, rfl⟩
  | false =>
    rw [World.planCommit_eq htransaction hclosed rfl hx]
    cases hstale : t.stale with
    | true => exact .inr (.inl ⟨rfl, rfl⟩)
    | false =>
      rw [if_neg Bool.false_ne_true]
      dsimp only
      split
      . exact .inr (.inr ⟨rfl, .inl rfl⟩)
      . cases x.leader with
        | none => exact .inl ⟨_, rfl⟩
        | some leader => exact .inr (.inr ⟨rfl, .inr ⟨leader, rfl⟩⟩)

theorem submitted
    : t.stale = true ∧ Silent t.deeds ∨
        ∃ leader proposal k before own after point, t.Carries proposal ∧ k ≤ t.returned ∧
          t.deeds = before ++ (own ++ after) ∧ Silent before ∧ Silent after ∧
          Submitted K events scene leader proposal t.called k own point ∧
          (leader = t.handle ∨ (t.view.writes.isEmpty = false →
            ∃ m ≤ t.returned, Happens K events scene m m (.applied t.handle point.2) ())) := by
  obtain ⟨k, hk, hok⟩ := (gives_commit t.id).toProcess t.committed
  have hsucceeds := hok rfl
  generalize t.deeds = deeds at hsucceeds ⊢
  -- a commit that succeeds was settled at once, led by this node, or forwarded to the leader
  cases hsucceeds with
  | settled hplan hsilent =>
    rcases t.plan_cases hplan with ⟨e, heq⟩ | ⟨-, hstale⟩ | ⟨-, heq | ⟨leader, heq⟩⟩
    . cases heq
    . exact .inl ⟨hstale, hsilent⟩
    . cases heq
    . cases heq
  | led hle hplan hown hbefore hafter =>
    rcases t.plan_cases hplan with ⟨e, heq⟩ | ⟨heq, -⟩ | ⟨-, heq | ⟨leader, heq⟩⟩
    . cases heq
    . cases heq
    . cases heq
      exact .inr ⟨_, _, k, _, _, _, _, .inl rfl, hk, rfl, hbefore, hafter,
        hown.mono hle (Nat.le_refl k), .inl rfl⟩
    . cases heq
  | forwarded hle hplan hown hbefore hafter =>
    rcases t.plan_cases hplan with ⟨e, heq⟩ | ⟨heq, -⟩ | ⟨-, heq | ⟨leader, heq⟩⟩
    . cases heq
    . cases heq
    . cases heq
    . cases heq
      obtain ⟨point, ⟨receiver, proposal, before, own, after, rfl, -, hproposal, hsubmitted, hsilent,
        hsilent'⟩, happlied⟩ := hown
      refine .inr ⟨receiver, proposal, k, _, own, _, point, .inr hproposal, hk, ?_,
        hbefore.append hsilent, hsilent'.append hafter, hsubmitted.mono hle (Nat.le_refl k), .inr ?_⟩
      . simp only [List.append_assoc]
      . intro hwrites
        obtain ⟨e, he, happlied⟩ := happlied hwrites
        exact ⟨e, Nat.le_trans he hk, happlied⟩

variable {t}

theorem Wrote.writes (h : t.Wrote term index)
    : ∃ leader proposal ticket b e, t.Writes term index leader proposal ticket b e := by
  obtain ⟨b, d, leader, proposal, ticket, hdeed⟩ := h
  rcases t.submitted with ⟨-, hsilent⟩ | ⟨leader', proposal', k, before, own, after, point, hcarried, hk,
    hdeeds, hbefore, hafter, hsubmitted, hhome⟩
  . exact absurd rfl (hsilent _ hdeed leader proposal)
  . rw [hdeeds] at hdeed
    have hown : ⟨b, d, .propose leader proposal, .ok (.appended term index ticket)⟩ ∈ own := by
      rcases List.mem_append.1 hdeed with hdeed | hdeed
      . exact absurd rfl (hbefore _ hdeed leader proposal)
      . rcases List.mem_append.1 hdeed with hdeed | hdeed
        . exact hdeed
        . exact absurd rfl (hafter _ hdeed leader proposal)
    cases hsubmitted with
    | wrote hle hpropose hde hek hsettled hrest =>
      rcases List.mem_cons.1 hown with heq | hmem
      . cases heq
        have hnext := hpropose.1
        rw [hnext] at hpropose hde
        refine ⟨_, _, _, _, _, hcarried, hle, hpropose, hde, Nat.le_trans hek hk, hsettled, ?_⟩
        rcases hhome with hsame | happlied
        . exact .inl hsame
        . exact .inr (happlied (hcarried.writes_of_appended hpropose))
      . exact absurd rfl (hrest _ hmem leader proposal)
    | read hle hpropose hconfirmed hrest =>
      rcases List.mem_cons.1 hown with heq | hmem
      . cases heq
      . exact absurd rfl (hrest _ hmem leader proposal)

theorem exists_wrote_iff (hshort : t.view.writes.encode.length < 2 ^ 64)
    : (∃ term index, t.Wrote term index) ↔ t.view.writes.isEmpty = false := by
  constructor
  . rintro ⟨term, index, hwrote⟩
    obtain ⟨_, _, _, _, _, hw⟩ := hwrote.writes
    exact hw.carried.writes_of_appended hw.appended
  . intro hwrites
    rcases t.submitted with ⟨hstale, -⟩ | ⟨leader, proposal, k, before, own, after, point, hcarried, -,
      hdeeds, -, -, hsubmitted, -⟩
    . rw [t.writes_isEmpty_of_stale hstale] at hwrites
      cases hwrites
    . have hsub : own ⊆ t.deeds := by
        rw [hdeeds]
        exact List.subset_append_of_subset_right before (List.subset_append_left own after)
      cases hsubmitted with
      | wrote hle hpropose hde hek hsettled hrest =>
        exact ⟨_, _, _, _, leader, proposal, _, hsub List.mem_cons_self⟩
      | read hle hpropose hconfirmed hrest =>
        obtain ⟨-, clock, x, hacts, hreply⟩ := hpropose
        obtain ⟨y, hok⟩ := NodeM.eq_ok_of_reply hreply
        have hempty := (NodeM.of_propose hok).2.2.1 rfl
        rw [hcarried.eq_proposal hshort, proposal_writes, hwrites] at hempty
        cases hempty

theorem exists_reads (hstale : t.stale = false) (hwrites : t.view.writes.isEmpty = true)
    : ∃ leader proposal b, t.Reads leader proposal b := by
  rcases t.submitted with ⟨hstale', -⟩ | ⟨leader, proposal, k, before, own, after, point, hcarried, hk,
    hdeeds, -, -, hsubmitted, -⟩
  . rw [hstale] at hstale'
    cases hstale'
  . have hsub : own ⊆ t.deeds := by
      rw [hdeeds]
      exact List.subset_append_of_subset_right before (List.subset_append_left own after)
    cases hsubmitted with
    | wrote hle hpropose hde hek hsettled hrest =>
      rw [hcarried.writes_of_appended hpropose] at hwrites
      cases hwrites
    | read hle hpropose hconfirmed hrest =>
      have hnext := hpropose.1
      rw [hnext] at hpropose hconfirmed hsub
      refine ⟨leader, proposal, _, hcarried, hle, hpropose, hsub List.mem_cons_self, ?_⟩
      exact hconfirmed.mono fun deed hdeed => hsub (List.mem_cons_of_mem _ hdeed)

structure Follows (t : Transaction K events scene) (handle : Handle) (stale : Bool) (map : KeyMap)
    (operations : List Operation) (called returned : Nat) (deeds : List Deed) : Prop where
  opening : t.transaction.view = { base := map, readOnly := stale }
  handle : t.handle = handle
  stale : t.stale = stale
  operations : t.operations = operations
  called : t.called = called
  returned : t.returned = returned
  deeds : t.deeds = deeds

theorem exists_follows {handle : Handle} {stale : Bool} {map : KeyMap} {operations : List Operation}
    {called returned : Nat} {deeds : List Deed} (id : TransactionId) (began : Nat)
    (htransaction : scene.transactions id = {
      view := (TransactionView.performAll { base := map, readOnly := stale } operations).2
      base := .member handle term index stale })
    (hnode : ∃ x, (scene.nodes handle).Runs K events began x ∧
      (x.map, x.readPoint) = (map, (index, term)))
    (hle : began ≤ called)
    (hproceeds : Proceeds K events scene [] (Script.commit id).toProcess called returned deeds
      (.answer (.ok ())))
    : ∃ t : Transaction K events scene,
        t.Follows handle stale map operations called returned deeds := by
  obtain ⟨x, hx, hxs⟩ := hnode
  obtain ⟨hmap, hpoint⟩ := Prod.mk.inj hxs
  let beginning : Beginning K events scene := {
    handle
    stale
    gated := false
    began
    node := x
    running := hx
    world := .showing scene id handle x
    shown := List.lookup_cons_self }
  have hbegun := beginning.transaction_of hmap hpoint
  refine ⟨{ beginning with
    id
    operations
    staged := ?_
    called
    began_le := hle
    returned
    deeds
    committed := hproceeds }, ?_, rfl, rfl, rfl, rfl, rfl, rfl⟩
  . rw [hbegun]
    exact htransaction
  . change beginning.transaction.view = _
    rw [hbegun]

theorem Follows.view {handle : Handle} {stale : Bool} {map : KeyMap} {operations : List Operation}
    {called returned : Nat} {deeds : List Deed}
    (h : t.Follows handle stale map operations called returned deeds)
    : t.view = (TransactionView.performAll { base := map, readOnly := stale } operations).2 := by
  unfold Transaction.view
  rw [h.opening, h.operations]

end Transaction

end ReplicatedStore
