import ReplicatedStore.Proofs.Standalone.Commits

/-!
Sessions of any number of transactions on one standalone store. A commit that succeeds could have been run
alone at the moment of the commit, with the same answers and the same outcome.
-/

namespace ReplicatedStore

structure StandaloneClient where
  transaction : StandaloneTransaction
  dialogue : List (Operation × Except Error Answer) := []

structure StandaloneSession where
  store : StandaloneStore
  clients : List StandaloneClient := []

inductive StandaloneEvent where
  | begin
  | operate (client : Nat) (operation : Operation)
  | rollback (client : Nat)
  | commit (client : Nat)

namespace StandaloneClient

def operations (client : StandaloneClient) : List Operation :=
  client.dialogue.map (·.1)

def answers (client : StandaloneClient) : List (Except Error Answer) :=
  client.dialogue.map (·.2)

def operate (client : StandaloneClient) (operation : Operation) : StandaloneClient :=
  match client.transaction.view.perform operation with
  | .ok (answer, view) =>
    { transaction := { client.transaction with view }
      dialogue := client.dialogue ++ [(operation, .ok answer)] }
  | .error e => { client with dialogue := client.dialogue ++ [(operation, .error e)] }

def rollback (client : StandaloneClient) : StandaloneClient :=
  { client with transaction := { client.transaction with view := client.transaction.view.close } }

end StandaloneClient

namespace StandaloneSession

def perform (session : StandaloneSession) : StandaloneEvent → StandaloneSession
  | .begin => { session with clients := session.clients ++ [{ transaction := session.store.begin }] }
  | .operate client operation =>
    { session with clients := session.clients.modify client (·.operate operation) }
  | .rollback client => { session with clients := session.clients.modify client (·.rollback) }
  | .commit index =>
    match session.clients[index]? with
    | none => session
    | some client =>
      let (_, transaction, store) := StandaloneStore.commitTransaction client.transaction session.store
      { store, clients := session.clients.set index { client with transaction } }

def run (session : StandaloneSession) (events : List StandaloneEvent) : StandaloneSession :=
  events.foldl perform session

end StandaloneSession

namespace StandaloneStore

variable {store store' : StandaloneStore} {base : KeyMap} {version : Nat} {reads : KeyRanges}
  {writes : WriteSet}

inductive Started : StandaloneStore → Prop where
  | empty : Started .empty
  | opened {policy : SyncPolicy} {limit : Nat} {volume volume' : Volume} {store : StandaloneStore}
      (h : StandaloneStore.open policy limit volume = .ok store volume') : Started store

structure Records (store : StandaloneStore) : Prop where
  ascending : store.history.Pairwise (·.1 < ·.1)
  behind : ∀ commit ∈ store.history, store.oldestBase < commit.1
  past : ∀ commit ∈ store.history, commit.1 ≤ store.version
  oldest : store.oldestBase ≤ store.version

structure Tracks (store : StandaloneStore) (base : KeyMap) (version : Nat) : Prop where
  past : version ≤ store.version
  agrees : store.oldestBase ≤ version → ∀ key,
    (∀ commit ∈ store.history, version < commit.1 → ¬ commit.2.Covers key) →
      base.get? key = store.map.get? key

theorem Started.records (h : Started store) : store.Records := by
  have hfresh : store.history = [] ∧ store.oldestBase = store.version := by
    cases h with
    | empty => exact ⟨rfl, rfl⟩
    | opened h =>
      obtain ⟨journal, _, -, hsnapshot⟩ := EStateM.of_bind h
      obtain ⟨snapshot, _, -, hmap⟩ := EStateM.of_bind hsnapshot
      generalize restore snapshot >>= (replay · journal.entries) = result at hmap
      cases result with
      | error e => cases hmap
      | ok map =>
        cases hmap
        exact ⟨rfl, rfl⟩
  obtain ⟨hhistory, holdest⟩ := hfresh
  constructor
  . rw [hhistory]
    exact .nil
  . rw [hhistory]
    exact nofun
  . rw [hhistory]
    exact nofun
  . exact Nat.le_of_eq holdest

theorem le_horizon {dropped kept : List (Nat × KeyRanges)} {oldest : Nat}
    (hascending : (dropped ++ kept).Pairwise (·.1 < ·.1))
    (hbehind : ∀ commit ∈ dropped ++ kept, oldest < commit.1)
    : oldest ≤ (dropped.getLast?.map (·.1)).getD oldest ∧
        (∀ commit ∈ dropped, commit.1 ≤ (dropped.getLast?.map (·.1)).getD oldest) ∧
        (∀ commit ∈ kept, (dropped.getLast?.map (·.1)).getD oldest < commit.1) := by
  rcases List.eq_nil_or_concat dropped with rfl | ⟨before, last, rfl⟩
  . exact ⟨Nat.le_refl _, nofun, hbehind⟩
  . rw [List.concat_eq_append, List.getLast?_append_of_ne_nil _ (List.cons_ne_nil _ _)]
    rw [List.concat_eq_append] at hascending hbehind
    obtain ⟨hdropped, -, hapart⟩ := List.pairwise_append.1 hascending
    refine ⟨Nat.le_of_lt (hbehind last (by simp)), ?_, ?_⟩
    . intro commit hcommit
      rcases List.mem_append.1 hcommit with hcommit | hcommit
      . exact Nat.le_of_lt ((List.pairwise_append.1 hdropped).2.2 commit hcommit last List.mem_cons_self)
      . rw [List.mem_singleton.1 hcommit]
        exact Nat.le_refl _
    . intro commit hcommit
      exact hapart last (by simp) commit hcommit

theorem horizon_le {dropped : List (Nat × KeyRanges)} {oldest bound : Nat} (holdest : oldest ≤ bound)
    (hdropped : ∀ commit ∈ dropped, commit.1 ≤ bound)
    : (dropped.getLast?.map (·.1)).getD oldest ≤ bound := by
  cases hlast : dropped.getLast? with
  | none => exact holdest
  | some last => exact hdropped last (List.mem_of_getLast? hlast)

def recorded (store : StandaloneStore) (writes : WriteSet) : List (Nat × KeyRanges) :=
  store.history ++ [(store.version + 1, writes.touched)]

def excess (store : StandaloneStore) (writes : WriteSet) : Nat :=
  (store.recorded writes).length - rememberedCommits

theorem history_advance (store : StandaloneStore) (writes : WriteSet)
    : (store.advance writes).history = (store.recorded writes).drop (store.excess writes) := by
  simp only [advance, remember, recorded, excess]

theorem oldestBase_advance (store : StandaloneStore) (writes : WriteSet)
    : (store.advance writes).oldestBase
        =
      (((store.recorded writes).take (store.excess writes)).getLast?.map (·.1)).getD store.oldestBase := by
  simp only [advance, remember, recorded, excess]

theorem recorded_ascending (hrecords : store.Records) (writes : WriteSet)
    : (store.recorded writes).Pairwise (·.1 < ·.1) := by
  refine List.pairwise_append.2 ⟨hrecords.ascending, List.pairwise_singleton _ _, ?_⟩
  intro commit hcommit new hnew
  rw [List.mem_singleton.1 hnew]
  exact Nat.lt_succ_of_le (hrecords.past commit hcommit)

theorem exists_recorded (hrecords : store.Records) (writes : WriteSet)
    : ∃ dropped,
        store.recorded writes = dropped ++ (store.advance writes).history ∧
        store.oldestBase ≤ (store.advance writes).oldestBase ∧
        (∀ commit ∈ dropped, commit.1 ≤ (store.advance writes).oldestBase) ∧
        (∀ commit ∈ (store.advance writes).history, (store.advance writes).oldestBase < commit.1) := by
  have hascending := recorded_ascending hrecords writes
  have hbehind : ∀ commit ∈ store.recorded writes, store.oldestBase < commit.1 := by
    intro commit hcommit
    rcases List.mem_append.1 hcommit with hcommit | hcommit
    . exact hrecords.behind commit hcommit
    . rw [List.mem_singleton.1 hcommit]
      exact Nat.lt_succ_of_le hrecords.oldest
  rw [← List.take_append_drop (store.excess writes) (store.recorded writes)] at hascending hbehind
  refine ⟨(store.recorded writes).take (store.excess writes), ?_, ?_⟩
  . rw [history_advance, List.take_append_drop]
  . rw [history_advance, oldestBase_advance]
    exact le_horizon hascending hbehind

theorem Records.advance (h : store.Records) (writes : WriteSet) : (store.advance writes).Records := by
  obtain ⟨dropped, hrecorded, -, hdropped, hkept⟩ := exists_recorded h writes
  have hpast : ∀ commit ∈ store.recorded writes, commit.1 ≤ store.version + 1 := by
    intro commit hcommit
    rcases List.mem_append.1 hcommit with hcommit | hcommit
    . exact Nat.le_succ_of_le (h.past commit hcommit)
    . rw [List.mem_singleton.1 hcommit]
  have hin : ∀ commit ∈ (store.advance writes).history, commit ∈ store.recorded writes := by
    intro commit hcommit
    rw [hrecorded]
    exact List.mem_append_right _ hcommit
  constructor
  . have := recorded_ascending h writes
    rw [hrecorded] at this
    exact (List.pairwise_append.1 this).2.1
  . exact hkept
  . exact fun commit hcommit => hpast commit (hin commit hcommit)
  . rw [oldestBase_advance]
    apply horizon_le (Nat.le_succ_of_le h.oldest)
    exact fun commit hcommit => hpast commit (List.mem_of_mem_take hcommit)

theorem Tracks.advance (hrecords : store.Records) (h : store.Tracks base version)
    : (store.advance writes).Tracks base version := by
  obtain ⟨dropped, hrecorded, hle, hdropped, -⟩ := exists_recorded hrecords writes
  refine ⟨Nat.le_succ_of_le h.past, ?_⟩
  intro hversion key hfree
  have hapart : ∀ commit ∈ store.recorded writes, version < commit.1 → ¬ commit.2.Covers key := by
    intro commit hcommit hlt
    rw [hrecorded] at hcommit
    rcases List.mem_append.1 hcommit with hcommit | hcommit
    . have := hdropped commit hcommit
      omega
    . exact hfree commit hcommit hlt
  have huntouched : ¬ writes.touched.Covers key :=
    hapart _ (List.mem_append_right _ (List.mem_singleton_self _)) (Nat.lt_succ_of_le h.past)
  rw [h.agrees (Nat.le_trans hle hversion) key fun commit hcommit =>
    hapart commit (List.mem_append_left _ hcommit)]
  exact (WriteSet.get?_performOn_of_not_touches fun htouches =>
    huntouched (WriteSet.covers_touched_iff.2 htouches)).symm

theorem Tracks.agrees_of_admits (h : store.Tracks base version) (hadmits : store.Admits version reads)
    : TransactionView.Agrees reads base store.map := by
  intro key hkey
  have hreads : reads.isEmpty = false := by
    obtain ⟨r, hr, -⟩ := hkey
    unfold KeyRanges.isEmpty
    simpa using List.ne_nil_of_mem hr
  apply h.agrees
  . rcases hadmits.remembered with hle | hempty
    . exact hle
    . rw [hreads] at hempty
      cases hempty
  . intro commit hcommit hlt hcovers
    have hmeets := KeyRanges.meets_iff.2 ⟨key, hcovers, hkey⟩
    rw [hadmits.apart commit hcommit hlt] at hmeets
    cases hmeets

theorem tracks_self (store : StandaloneStore) : store.Tracks store.map store.version where
  past := Nat.le_refl _
  agrees := fun _ _ _ => rfl

theorem Tracks.of_inMemory (h : store.Tracks base version) (hsame : store'.inMemory = store.inMemory)
    : store'.Tracks base version := by
  have hthere : store.inMemory.Tracks base version := ⟨h.past, h.agrees⟩
  rw [← hsame] at hthere
  exact ⟨hthere.past, hthere.agrees⟩

theorem Records.of_inMemory (h : store.Records) (hsame : store'.inMemory = store.inMemory)
    : store'.Records := by
  have hthere : store.inMemory.Records := ⟨h.ascending, h.behind, h.past, h.oldest⟩
  rw [← hsame] at hthere
  exact ⟨hthere.ascending, hthere.behind, hthere.past, hthere.oldest⟩

end StandaloneStore

namespace TransactionView

def fresh (base : KeyMap) : TransactionView :=
  { base }

theorem performAll_concat (view : TransactionView) (operations : List Operation) (operation : Operation)
    : view.performAll (operations ++ [operation])
        =
      ((view.performAll operations).1 ++ ((view.performAll operations).2.performAll [operation]).1,
        ((view.performAll operations).2.performAll [operation]).2) := by
  induction operations generalizing view with
  | nil => rfl
  | cons first rest ih =>
    rw [List.cons_append, performAll_cons, performAll_cons]
    cases view.permission first <;> simp only [ih, List.cons_append]

end TransactionView

namespace StandaloneClient

variable {store store' : StandaloneStore} {client : StandaloneClient}

structure Valid (store : StandaloneStore) (client : StandaloneClient) : Prop where
  tracks : store.Tracks client.transaction.view.base client.transaction.baseVersion
  follows : client.transaction.view.closed = false →
    (TransactionView.fresh client.transaction.view.base).performAll client.operations
      = (client.answers, client.transaction.view)

theorem valid_begin (store : StandaloneStore) : Valid store { transaction := store.begin } where
  tracks := store.tracks_self
  follows := fun _ => rfl

theorem Valid.operate (h : Valid store client) (operation : Operation)
    : Valid store (client.operate operation) := by
  obtain ⟨⟨view, version⟩, dialogue⟩ := client
  have hfollows := h.follows
  unfold StandaloneClient.operate
  unfold operations answers at hfollows
  dsimp only at hfollows ⊢
  rw [TransactionView.perform_eq]
  cases hpermission : view.permission operation with
  | error e =>
    refine ⟨h.tracks, ?_⟩
    intro hopen
    unfold operations answers
    dsimp only [Except.map] at hopen ⊢
    rw [List.map_append, List.map_append, List.map_singleton, TransactionView.performAll_concat, hfollows hopen,
      TransactionView.performAll_cons, hpermission]
    rfl
  | ok u =>
    have hbase := view.effect_base operation
    have hclosed : (view.effect operation).2.closed = view.closed := by
      cases operation <;> rfl
    dsimp only [Except.map]
    constructor
    . dsimp only
      rw [hbase]
      exact h.tracks
    . intro hopen
      unfold operations answers
      dsimp only at hopen ⊢
      rw [hclosed] at hopen
      rw [hbase, List.map_append, List.map_append, List.map_singleton, TransactionView.performAll_concat,
        hfollows hopen, TransactionView.performAll_cons, hpermission]
      rfl

theorem Valid.rollback (h : Valid store client) : Valid store client.rollback where
  tracks := h.tracks
  follows := nofun

theorem Valid.removes_ordered (h : Valid store client) (hopen : client.transaction.view.closed = false)
    : client.transaction.view.writes.removes.Ordered := by
  have hordered : ((TransactionView.fresh client.transaction.view.base).performAll
      client.operations).2.writes.removes.Ordered :=
    TransactionView.performAll_removes_ordered KeyRanges.ordered_empty
  rw [h.follows hopen] at hordered
  exact hordered

theorem Valid.rerun (h : Valid store client) (hopen : client.transaction.view.closed = false) {map : KeyMap}
    (hagrees : TransactionView.Agrees client.transaction.view.reads client.transaction.view.base map)
    : ∃ answers, client.answers = answers.map .ok ∧
        map.performAll client.operations = (answers, client.transaction.view.writes.performOn map) := by
  have hfollows := h.follows hopen
  have hrebase : (TransactionView.fresh map).performAll client.operations
      = (client.answers, client.transaction.view.rebase map) := by
    have hreads : TransactionView.Agrees ((TransactionView.fresh client.transaction.view.base).performAll
        client.operations).2.reads client.transaction.view.base map := by
      rw [hfollows]
      exact hagrees
    have := TransactionView.performAll_rebase hreads
    rw [hfollows] at this
    exact this
  have hoverlay := (TransactionView.fresh map).performAll_overlay KeyRanges.ordered_empty rfl rfl client.operations
  rw [hrebase] at hoverlay
  exact ⟨_, hoverlay.1, Prod.ext rfl hoverlay.2.symm⟩

end StandaloneClient

namespace StandaloneStore

theorem map_of_inMemory {store store' : StandaloneStore} (h : store.inMemory = store'.inMemory)
    : store.map = store'.map := by
  have : store.inMemory.map = store'.inMemory.map := by rw [h]
  exact this

variable {store store' : StandaloneStore} {client : StandaloneClient}

inductive Grows (store store' : StandaloneStore) : Prop where
  | same (h : store'.inMemory = store.inMemory)
  | advance (writes : WriteSet) (hordered : writes.removes.Ordered)
      (h : store'.inMemory = (store.advance writes).inMemory)

theorem Grows.records (h : Grows store store') (hrecords : store.Records) : store'.Records := by
  cases h with
  | same h => exact hrecords.of_inMemory h
  | advance writes hordered h => exact (hrecords.advance writes).of_inMemory h

theorem Grows.valid (h : Grows store store') (hrecords : store.Records) (hvalid : client.Valid store)
    : client.Valid store' := by
  refine ⟨?_, hvalid.follows⟩
  cases h with
  | same h => exact hvalid.tracks.of_inMemory h
  | advance writes _ h => exact (hvalid.tracks.advance hrecords).of_inMemory h

theorem commitTransaction_eq (hopen : client.transaction.view.closed = false)
    : commitTransaction client.transaction store
        =
      match commit client.transaction.baseVersion client.transaction.view.reads
          client.transaction.view.writes store with
      | .ok _ store => (.ok (), { client.transaction with view := client.transaction.view.take.2 }, store)
      | .error e store =>
        (.error e, { client.transaction with view := client.transaction.view.take.2 }, store) := by
  unfold commitTransaction
  rw [hopen]
  rfl

theorem commitTransaction_of_closed (hclosed : client.transaction.view.closed = true)
    : commitTransaction client.transaction store
        =
      (.error .transactionClosed, client.transaction, store) := by
  unfold commitTransaction
  rw [hclosed]
  rfl

variable {result : Except Error Unit} {transaction : StandaloneTransaction}

theorem grows_commitTransaction (hvalid : client.Valid store)
    (h : commitTransaction client.transaction store = (result, transaction, store'))
    : Grows store store' ∧ { client with transaction }.Valid store := by
  cases hopen : client.transaction.view.closed with
  | true =>
    rw [commitTransaction_of_closed hopen] at h
    cases h
    exact ⟨.same rfl, hvalid⟩
  | false =>
    have hclosed : StandaloneClient.Valid store
        { client with transaction := { client.transaction with view := client.transaction.view.take.2 } } :=
      ⟨hvalid.tracks, nofun⟩
    have hmemory := commit_inMemory client.transaction.baseVersion client.transaction.view.reads
      client.transaction.view.writes store
    rw [commitTransaction_eq hopen] at h
    cases hcommit : commit client.transaction.baseVersion client.transaction.view.reads
        client.transaction.view.writes store with
    | error e s =>
      rw [hcommit] at h hmemory
      cases h
      exact ⟨.same hmemory, hclosed⟩
    | ok u s =>
      rw [hcommit] at h hmemory
      cases h
      refine ⟨?_, hclosed⟩
      obtain ⟨-, hsame⟩ := hmemory
      split at hsame
      . exact .same hsame
      . exact .advance _ (hvalid.removes_ordered hopen) hsame

theorem commitTransaction_cases (hvalid : client.Valid store)
    (h : commitTransaction client.transaction store = (result, transaction, store'))
    : (result = .ok () → ∃ answers, client.answers = answers.map .ok ∧
        store.map.performAll client.operations = (answers, store'.map)) ∧
      (∀ e, result = .error e → store'.map = store.map ∧ store'.version = store.version) := by
  cases hopen : client.transaction.view.closed with
  | true =>
    rw [commitTransaction_of_closed hopen] at h
    cases h
    exact ⟨nofun, fun _ _ => ⟨rfl, rfl⟩⟩
  | false =>
    have hmemory := commit_inMemory client.transaction.baseVersion client.transaction.view.reads
      client.transaction.view.writes store
    rw [commitTransaction_eq hopen] at h
    cases hcommit : commit client.transaction.baseVersion client.transaction.view.reads
        client.transaction.view.writes store with
    | error e s =>
      rw [hcommit] at h hmemory
      cases h
      exact ⟨nofun, fun _ _ => ⟨map_of_inMemory hmemory, version_of_inMemory hmemory⟩⟩
    | ok u s =>
      rw [hcommit] at h hmemory
      cases h
      obtain ⟨hadmits, hsame⟩ := hmemory
      obtain ⟨answers, hanswers, hperform⟩ := hvalid.rerun hopen (hvalid.tracks.agrees_of_admits hadmits)
      refine ⟨fun _ => ⟨answers, hanswers, ?_⟩, nofun⟩
      rw [hperform, map_of_inMemory hsame]
      split
      . next hempty =>
        rw [WriteSet.eq_of_isEmpty hempty]
        rfl
      . rfl

end StandaloneStore

namespace StandaloneSession

variable {session : StandaloneSession} {store : StandaloneStore}

structure Valid (session : StandaloneSession) : Prop where
  records : session.store.Records
  clients : ∀ client ∈ session.clients, client.Valid session.store

theorem Valid.modify (h : session.Valid) (index : Nat) (f : StandaloneClient → StandaloneClient)
    (hf : ∀ client, client.Valid session.store → (f client).Valid session.store)
    : Valid { session with clients := session.clients.modify index f } := by
  refine ⟨h.records, ?_⟩
  intro client hclient
  obtain ⟨i, hi, rfl⟩ := List.getElem_of_mem hclient
  rw [List.getElem_modify]
  split
  . exact hf _ (h.clients _ (List.getElem_mem _))
  . exact h.clients _ (List.getElem_mem _)

theorem Valid.perform (h : session.Valid) (event : StandaloneEvent) : (session.perform event).Valid := by
  cases event with
  | begin =>
    refine ⟨h.records, ?_⟩
    intro client hclient
    rcases List.mem_append.1 hclient with hclient | hclient
    . exact h.clients client hclient
    . rw [List.mem_singleton.1 hclient]
      exact StandaloneClient.valid_begin session.store
  | operate index operation => exact h.modify index _ fun client hvalid => hvalid.operate operation
  | rollback index => exact h.modify index _ fun client hvalid => hvalid.rollback
  | commit index =>
    cases hclient : session.clients[index]? with
    | none =>
      simp only [StandaloneSession.perform, hclient]
      exact h
    | some client =>
      have hvalid := h.clients client (List.mem_of_getElem? hclient)
      rcases hcommit : StandaloneStore.commitTransaction client.transaction session.store
        with ⟨result, transaction, after⟩
      obtain ⟨hgrows, hclosed⟩ := StandaloneStore.grows_commitTransaction hvalid hcommit
      simp only [StandaloneSession.perform, hclient, hcommit]
      refine ⟨hgrows.records h.records, ?_⟩
      intro other hother
      apply hgrows.valid h.records
      rcases List.mem_or_eq_of_mem_set hother with hother | rfl
      . exact h.clients other hother
      . exact hclosed

theorem valid_run (hstart : store.Started) (events : List StandaloneEvent)
    : (run { store } events).Valid := by
  have hkeeps : ∀ session : StandaloneSession, session.Valid → (session.run events).Valid := by
    induction events with
    | nil => exact fun _ h => h
    | cons event rest ih => exact fun session h => ih (session.perform event) (h.perform event)
  exact hkeeps _ ⟨hstart.records, nofun⟩

/-- Whatever the order in which transactions on one store begin, read, write, roll back and commit: one
whose commit succeeds has seen what it would have seen alone on the map just before, and leaves the map that
it would have left; one whose commit fails changes neither map nor version. -/
theorem commits_serializable (hstart : store.Started) (events : List StandaloneEvent) {index : Nat}
    {client : StandaloneClient} {result : Except Error Unit} {transaction : StandaloneTransaction}
    {after : StandaloneStore}
    (hclient : (run { store } events).clients[index]? = some client)
    (hcommit : StandaloneStore.commitTransaction client.transaction (run { store } events).store
      = (result, transaction, after))
    : (result = .ok () → ∃ answers, client.answers = answers.map .ok ∧
        (run { store } events).store.map.performAll client.operations = (answers, after.map)) ∧
      (∀ e, result = .error e → after.map = (run { store } events).store.map ∧
        after.version = (run { store } events).store.version) := by
  have hvalid := (valid_run hstart events).clients client (List.mem_of_getElem? hclient)
  exact StandaloneStore.commitTransaction_cases hvalid hcommit

namespace Interleaved

-- The second transaction commits while the first is open, and writes what the first does not read.
def events : List StandaloneEvent :=
  [.begin, .begin, .operate 0 (.get [2]), .operate 1 (.put [1] [5]), .operate 0 (.put [2] [6]), .commit 1]

def state : StandaloneSession :=
  run { store := .empty } events

end Interleaved

theorem commits_serializable_interleaved
    : ∃ client transaction after, Interleaved.state.clients[0]? = some client ∧
        client.transaction.baseVersion = 0 ∧ Interleaved.state.store.version = 1 ∧
        StandaloneStore.commitTransaction client.transaction Interleaved.state.store
          = (.ok (), transaction, after) ∧
        ∃ answers, client.answers = answers.map .ok ∧
          Interleaved.state.store.map.performAll client.operations = (answers, after.map) := by
  obtain ⟨client, hclient⟩ : ∃ client, Interleaved.state.clients[0]? = some client := ⟨_, rfl⟩
  have hfirst : client = Interleaved.state.clients.head (by decide) := by
    rw [← Option.some.injEq, ← hclient]
    rfl
  have hok : (StandaloneStore.commitTransaction client.transaction Interleaved.state.store).1 = .ok () := by
    rw [hfirst]
    decide +kernel
  rcases hcommit : StandaloneStore.commitTransaction client.transaction Interleaved.state.store
    with ⟨result, transaction, after⟩
  rw [hcommit] at hok
  refine ⟨client, transaction, after, hclient, ?_, by decide +kernel, ?_, ?_⟩
  . rw [hfirst]
    decide +kernel
  . rw [← hok]
    exact hcommit
  . exact (commits_serializable .empty Interleaved.events hclient hcommit).1 hok

end StandaloneSession

end ReplicatedStore
