import ReplicatedStore.Proofs.Standalone.Journal
import ReplicatedStore.Proofs.Standalone.Transactions

/-!
A durable standalone store whose compactions fail. Its commits come to what they would have come to, and
what is in its directory opens as what was in its memory.
-/

namespace ReplicatedStore

namespace StandaloneStore

variable {store : StandaloneStore} {base : Nat} {reads : KeyRanges} {writes : WriteSet}

def plan (store : StandaloneStore) : List (Option Fault) :=
  (store.journal.map (·.disk.plan)).getD []

def calmed (store : StandaloneStore) : StandaloneStore :=
  { store with journal := store.journal.map fun journal => { journal with disk := journal.disk.calmed } }

def sparesCompaction (store : StandaloneStore) : Bool :=
  store.journal.all fun journal =>
    journal.size < store.journalLimit || journal.failsReplacing store.version entryTerm store.map.encode

def sparesCommit (store : StandaloneStore) (base : Nat) (reads : KeyRanges) (writes : WriteSet) : Bool :=
  (store.refusal? base reads).isSome || writes.isEmpty ||
    match onJournal (LogStore.append [entryOf (store.version + 1) writes]) store with
    | .error _ _ => LogStore.greatestCommand < writes.encode.length
    | .ok _ store => (store.advance writes).sparesCompaction

def verdict (store : StandaloneStore) (base : Nat) (reads : KeyRanges) (writes : WriteSet)
    : Except Error Unit :=
  match store.refusal? base reads with
  | some e => .error e
  | none =>
    if writes.isEmpty ∨ writes.encode.length ≤ LogStore.greatestCommand then .ok ()
    else .error (.log s!"entry {store.version + 1} command too large ({writes.encode.length} bytes)")

theorem onJournal_of_some {journal : LogStore} (h : store.journal = some journal) (operation : LogM Unit)
    : onJournal operation store
        =
      match operation journal with
      | .ok _ journal => .ok () { store with journal := some journal }
      | .error e journal => .error e { store with journal := some journal } := by
  cases hresult : operation journal <;> simp only [onJournal, h, hresult]

def Backed (store : StandaloneStore) : Prop :=
  ∃ journal, store.journal = some journal ∧ Backs journal store.version store.map

def Ready (store : StandaloneStore) : Prop :=
  ∃ journal bytes durable, store.journal = some journal ∧ journal.lastIndex = store.version ∧
    journal.Carries bytes durable

theorem Backed.ready (h : store.Backed) : store.Ready := by
  obtain ⟨journal, hjournal, hbacks⟩ := h
  obtain ⟨records, durable, hcoherent⟩ := hbacks.coherent
  exact ⟨journal, _, durable, hjournal, hbacks.lastIndex, hcoherent.carries⟩

inductive Appends (store : StandaloneStore) (writes : WriteSet) : Prop where
  | done {journal journal' : LogStore} (old : store.journal = some journal)
      (short : writes.encode.length ≤ LogStore.greatestCommand)
      (append : LogStore.append [entryOf (store.version + 1) writes] journal = .ok () journal')
      (result : onJournal (LogStore.append [entryOf (store.version + 1) writes]) store
        = .ok () { store with journal := some journal' })
  | refused (long : LogStore.greatestCommand < writes.encode.length)
      (result : onJournal (LogStore.append [entryOf (store.version + 1) writes]) store
        = .error (.log s!"entry {store.version + 1} command too large ({writes.encode.length} bytes)") store)

theorem Ready.appends (h : store.Ready)
    (hspared : store.plan = [] ∨ ∀ e store',
      onJournal (LogStore.append [entryOf (store.version + 1) writes]) store = .error e store' →
        LogStore.greatestCommand < writes.encode.length)
    : store.Appends writes := by
  obtain ⟨journal, bytes, durable, hjournal, hlast, hcarries⟩ := h
  have hindex : (entryOf (store.version + 1) writes).index = journal.lastIndex + 1 := by
    rw [hlast]
    rfl
  have honJournal := onJournal_of_some hjournal (LogStore.append [entryOf (store.version + 1) writes])
  rcases Nat.lt_or_ge LogStore.greatestCommand writes.encode.length with hlong | hshort
  . refine .refused hlong ?_
    rw [honJournal, LogStore.append_of_long hindex hlong]
    dsimp only
    rw [← hjournal]
    rfl
  . have hyields := LogStore.yields_append_one hcarries hindex hshort
    cases happend : LogStore.append [entryOf (store.version + 1) writes] journal with
    | ok _ journal' =>
      refine .done hjournal hshort happend ?_
      rw [honJournal, happend]
    | error e journal' =>
      exfalso
      rw [happend] at honJournal hyields
      rcases hspared with hcalm | hspared
      . unfold plan at hcalm
        rw [hjournal] at hcalm
        exact hyields hcalm
      . exact Nat.not_lt.2 hshort (hspared _ _ honJournal)

theorem appends_of_spared (h : store.Ready)
    (hspared : store.plan = [] ∨ store.sparesCommit base reads writes = true)
    (hrefusal : store.refusal? base reads = none) (hwrites : ¬ writes.isEmpty = true)
    : store.Appends writes := by
  apply h.appends
  refine hspared.imp_right fun hspared e store' herror => ?_
  unfold sparesCommit at hspared
  rw [hrefusal, herror] at hspared
  simpa [hwrites] using hspared

theorem commit_verdict (base : Nat) (reads : KeyRanges) (writes : WriteSet) (h : store.Ready)
    (hspared : store.plan = [] ∨ store.sparesCommit base reads writes = true)
    : match commit base reads writes store with
      | .ok _ _ => store.verdict base reads writes = .ok ()
      | .error e _ => store.verdict base reads writes = .error e := by
  rw [commit_eq]
  unfold verdict
  cases hrefusal : store.refusal? base reads with
  | some e => rfl
  | none =>
    dsimp only
    by_cases hwrites : writes.isEmpty = true
    . rw [if_pos hwrites, if_pos (.inl hwrites)]
    . rw [if_neg hwrites]
      cases appends_of_spared h hspared hrefusal hwrites with
      | done _ short _ result =>
        obtain ⟨store', hcompact, -⟩ := compact_inMemory (StandaloneStore.advance _ writes)
        rw [if_pos (.inr short)]
        unfold entryOf at result
        rw [result]
        dsimp only
        rw [hcompact]
      | refused long result =>
        rw [if_neg (not_or.2 ⟨hwrites, Nat.not_le.2 long⟩)]
        unfold entryOf at result
        rw [result]

theorem compact_eq {journal : LogStore} (hjournal : store.journal = some journal)
    : compact store
        =
      .ok () (if store.journalLimit ≤ journal.size then
        { store with
          journal := some (journal.after (.putSnapshot store.version entryTerm store.map.encode)) } else store) := by
  unfold compact
  rw [EStateM.bind_get, hjournal]
  by_cases hlong : store.journalLimit ≤ journal.size
  . have hany : (Option.map LogStore.size (some journal)).any (store.journalLimit ≤ ·) = true :=
      decide_eq_true hlong
    rw [if_pos hany, if_pos hlong]
    have hput := onJournal_of_some hjournal (LogStore.putSnapshot store.version entryTerm store.map.encode)
    unfold LogStore.after LogCall.perform
    simp only [tryCatch, tryCatchThe, MonadExceptOf.tryCatch, EStateM.tryCatch, hput]
    cases LogStore.putSnapshot store.version entryTerm store.map.encode journal <;> rfl
  . have hany : ¬ (Option.map LogStore.size (some journal)).any (store.journalLimit ≤ ·) = true := by
      simpa using hlong
    rw [if_neg hany, if_neg hlong]
    rfl

theorem compact_backed (h : store.Backed) (hspared : store.plan = [] ∨ store.sparesCompaction = true)
    (hversion : store.version < 2 ^ 64) (hsize : store.map.encode.length < 2 ^ 64)
    : ∃ store', compact store = .ok () store' ∧ store'.Backed ∧ store'.plan <:+ store.plan := by
  obtain ⟨journal, hjournal, hbacks⟩ := h
  refine ⟨_, compact_eq hjournal, ?_⟩
  split
  . next hlong =>
    obtain ⟨records, durable, hcoherent⟩ := hbacks.coherent
    have hplan : store.plan = journal.disk.plan := by
      unfold plan
      rw [hjournal]
      rfl
    have hfails : journal.disk.plan = [] ∨
        journal.failsReplacing store.version entryTerm store.map.encode = true := by
      rw [← hplan]
      refine hspared.imp_right fun hspared => ?_
      unfold sparesCompaction at hspared
      rw [hjournal] at hspared
      simpa [Nat.not_lt.2 hlong] using hspared
    obtain ⟨hinstalls, hcoherent'⟩ := hcoherent.folds _ _ _ hfails
    obtain ⟨hbacks', hsuffix⟩ := hbacks.fold hcoherent hversion hsize hinstalls hcoherent'
    rw [hplan]
    exact ⟨⟨_, rfl, hbacks'⟩, hsuffix⟩
  . exact ⟨⟨journal, hjournal, hbacks⟩, List.suffix_refl _⟩

theorem commit_backed (base : Nat) (reads : KeyRanges) (h : store.Backed)
    (hspared : store.plan = [] ∨ store.sparesCommit base reads writes = true)
    (hordered : writes.removes.Ordered) (hversion : store.version + 1 < 2 ^ 64)
    (hsize : ∀ store', commit base reads writes store = .ok () store' → store'.map.encode.length < 2 ^ 64)
    : EStateM.Ends (fun store' => store'.Backed ∧ store'.plan <:+ store.plan) (fun _ _ => True)
        (commit base reads writes store) := by
  rw [commit_eq] at hsize ⊢
  cases hrefusal : store.refusal? base reads with
  | some e => exact ⟨h, List.suffix_refl _⟩
  | none =>
    rw [hrefusal] at hsize
    dsimp only at hsize ⊢
    by_cases hwrites : writes.isEmpty = true
    . rw [if_pos hwrites]
      exact ⟨⟨h, List.suffix_refl _⟩, trivial⟩
    . rw [if_neg hwrites] at hsize ⊢
      cases appends_of_spared h.ready hspared hrefusal hwrites with
      | refused _ result =>
        unfold entryOf at result
        rw [result]
        exact ⟨h, List.suffix_refl _⟩
      | @done journal journal' old short append result =>
        obtain ⟨_, hjournal, hbacks⟩ := h
        cases old.symm.trans hjournal
        obtain ⟨hbacks', hsuffix⟩ := hbacks.append hordered hversion append
        have hspared' : (StandaloneStore.advance { store with journal := some journal' } writes).plan = [] ∨
            (StandaloneStore.advance { store with journal := some journal' } writes).sparesCompaction = true := by
          refine hspared.imp (fun hcalm => ?_) fun hspared => ?_
          . unfold plan at hcalm
            rw [old] at hcalm
            exact Volume.calm_of_suffix hsuffix hcalm
          . unfold sparesCommit at hspared
            rw [hrefusal, result] at hspared
            simpa [hwrites] using hspared
        unfold entryOf at result
        rw [result] at hsize ⊢
        dsimp only at hsize ⊢
        obtain ⟨store₁, hcompact, hsame⟩ :=
          compact_inMemory (StandaloneStore.advance { store with journal := some journal' } writes)
        have hbacked' : (StandaloneStore.advance { store with journal := some journal' } writes).Backed :=
          ⟨journal', rfl, hbacks'⟩
        obtain ⟨store₂, hcompact₂, hbacked, hplan⟩ := compact_backed hbacked' hspared' hversion (by
          rw [← map_of_inMemory hsame]
          exact hsize store₁ hcompact)
        rw [hcompact₂]
        refine ⟨⟨hbacked, hplan.trans ?_⟩, trivial⟩
        unfold plan
        rw [old]
        exact hsuffix

theorem verdict_of_inMemory {store' : StandaloneStore} (h : store.inMemory = store'.inMemory)
    : store.verdict base reads writes = store'.verdict base reads writes := by
  have : store.inMemory.verdict base reads writes = store'.inMemory.verdict base reads writes := by
    rw [h]
  exact this

theorem advance_of_inMemory {store' : StandaloneStore} (h : store.inMemory = store'.inMemory)
    : (store.advance writes).inMemory = (store'.advance writes).inMemory := by
  have : (store.inMemory.advance writes).inMemory = (store'.inMemory.advance writes).inMemory := by
    rw [h]
  exact this

structure Mirrors (store calm : StandaloneStore) : Prop where
  inMemory : calm.inMemory = store.inMemory
  backed : store.Backed
  mirror : calm.Backed
  calm : calm.plan = []

theorem Backed.mirrors (h : store.Backed) : store.Mirrors store.calmed := by
  obtain ⟨journal, hjournal, hbacks⟩ := h
  obtain ⟨records, durable, hcoherent⟩ := hbacks.coherent
  obtain ⟨snapshot, hread, hleads⟩ := hbacks.leads
  have hcalmed : store.calmed.journal = some { journal with disk := journal.disk.calmed } := by
    unfold calmed
    rw [hjournal]
    rfl
  have hcoherent' : LogStore.Coherent { journal with disk := journal.disk.calmed } records durable :=
    { toDescribes := ⟨hcoherent.fit, hcoherent.selects, hcoherent.parallel, hcoherent.fileLength⟩
      carries := ⟨hcoherent.carries.sound, hcoherent.carries.file⟩ }
  have hread' : LogStore.readSnapshot journal.disk.calmed = .ok snapshot journal.disk.calmed :=
    LogStore.readSnapshot_congr hread rfl
  refine ⟨rfl, ⟨journal, hjournal, hbacks⟩, ⟨_, hcalmed, ?_⟩, ?_⟩
  . exact ⟨⟨_, _, hcoherent'⟩, hbacks.lastIndex, snapshot, hread', hleads⟩
  . unfold plan
    rw [hcalmed]
    rfl

theorem Backed.reopens (h : store.Backed) (policy : SyncPolicy) (limit : Nat)
    : ∃ directory reopened volume, store.calmed.close = some directory ∧
        StandaloneStore.open policy limit directory = .ok reopened volume ∧
        reopened.map = store.map ∧ reopened.version = store.version := by
  have hmirrors := h.mirrors
  obtain ⟨journal, hjournal, hbacks⟩ := hmirrors.mirror
  have hcalm : journal.disk.plan = [] := by
    have := hmirrors.calm
    unfold plan at this
    rw [hjournal] at this
    exact this
  obtain ⟨reopened, volume, hopen, hmap, hversion⟩ := hbacks.reopen hcalm policy limit
  refine ⟨journal.close, reopened, volume, ?_, hopen, hmap, hversion⟩
  unfold close
  rw [hjournal]
  rfl

theorem Mirrors.commit {calm : StandaloneStore} (h : store.Mirrors calm)
    (hspared : store.sparesCommit base reads writes = true) (hordered : writes.removes.Ordered)
    (hversion : store.version + 1 < 2 ^ 64)
    (hsize : ∀ store', commit base reads writes store = .ok () store' → store'.map.encode.length < 2 ^ 64)
    : match commit base reads writes store, commit base reads writes calm with
      | .ok _ store', .ok _ calm' => store'.Mirrors calm'
      | .error e store', .error e' calm' => e = e' ∧ store'.Mirrors calm'
      | _, _ => False := by
  have hverdict := commit_verdict base reads writes h.backed.ready (.inr hspared)
  have hverdict' := commit_verdict base reads writes h.mirror.ready (.inl h.calm)
  have hmemory := commit_inMemory base reads writes store
  have hmemory' := commit_inMemory base reads writes calm
  have hbacked := commit_backed base reads h.backed (.inr hspared) hordered hversion hsize
  have hcalmVersion : calm.version + 1 < 2 ^ 64 := by
    rw [version_of_inMemory h.inMemory]
    exact hversion
  rw [verdict_of_inMemory h.inMemory] at hverdict'
  -- the memory of both is the same again, as far as the verdict goes
  have hsame : (if writes.isEmpty then calm else calm.advance writes).inMemory
      = (if writes.isEmpty then store else store.advance writes).inMemory := by
    split
    . exact h.inMemory
    . exact advance_of_inMemory h.inMemory
  have hmirror := commit_backed base reads h.mirror (.inl h.calm) hordered hcalmVersion
  cases hcommit : StandaloneStore.commit base reads writes store with
  | ok _ store' =>
    rw [hcommit] at hverdict hmemory hbacked hsize
    cases hcommit' : StandaloneStore.commit base reads writes calm with
    | ok _ calm' =>
      rw [hcommit'] at hmemory' hmirror
      have hequal : calm'.inMemory = store'.inMemory := hmemory'.2.trans (hsame.trans hmemory.2.symm)
      have hends := hmirror fun calm'' heq => by
        cases heq
        rw [map_of_inMemory hequal]
        exact hsize store' rfl
      exact ⟨hequal, hbacked.1.1, hends.1.1, Volume.calm_of_suffix hends.1.2 h.calm⟩
    | error e calm' =>
      rw [hcommit'] at hverdict'
      cases hverdict.symm.trans hverdict'
  | error e store' =>
    rw [hcommit] at hverdict hmemory hbacked
    cases hcommit' : StandaloneStore.commit base reads writes calm with
    | ok _ calm' =>
      rw [hcommit'] at hverdict'
      cases hverdict.symm.trans hverdict'
    | error e' calm' =>
      rw [hcommit'] at hverdict' hmemory' hmirror
      have hends := hmirror nofun
      refine ⟨?_, hmemory'.trans (h.inMemory.trans hmemory.symm), hbacked.1, hends.1,
        Volume.calm_of_suffix hends.2 h.calm⟩
      cases hverdict.symm.trans hverdict'
      rfl

theorem Mirrors.commitTransaction {calm : StandaloneStore} (h : store.Mirrors calm)
    {client : StandaloneClient}
    (hspared : (client.transaction.view.closed ||
      store.sparesCommit client.transaction.baseVersion client.transaction.view.reads
        client.transaction.view.writes) = true)
    (hordered : client.transaction.view.closed = false → client.transaction.view.writes.removes.Ordered)
    (hversion : store.version + 1 < 2 ^ 64)
    (hsize : (StandaloneStore.commitTransaction client.transaction store).2.2.map.encode.length < 2 ^ 64)
    : ∃ result transaction store' calm',
        StandaloneStore.commitTransaction client.transaction store = (result, transaction, store') ∧
        StandaloneStore.commitTransaction client.transaction calm = (result, transaction, calm') ∧
        store'.Mirrors calm' := by
  cases hclosed : client.transaction.view.closed with
  | true => exact ⟨_, _, _, _, commitTransaction_of_closed hclosed, commitTransaction_of_closed hclosed, h⟩
  | false =>
    rw [hclosed] at hspared
    rw [commitTransaction_eq hclosed] at hsize
    have hcommit := h.commit hspared (hordered hclosed) hversion fun store' hok => by
      rw [hok] at hsize
      exact hsize
    rw [commitTransaction_eq hclosed, commitTransaction_eq hclosed]
    revert hcommit
    generalize StandaloneStore.commit client.transaction.baseVersion client.transaction.view.reads
      client.transaction.view.writes store = result
    generalize StandaloneStore.commit client.transaction.baseVersion client.transaction.view.reads
      client.transaction.view.writes calm = result'
    intro hcommit
    cases result with
    | ok _ store' =>
      cases result' with
      | ok _ calm' => exact ⟨_, _, _, _, rfl, rfl, hcommit⟩
      | error e calm' => exact hcommit.elim
    | error e store' =>
      cases result' with
      | ok _ calm' => exact hcommit.elim
      | error e' calm' =>
        obtain ⟨rfl, hmirrors⟩ := hcommit
        exact ⟨_, _, _, _, rfl, rfl, hmirrors⟩

end StandaloneStore

namespace StandaloneSession

variable {session : StandaloneSession}

def outcome? (session : StandaloneSession) : StandaloneEvent → Option (Except Error Unit)
  | .commit index =>
    session.clients[index]?.map fun client =>
      (StandaloneStore.commitTransaction client.transaction session.store).1
  | _ => none

def outcomes (session : StandaloneSession) : List StandaloneEvent → List (Except Error Unit)
  | [] => []
  | event :: rest => (session.outcome? event).toList ++ (session.perform event).outcomes rest

def spares (session : StandaloneSession) : StandaloneEvent → Bool
  | .commit index =>
    session.clients[index]?.all fun client =>
      client.transaction.view.closed ||
        session.store.sparesCommit client.transaction.baseVersion client.transaction.view.reads
          client.transaction.view.writes
  | _ => true

structure Mirrors (session calm : StandaloneSession) : Prop where
  clients : calm.clients = session.clients
  store : session.store.Mirrors calm.store

theorem Mirrors.perform {calm : StandaloneSession} (h : session.Mirrors calm) (hvalid : session.Valid)
    {event : StandaloneEvent} (hspared : session.spares event = true)
    (hversion : session.store.version + 1 < 2 ^ 64)
    (hsize : (session.perform event).store.map.encode.length < 2 ^ 64)
    : calm.outcome? event = session.outcome? event ∧
        (session.perform event).Mirrors (calm.perform event) := by
  cases event with
  | begin =>
    refine ⟨rfl, ?_, h.store⟩
    unfold StandaloneSession.perform StandaloneStore.begin
    dsimp only
    rw [h.clients, StandaloneStore.map_of_inMemory h.store.inMemory,
      StandaloneStore.version_of_inMemory h.store.inMemory]
  | operate index operation =>
    refine ⟨rfl, ?_, h.store⟩
    unfold StandaloneSession.perform
    rw [h.clients]
  | rollback index =>
    refine ⟨rfl, ?_, h.store⟩
    unfold StandaloneSession.perform
    rw [h.clients]
  | commit index =>
    cases hclient : session.clients[index]? with
    | none =>
      have hclient' : calm.clients[index]? = none := by
        rw [h.clients, hclient]
      simp only [outcome?, StandaloneSession.perform, hclient, hclient']
      exact ⟨rfl, h⟩
    | some client =>
      have hclient' : calm.clients[index]? = some client := by
        rw [h.clients, hclient]
      have hjoint := hvalid.clients client (List.mem_of_getElem? hclient)
      simp only [outcome?, StandaloneSession.perform, spares, hclient, hclient', Option.map_some,
        Option.all_some] at hspared hsize ⊢
      obtain ⟨result, transaction, store', calm', hcommit, hcommit', hmirrors⟩ :=
        h.store.commitTransaction hspared hjoint.removes_ordered hversion hsize
      rw [hcommit, hcommit', h.clients]
      exact ⟨rfl, rfl, hmirrors⟩

theorem version_perform_le (hvalid : session.Valid) (event : StandaloneEvent)
    : (session.perform event).store.version ≤ session.store.version + 1 := by
  cases event with
  | commit index =>
    cases hclient : session.clients[index]? with
    | none =>
      simp only [StandaloneSession.perform, hclient]
      exact Nat.le_succ _
    | some client =>
      have hjoint := hvalid.clients client (List.mem_of_getElem? hclient)
      rcases hcommit : StandaloneStore.commitTransaction client.transaction session.store
        with ⟨result, transaction, after⟩
      simp only [StandaloneSession.perform, hclient, hcommit]
      cases (StandaloneStore.grows_commitTransaction hjoint hcommit).1 with
      | same h =>
        rw [StandaloneStore.version_of_inMemory h]
        exact Nat.le_succ _
      | advance writes _ h =>
        rw [StandaloneStore.version_of_inMemory h]
        exact Nat.le_refl _
  | _ => exact Nat.le_succ _

theorem Mirrors.run {calm : StandaloneSession} (h : session.Mirrors calm) (hvalid : session.Valid)
    {events : List StandaloneEvent}
    (hspared : ∀ k (hk : k < events.length), (session.run (events.take k)).spares events[k] = true)
    (hversion : session.store.version + events.length < 2 ^ 64)
    (hsize : ∀ k ≤ events.length, (session.run (events.take k)).store.map.encode.length < 2 ^ 64)
    : calm.outcomes events = session.outcomes events ∧ (session.run events).Mirrors (calm.run events) := by
  induction events generalizing session calm with
  | nil => exact ⟨rfl, h⟩
  | cons event rest ih =>
    rw [List.length_cons] at hversion
    have hfirst : session.spares event = true := hspared 0 (Nat.succ_pos _)
    have hmap : (session.perform event).store.map.encode.length < 2 ^ 64 :=
      hsize 1 (Nat.succ_le_succ (Nat.zero_le _))
    obtain ⟨houtcome, hmirrors⟩ := h.perform hvalid hfirst (by omega) hmap
    have hle := version_perform_le hvalid event
    obtain ⟨houtcomes, hrun⟩ := ih hmirrors (hvalid.perform event)
      (fun k hk => hspared (k + 1) (Nat.succ_lt_succ hk)) (by omega)
      (fun k hk => hsize (k + 1) (Nat.succ_le_succ hk))
    refine ⟨?_, hrun⟩
    unfold outcomes
    rw [houtcome, houtcomes]

/-- On a store opened from any directory, with any limit, and with steps that fail in nothing but the
replacement of files by compactions: all clients see what they would have seen without faults, the memory is
as it would have been, and what is closed opens, with any limit, as the map and the version that were in
memory. -/
theorem commits_durable {policy : SyncPolicy} {limit : Nat} {volume volume' : Volume}
    {store : StandaloneStore}
    (hvolume : volume.calmed.Sound) (hopen : StandaloneStore.open policy limit volume = .ok store volume')
    {events : List StandaloneEvent}
    (hspared : ∀ k (hk : k < events.length), (run { store } (events.take k)).spares events[k] = true)
    (hversion : store.version + events.length < 2 ^ 64)
    (hsize : ∀ k ≤ events.length, (run { store } (events.take k)).store.map.encode.length < 2 ^ 64)
    (policy' : SyncPolicy) (limit' : Nat)
    : outcomes { store } events = outcomes { store := store.calmed } events ∧
      (run { store } events).clients = (run { store := store.calmed } events).clients ∧
      (run { store } events).store.inMemory = (run { store := store.calmed } events).store.inMemory ∧
      ∃ directory reopened volume'', (run { store } events).store.calmed.close = some directory ∧
        StandaloneStore.open policy' limit' directory = .ok reopened volume'' ∧
        reopened.map = (run { store } events).store.map ∧
        reopened.version = (run { store } events).store.version := by
  have hbacked : store.Backed := StandaloneStore.backs_of_open hvolume hopen
  have hmirrors : Mirrors { store } { store := store.calmed } := ⟨rfl, hbacked.mirrors⟩
  obtain ⟨houtcomes, hrun⟩ := hmirrors.run (valid_run (.opened hopen) []) hspared hversion hsize
  exact ⟨houtcomes.symm, hrun.clients.symm, hrun.store.inMemory.symm, hrun.store.backed.reopens policy' limit'⟩

namespace Failing

-- Opening takes two steps, and so does each append. The first compaction replaces the snapshot and fails at
-- the log, the second stores one byte of the next snapshot, and the third succeeds.
def plan : List (Option Fault) :=
  [none, none, none, none, none, none, some {},
    none, none, none, some { stored := 1 },
    none, none, none, none, none, none, none, none, none, none, none]

def volume : Volume :=
  { plan := none :: none :: plan }

def store : StandaloneStore :=
  { journal := some (.fresh .always plan), journalLimit := 1 }

def events : List StandaloneEvent :=
  [.begin, .operate 0 (.put [1] [10]), .commit 0, .begin, .operate 1 (.put [2] [20]), .commit 1,
    .begin, .operate 2 (.remove [1]), .commit 2]

end Failing

theorem commits_durable_failing
    : ∃ directory reopened volume,
        (run { store := Failing.store } Failing.events).store.calmed.close = some directory ∧
        StandaloneStore.open .never 5 directory = .ok reopened volume ∧
        outcomes { store := Failing.store } Failing.events = [.ok (), .ok (), .ok ()] ∧
        reopened.map.pairs = [([2], [20])] ∧ reopened.version = 3 := by
  have hsound : Failing.volume.calmed.Sound := Volume.sound_empty
  have hopen : ∃ volume', StandaloneStore.open .always 1 Failing.volume = .ok Failing.store volume' :=
    ⟨_, rfl⟩
  obtain ⟨volume', hopen⟩ := hopen
  have hspared : ∀ k (hk : k < Failing.events.length),
      (run { store := Failing.store } (Failing.events.take k)).spares Failing.events[k] = true := by
    decide +kernel
  have hsize : ∀ k ≤ Failing.events.length,
      (run { store := Failing.store } (Failing.events.take k)).store.map.encode.length < 2 ^ 64 := by
    decide +kernel
  have houtcomes : outcomes { store := Failing.store } Failing.events = [.ok (), .ok (), .ok ()] := by
    decide +kernel
  obtain ⟨-, -, -, directory, reopened, volume'', hclose, hreopen, hmap, hversion⟩ :=
    commits_durable hsound hopen hspared (by decide) hsize .never 5
  refine ⟨directory, reopened, volume'', hclose, hreopen, houtcomes, ?_, ?_⟩
  . rw [hmap]
    decide +kernel
  . rw [hversion]
    decide +kernel

end StandaloneSession

end ReplicatedStore
