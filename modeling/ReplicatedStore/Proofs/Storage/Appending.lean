import ReplicatedStore.Proofs.Storage.Interruption

/-!
An append that fails. The entries before the one at which it stopped are not taken back: they stay in memory,
and are there when the log is closed and opened again.
-/

namespace ReplicatedStore

theorem take_succ_congr {α : Type} {items : List α} {m n : Nat} (h : items.take m = items.take n)
    : items.take (m + 1) = items.take (n + 1) := by
  have hlength := congrArg List.length h
  rw [List.length_take, List.length_take] at hlength
  by_cases heq : m = n
  . rw [heq]
  . rw [List.take_of_length_le (by omega), List.take_of_length_le (by omega)]

namespace LogStore

structure Recalls (log log' : LogStore) : Prop where
  entries : log'.entries = log.entries
  snapshotIndex : log'.snapshotIndex = log.snapshotIndex
  snapshotTerm : log'.snapshotTerm = log.snapshotTerm

structure TakesIn (log log' : LogStore) (added : List LogEntry) (n : Nat) : Prop where
  le : n ≤ added.length
  entries : log'.entries = log.entries ++ added.take n
  snapshotIndex : log'.snapshotIndex = log.snapshotIndex
  snapshotTerm : log'.snapshotTerm = log.snapshotTerm
  admits : log.Admits (added.take n)

structure Returns (log : LogStore) (policy : SyncPolicy) (reopened : LogStore) : Prop where
  opened : LogStore.open policy log.close.calmed = .ok reopened reopened.disk
  snapshotIndex : reopened.snapshotIndex = log.snapshotIndex
  snapshotTerm : reopened.snapshotTerm = log.snapshotTerm
  part : reopened.entries <+: log.entries
  whole : log.disk.plan = [] → log.Alike reopened

variable {log log' log'' : LogStore} {entry : LogEntry} {added records : List LogEntry} {durable : Bytes}
  {snapshot : Option Snapshot} {n : Nat}

theorem Recalls.refl (log : LogStore) : log.Recalls log :=
  ⟨rfl, rfl, rfl⟩

theorem Recalls.trans (h : log.Recalls log') (h' : log'.Recalls log'') : log.Recalls log'' where
  entries := h'.entries.trans h.entries
  snapshotIndex := h'.snapshotIndex.trans h.snapshotIndex
  snapshotTerm := h'.snapshotTerm.trans h.snapshotTerm

theorem Recalls.withWriter (h : log.Recalls log') (writer : LogWriter) : log.Recalls { log' with writer } :=
  ⟨h.entries, h.snapshotIndex, h.snapshotTerm⟩

theorem recalls_onDisk {α : Type} (step : Disk α)
    : EStateM.Ends (log.Recalls ·) (fun _ _ => True) (onDisk step log) := by
  unfold onDisk
  cases step log.disk with
  | ok a disk => exact ⟨⟨rfl, rfl, rfl⟩, trivial⟩
  | error e disk => exact ⟨rfl, rfl, rfl⟩

theorem Recalls.ends {α : Type} {x : LogM α} (h : log.Recalls log')
    (hx : EStateM.Ends (log'.Recalls ·) (fun _ _ => True) (x log'))
    : EStateM.Ends (log.Recalls ·) (fun _ _ => True) (x log') :=
  hx.imp (fun _ => h.trans) fun _ _ _ => id

theorem recalls_flush (log : LogStore) : EStateM.Ends (log.Recalls ·) (fun _ _ => True) (flush log) := by
  unfold flush
  rw [EStateM.bind_get]
  dsimp only
  split
  . exact ⟨.refl log, trivial⟩
  . apply (recalls_onDisk _).bind
    rintro ⟨stored, fault⟩ log₁ hrecalls -
    rw [EStateM.bind_modify]
    cases fault with
    | none => exact ⟨hrecalls.withWriter _, trivial⟩
    | some e => exact hrecalls.withWriter _

theorem recalls_put (log : LogStore) (record : Bytes)
    : EStateM.Ends (log.Recalls ·) (fun _ _ => True) (put record log) := by
  unfold put
  rw [EStateM.bind_get]
  dsimp only
  split
  . apply (recalls_onDisk _).bind
    rintro ⟨stored, fault⟩ log₁ hrecalls -
    cases fault with
    | none => exact ⟨hrecalls, trivial⟩
    | some e => exact hrecalls
  . exact ⟨(Recalls.refl log).withWriter _, trivial⟩

theorem recalls_write (log : LogStore) (record : Bytes)
    : EStateM.Ends (log.Recalls ·) (fun _ _ => True) (write record log) := by
  rw [write_eq]
  split
  . apply (recalls_flush log).bind
    intro _ log₁ hrecalls _
    exact hrecalls.ends (recalls_put log₁ record)
  . exact recalls_put log record

theorem recalls_settle (log : LogStore)
    : EStateM.Ends (log.Recalls ·) (fun _ _ => True) (settle log) := by
  rw [settle_eq]
  cases log.policy with
  | always =>
    unfold sync
    apply (recalls_flush log).bind
    intro _ log₁ hrecalls _
    rw [EStateM.bind_get]
    exact hrecalls.ends (recalls_onDisk _)
  | interval => exact recalls_flush log
  | never => exact ⟨.refl log, trivial⟩

theorem Recalls.takesIn (h : log.Recalls log') : log.TakesIn log' added 0 where
  le := Nat.zero_le _
  entries := by
    rw [h.entries, List.take_zero, List.append_nil]
  snapshotIndex := h.snapshotIndex
  snapshotTerm := h.snapshotTerm
  admits := ⟨trivial, fun _ he => nomatch he⟩

theorem TakesIn.recalls (h : log.TakesIn log' added n) (h' : log'.Recalls log'')
    : log.TakesIn log'' added n where
  le := h.le
  entries := h'.entries.trans h.entries
  snapshotIndex := h'.snapshotIndex.trans h.snapshotIndex
  snapshotTerm := h'.snapshotTerm.trans h.snapshotTerm
  admits := h.admits

theorem TakesIn.cons (h : log.TakesIn log' [entry] 1) (h' : log'.TakesIn log'' added n)
    : log.TakesIn log'' (entry :: added) (n + 1) where
  le := Nat.succ_le_succ h'.le
  entries := by
    rw [h'.entries, h.entries, List.append_assoc]
    rfl
  snapshotIndex := h'.snapshotIndex.trans h.snapshotIndex
  snapshotTerm := h'.snapshotTerm.trans h.snapshotTerm
  admits := by
    have hindex : entry.index = log.lastIndex + 1 := h.admits.follows.1
    have hlast : log'.lastIndex = log.lastIndex + 1 := by
      unfold lastIndex at hindex ⊢
      rw [h.entries, List.take_succ_cons, List.take_zero, List.getLast?_concat, Option.map_some,
        Option.getD_some, hindex]
    have hfollows := h'.admits.follows
    rw [hlast] at hfollows
    refine ⟨⟨hindex, hfollows⟩, ?_⟩
    intro e he
    rcases List.mem_cons.1 he with rfl | he
    . exact h.admits.short _ (List.mem_singleton_self _)
    . exact h'.admits.short e he

theorem TakesIn.alike_iff (h : log.TakesIn log' added n) : log.Alike log' ↔ n = 0 := by
  constructor
  . intro halike
    have hentries := halike.entries
    have hle := h.le
    rw [h.entries, List.append_right_eq_self, List.take_eq_nil_iff] at hentries
    rcases hentries with hzero | hnil
    . exact hzero
    . rw [hnil] at hle
      exact Nat.le_zero.1 hle
  . rintro rfl
    refine alike_of_eq ?_ h.snapshotIndex h.snapshotTerm
    rw [h.entries, List.take_zero, List.append_nil]

theorem takesIn_appendOne (log : LogStore) (entry : LogEntry)
    : EStateM.Yields (fun _ log' => log.TakesIn log' [entry] 1) (fun log' => log.Recalls log')
        (appendOne entry log) := by
  unfold appendOne
  rw [EStateM.bind_get]
  dsimp only
  split
  . exact .refl log
  . next hindex =>
    split
    . exact .refl log
    . next hcommand =>
      have hwrite := recalls_write log (LogRecord.encode entry)
      cases hr : write (LogRecord.encode entry) log with
      | ok _ log₁ =>
        rw [hr] at hwrite
        rw [EStateM.bind_of_ok hr]
        refine ⟨Nat.le_refl _, ?_, hwrite.1.snapshotIndex, hwrite.1.snapshotTerm, ?_, ?_⟩
        . exact congrArg (· ++ [entry]) hwrite.1.entries
        . exact ⟨Decidable.not_not.1 hindex, trivial⟩
        . intro e he
          rw [List.mem_singleton.1 he]
          exact Nat.not_lt.1 hcommand
      | error e log₁ =>
        rw [hr] at hwrite
        rw [EStateM.bind_of_error hr]
        exact hwrite

theorem takesIn_appendAll (log : LogStore) (added : List LogEntry)
    : EStateM.Yields (fun _ log' => log.TakesIn log' added added.length)
        (fun log' => ∃ n, log.TakesIn log' added n) (added.forM appendOne log) := by
  induction added generalizing log with
  | nil => exact (Recalls.refl log).takesIn
  | cons entry rest ih =>
    unfold List.forM
    apply (takesIn_appendOne log entry).bind
    . exact fun _ hrecalls => ⟨0, hrecalls.takesIn⟩
    rintro _ log₁ htakes
    apply (ih log₁).imp
    . exact fun _ _ htakes' => htakes.cons htakes'
    . rintro _ ⟨n, htakes'⟩
      exact ⟨n + 1, htakes.cons htakes'⟩

theorem takesIn_append (log : LogStore) (added : List LogEntry)
    : EStateM.Yields (fun _ log' => log.TakesIn log' added added.length)
        (fun log' => ∃ n, log.TakesIn log' added n) (append added log) := by
  unfold append
  split
  . next hempty =>
    rw [List.isEmpty_iff.1 hempty]
    exact (Recalls.refl log).takesIn
  . apply (takesIn_appendAll log added).bind
    . exact fun _ h => h
    rintro _ log₁ htakes
    have hsettle := recalls_settle log₁
    cases hr : settle log₁ with
    | ok _ log' =>
      rw [hr] at hsettle
      exact htakes.recalls hsettle.1
    | error e log' =>
      rw [hr] at hsettle
      exact ⟨_, htakes.recalls hsettle⟩

theorem Frayed.returns (h : log.Frayed records durable) (hd : log.Describes records) (hk : log.Knows snapshot)
    (policy : SyncPolicy)
    : ∃ reopened, log.Returns policy reopened := by
  obtain ⟨torn, hcarries, htorn, hends⟩ := h
  obtain ⟨flushed, hclose, hspools, hflushed, hempty⟩ := hcarries.close
  have hfrayed : flushed.Frayed records durable :=
    ⟨torn, hflushed, htorn, hends.imp_right fun hbuffer => hempty (.inr hbuffer)⟩
  have hdescribes := hspools.describes hd
  have hknows := hspools.keeps.knows hk
  have hentries : flushed.entries = log.entries := by
    rw [hspools.memory]
  obtain ⟨reopened, held, hopens, hheld, hwhole⟩ := hfrayed.reopen hdescribes hflushed.sound rfl
    (readSnapshot_congr hknows.reads rfl) (Nat.le_of_eq hknows.snapshotIndex) policy
  rw [← hknows.snapshotIndex, hdescribes.filter_self hheld] at hopens
  have hindex : reopened.snapshotIndex = log.snapshotIndex := hopens.snapshotIndex.trans hk.snapshotIndex.symm
  have hterm : reopened.snapshotTerm = log.snapshotTerm := hopens.snapshotTerm.trans hk.snapshotTerm.symm
  refine ⟨reopened, ?_, hindex, hterm, ?_, fun hcalm => alike_of_eq ?_ hindex hterm⟩
  . rw [hclose]
    exact hopens.opened
  . rw [hopens.entries, ← hentries]
    exact hheld
  . rw [hopens.entries, hwhole (hempty (.inl hcalm)), hentries]

end LogStore

/-- An append that fails has taken in the entries up to where it stopped. They answer from then on, and come
back when the log is closed and opened again, so that it is as if nothing had been appended only if the first
entry was not taken in. Without a fault, the append stops at an entry that the log does not admit. -/
theorem append_cut_short {v v' : Volume} {policy₀ : SyncPolicy} {log₀ log' : LogStore} (hv : v.calmed.Sound)
    (hopen : LogStore.open policy₀ v = .ok log₀ v') {calls : List LogCall}
    (hrange : ∀ call ∈ calls, call.InRange) {added : List LogEntry} (hadded : ∀ e ∈ added, e.InRange)
    {e : Error} (hfails : LogStore.append added (log₀.run calls) = .error e log')
    : ∃ n, (log₀.run calls).TakesIn log' added n ∧ ((log₀.run calls).Alike log' ↔ n = 0) ∧
        ((∀ k ≤ calls.length, (log₀.run (calls.take k)).InStep) →
          ((log₀.run calls).disk.plan = [] → ¬ (log₀.run calls).Admits (added.take (n + 1))) ∧
            ∀ policy, ∃ reopened, log'.Returns policy reopened) := by
  have htakes := LogStore.takesIn_append (log₀.run calls) added
  rw [hfails] at htakes
  obtain ⟨n, htakes⟩ := htakes
  refine ⟨n, htakes, htakes.alike_iff, fun hstep => ?_⟩
  obtain ⟨_, records₀, _, -, -, -, hopens⟩ := LogStore.opens_of_ok hv hopen
  obtain ⟨durable₀, hcoherent₀, -⟩ := hopens.coherent
  obtain ⟨records, durable, hcoherent⟩ := hcoherent₀.run hrange (Nat.le_refl _) hstep
  have hlast := hstep calls.length (Nat.le_refl _)
  rw [List.take_length] at hcoherent hlast
  obtain ⟨snapshot, hknows⟩ := hlast.knows
  have hyields := LogStore.yields_appendEntries hcoherent hadded
  rw [hfails] at hyields
  obtain ⟨m, hextends, hstands, hfrayed, hrefuses⟩ := hyields
  have hsame : added.take n = added.take m :=
    List.append_cancel_left (htakes.entries.symm.trans hextends.entries)
  rw [take_succ_congr hsame]
  exact ⟨hrefuses, fun policy => hfrayed.returns hstands.toDescribes (hextends.toKeeps.knows hknows) policy⟩

namespace Gap

def log : LogStore :=
  .fresh .never []

def calls : List LogCall :=
  [.append [⟨1, 1, [1]⟩]]

-- The third of the entries does not follow the second.
def added : List LogEntry :=
  [⟨1, 2, [2]⟩, ⟨1, 3, [3]⟩, ⟨1, 5, []⟩]

end Gap

theorem append_cut_short_gap
    : ∃ e log', LogStore.append Gap.added (Gap.log.run Gap.calls) = .error e log' ∧
        ∃ n, (Gap.log.run Gap.calls).TakesIn log' Gap.added n ∧
          ¬ (Gap.log.run Gap.calls).Admits (Gap.added.take (n + 1)) ∧
          ∀ policy, ∃ reopened, log'.Returns policy reopened := by
  have hfailed : (EStateM.failed? (LogStore.append Gap.added (Gap.log.run Gap.calls))).isSome := by
    decide +kernel
  obtain ⟨log', hfailed⟩ := Option.isSome_iff_exists.1 hfailed
  obtain ⟨e, herror⟩ := EStateM.eq_error_of_failed? hfailed
  have hrange : ∀ call ∈ Gap.calls, call.InRange := by
    decide
  have hadded : ∀ e ∈ Gap.added, e.InRange := by
    decide
  have hstep : ∀ k ≤ Gap.calls.length, (Gap.log.run (Gap.calls.take k)).InStep := by
    decide +kernel
  have hcalm : (Gap.log.run Gap.calls).disk.plan = [] := by
    decide +kernel
  have hsound : (Volume.calmed {}).Sound := Volume.sound_empty
  obtain ⟨n, htakes, -, hrecovered⟩ :=
    append_cut_short hsound (LogStore.open_empty .never) hrange hadded herror
  obtain ⟨hrefused, hreturns⟩ := hrecovered hstep
  exact ⟨e, log', herror, n, htakes, hrefused hcalm, hreturns⟩

theorem append_not_undone
    : ∃ e log' reopened v' v'',
        LogStore.append [⟨1, 1, [1]⟩, ⟨1, 3, [3]⟩] (LogStore.fresh .always []) = .error e log' ∧
        (LogStore.fresh .always []).lastIndex = 0 ∧ (LogStore.fresh .always []).get? 1 = none ∧
        log'.lastIndex = 1 ∧ log'.get? 1 = some ⟨1, 1, [1]⟩ ∧
        LogStore.open .always (LogStore.fresh .always []).close = .ok (LogStore.fresh .always []) v' ∧
        LogStore.open .always log'.close = .ok reopened v'' ∧ reopened.entries = [⟨1, 1, [1]⟩] := by
  have hbefore : EStateM.value? (LogStore.open .always (LogStore.fresh .always []).close)
      = some (LogStore.fresh .always []) := by
    decide +kernel
  have hafter : (EStateM.failed?
      (LogStore.append [⟨1, 1, [1]⟩, ⟨1, 3, [3]⟩] (LogStore.fresh .always []))).bind
      (fun log' => (EStateM.value? (LogStore.open .always log'.close)).map fun reopened =>
        (log'.lastIndex, log'.get? 1, reopened.entries))
        = some (1, some ⟨1, 1, [1]⟩, [⟨1, 1, [1]⟩]) := by
    decide +kernel
  obtain ⟨log', hfailed, hopened⟩ := Option.bind_eq_some_iff.1 hafter
  obtain ⟨reopened, hvalue, hlog⟩ := Option.map_eq_some_iff.1 hopened
  obtain ⟨e, herror⟩ := EStateM.eq_error_of_failed? hfailed
  obtain ⟨v', hopen⟩ := EStateM.eq_ok_of_value? hbefore
  obtain ⟨v'', hreopen⟩ := EStateM.eq_ok_of_value? hvalue
  obtain ⟨hlast, hlog⟩ := Prod.mk.inj hlog
  obtain ⟨hget, hentries⟩ := Prod.mk.inj hlog
  exact ⟨e, log', reopened, v', v'', herror, rfl, rfl, hlast, hget, hopen, hreopen, hentries⟩

end ReplicatedStore
