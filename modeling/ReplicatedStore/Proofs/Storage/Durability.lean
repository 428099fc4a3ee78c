import ReplicatedStore.Proofs.Storage.Mishaps

/-!
What is left of a log after a loss of power, when calls may have failed before: with the policy `always`,
what an append acknowledged is recovered, as long as no failed call leaves the log out of step with its
files.
-/

namespace ReplicatedStore

namespace LogStore

structure Secures (v : Volume) (base : Nat) (kept : List LogEntry) : Prop where
  sound : v.calmed.Sound
  settled : ∃ content, v.Holds snapshotName content
  snapshot : ∃ snapshot, readSnapshot v = .ok snapshot v ∧ (snapshot.map (·.index)).getD 0 = base
  log : ∃ id content records pairs,
    v.find? logName = some (.file ⟨id, content, records.flatMap LogRecord.encode⟩) ∧
      (∀ e ∈ records, e.Fits) ∧ Selects base 0 (LogRecord.layout 0 records) pairs ∧ pairs.map (·.2) = kept

/-- A loss of power would leave this entry, or a snapshot that covers it. -/
def Lasts (v : Volume) (e : LogEntry) : Prop :=
  ∃ base kept, Secures v base kept ∧ (e ∈ kept ∨ e.index ≤ base)

variable {v : Volume} {log log' : LogStore} {records : List LogEntry} {bytes bytes' durable : Bytes}
  {snapshot : Option Snapshot} {base index term : Nat} {data : Bytes} {kept : List LogEntry} {e : LogEntry}

theorem readSnapshot_crash (hsettled : ∃ content, v.Holds snapshotName content)
    (hread : readSnapshot v = .ok snapshot v)
    : readSnapshot v.crash.calmed = .ok snapshot v.crash.calmed := by
  apply readSnapshot_congr hread
  obtain ⟨content, hholds⟩ := hsettled
  have hcrash := hholds.crash
  cases content with
  | none => exact hcrash.trans hholds.symm
  | some bytes =>
    obtain ⟨id, hid⟩ := hholds
    have hfile := Volume.crash_eq v snapshotName
    rw [hid] at hfile
    exact hfile.trans hid.symm

theorem Secures.recover (h : Secures v base kept) (policy : SyncPolicy)
    : ∃ log, LogStore.open policy v.crash.calmed = .ok log log.disk ∧ log.entries = kept ∧
        log.snapshotIndex = base ∧ Follows base kept := by
  obtain ⟨snapshot, hread, hindex⟩ := h.snapshot
  obtain ⟨id, content, records, pairs, hfile, hfit, hselects, hkept⟩ := h.log
  have hcrashed : v.crash.calmed.find? logName
      = some (.file ⟨id, records.flatMap LogRecord.encode, records.flatMap LogRecord.encode⟩) := by
    have hcrash := Volume.crash_eq v logName
    rw [hfile] at hcrash
    exact hcrash
  have hcontent : (v.crash.calmed.content? logName).getD [] = records.flatMap LogRecord.encode ++ [] := by
    rw [content?_of_file hcrashed, List.append_nil]
    rfl
  have hsound : v.crash.calmed.Sound := h.sound.crash
  rw [← hindex] at hselects
  obtain ⟨log, hopen, hopens, hentries⟩ := open_of_selects hsound
    (readSnapshot_crash h.settled hread) hcontent hfit rfl policy hselects
  refine ⟨log, hopen, hentries.trans hkept, hopens.snapshotIndex.trans hindex, ?_⟩
  have hfollows := hselects.follows
  rwa [hkept, hindex] at hfollows

theorem get?_of_mem (hfollows : Follows log.snapshotIndex log.entries) (he : e ∈ log.entries)
    : log.get? e.index = some e := by
  obtain ⟨k, hk, rfl⟩ := List.mem_iff_getElem.1 he
  have hindex := hfollows.index_eq hk
  unfold get? position
  rw [if_neg (by omega), hindex, show log.snapshotIndex + k + 1 - log.snapshotIndex - 1 = k by omega]
  exact List.getElem?_eq_getElem hk

theorem Lasts.recover (h : Lasts v e) (policy : SyncPolicy)
    : ∃ log snapshot, LogStore.open policy v.crash.calmed = .ok log log.disk ∧
        readSnapshot v = .ok snapshot v ∧ log.snapshotIndex = (snapshot.map (·.index)).getD 0 ∧
        (log.get? e.index = some e ∨ e.index ≤ log.snapshotIndex) := by
  obtain ⟨base, kept, hsecures, hlasts⟩ := h
  obtain ⟨log, hopen, hentries, hindex, hfollows⟩ := hsecures.recover policy
  obtain ⟨snapshot, hread, hbase⟩ := hsecures.snapshot
  refine ⟨log, snapshot, hopen, hread, hindex.trans hbase.symm, ?_⟩
  rcases hlasts with he | hle
  . left
    apply get?_of_mem
    . rw [hentries, hindex]
      exact hfollows
    . rw [hentries]
      exact he
  . right
    rw [hindex]
    exact hle

theorem Lasts.recover_entry (h : Lasts log.disk e) (hk : log.Knows snapshot)
    (hfollows : Follows log.snapshotIndex log.entries) (he : e ∈ log.entries) (policy : SyncPolicy)
    : ∃ log', LogStore.open policy log.disk.crash.calmed = .ok log' log'.disk ∧
        log'.get? e.index = some e := by
  obtain ⟨log', snapshot', hopen, hread, hindex, hget | hle⟩ := h.recover policy
  . exact ⟨log', hopen, hget⟩
  . exfalso
    rw [hk.reads] at hread
    cases hread
    rw [hindex, ← hk.snapshotIndex] at hle
    exact Nat.not_lt.2 hle (hfollows.lt_of_mem he)

theorem Secures.of_carries (h : Secures log.disk base kept) (hc : log.Carries bytes durable)
    (hc' : log'.Carries bytes' durable)
    (hsnapshot : log'.disk.find? snapshotName = log.disk.find? snapshotName)
    : Secures log'.disk base kept := by
  obtain ⟨content, hholds⟩ := h.settled
  obtain ⟨snapshot, hread, hindex⟩ := h.snapshot
  obtain ⟨id, written, records, pairs, hfile, hfit, hselects, hkept⟩ := h.log
  obtain ⟨written₁, hfile₁, -⟩ := hc.file
  obtain ⟨written₂, hfile₂, -⟩ := hc'.file
  rw [hfile₁] at hfile
  cases hfile
  exact ⟨hc'.sound, ⟨content, hholds.of_eq hsnapshot⟩,
    ⟨snapshot, readSnapshot_congr hread hsnapshot, hindex⟩,
    _, written₂, records, pairs, hfile₂, hfit, hselects, hkept⟩

theorem Coherent.secures (h : log.Coherent records (records.flatMap LogRecord.encode))
    (hsettled : ∃ content, log.disk.Holds snapshotName content) (hk : log.Knows snapshot)
    : Secures log.disk log.snapshotIndex log.entries := by
  obtain ⟨written, hfile, -⟩ := h.carries.file
  exact ⟨h.carries.sound, hsettled, ⟨snapshot, hk.reads, hk.snapshotIndex.symm⟩,
    _, written, records, _, hfile, h.fit, h.selects, h.map_snd⟩

inductive Turns (log log' : LogStore) : Prop where
  | carried (entries : log'.entries = log.entries) (lasts : ∀ e, Lasts log.disk e → Lasts log'.disk e)
  | forced (lasts : ∀ e ∈ log'.entries, Lasts log'.disk e)

theorem Turns.lasts (h : log.Turns log') (he : Lasts log.disk e) (hmem : e ∈ log'.entries)
    : Lasts log'.disk e := by
  cases h with
  | carried _ lasts => exact lasts e he
  | forced lasts => exact lasts e hmem

theorem Turns.trans {log'' : LogStore} (h : log.Turns log') (h' : log'.Turns log'') : log.Turns log'' := by
  cases h' with
  | forced lasts => exact .forced lasts
  | carried entries' lasts' =>
    cases h with
    | carried entries lasts => exact .carried (entries'.trans entries) fun e he => lasts' e (lasts e he)
    | forced lasts =>
      refine .forced fun e he => lasts' e (lasts e ?_)
      rwa [← entries']

theorem Lasts.of_carries (h : Lasts log.disk e) (hc : log.Carries bytes durable)
    (hc' : log'.Carries bytes' durable)
    (hsnapshot : log'.disk.find? snapshotName = log.disk.find? snapshotName)
    : Lasts log'.disk e := by
  obtain ⟨base, kept, hsecures, he⟩ := h
  exact ⟨base, kept, hsecures.of_carries hc hc' hsnapshot, he⟩

theorem Coherent.lasts (h : log.Coherent records (records.flatMap LogRecord.encode))
    (hsettled : ∃ content, log.disk.Holds snapshotName content) (hk : log.Knows snapshot)
    (he : e ∈ log.entries)
    : Lasts log.disk e :=
  ⟨_, _, h.secures hsettled hk, .inl he⟩

theorem Stands.carries_durable {plan : List (Option Fault)} (h : log.Stands records durable plan)
    : ∃ bytes, log.Carries bytes durable := by
  rcases h.carries with hcarries | ⟨-, bytes, hcarries, -⟩
  . exact ⟨_, hcarries⟩
  . exact ⟨bytes, hcarries⟩

theorem yields_append_lasts {added : List LogEntry} (h : log.Coherent records durable)
    (hsettled : ∃ content, log.disk.Holds snapshotName content) (hk : log.Knows snapshot)
    (halways : log.policy = .always) (hrange : ∀ e ∈ added, e.InRange)
    : EStateM.Yields
        (fun _ log' => added = [] ∧ log' = log ∨ ∀ e ∈ log'.entries, Lasts log'.disk e)
        (fun log' => ∀ e, Lasts log.disk e → Lasts log'.disk e) (append added log) := by
  apply (yields_appendEntries h hrange).imp
  . rintro _ log' ⟨hextends, hnil, durable', hcoherent, hforced⟩
    by_cases hempty : added = []
    . exact .inl ⟨hempty, hnil hempty⟩
    . rw [hforced halways hempty] at hcoherent
      obtain ⟨content, hholds⟩ := hsettled
      exact .inr fun e he => hcoherent.lasts ⟨content, hholds.of_eq hextends.snapshot⟩
        (hextends.toKeeps.knows hk) he
  . rintro log' ⟨n, hextends, hstands, -⟩ e he
    obtain ⟨bytes, hcarries⟩ := hstands.carries_durable
    exact he.of_carries h.carries hcarries hextends.snapshot

theorem Discards.turns (h : log.Discards log' index records durable)
    (hcoherent : log.Coherent records durable) (hsettled : ∃ content, log.disk.Holds snapshotName content) (hk : log.Knows snapshot)
    : log.Turns log' := by
  rcases h.outcome with ⟨hentries, hstands⟩ | ⟨-, n, hcut⟩
  . obtain ⟨bytes, hcarries⟩ := hstands.carries_durable
    exact .carried hentries fun e he => he.of_carries hcoherent.carries hcarries h.snapshot
  . obtain ⟨content, hholds⟩ := hsettled
    exact .forced fun e he => hcut.lasts ⟨content, hholds.of_eq h.snapshot⟩ (h.toKeeps.knows hk) he

theorem Installs.turns (h : log.Installs log' index term data records durable)
    (hcoherent : log.Coherent records durable) (hk : log.Knows snapshot)
    (hfits : Snapshot.Fits ⟨index, term, data⟩)
    (hdata : log'.disk.Holds snapshotName (some (Snapshot.encode ⟨index, term, data⟩)) →
      data.length < 2 ^ 64)
    : log.Turns log' := by
  cases h with
  | before keeps entries buffer coherent =>
    exact .carried entries fun e he => he.of_carries hcoherent.carries coherent.carries keeps.snapshot
  | between le plan faulty policy snapshotIndex entries buffer coherent hsnapshot =>
    have hread : readSnapshot log'.disk = .ok (some ⟨index, term, data⟩) log'.disk := by
      rw [readSnapshot_encode hfits hsnapshot, if_pos (hdata hsnapshot)]
    refine .carried entries ?_
    rintro e ⟨base, kept, hsecures, he⟩
    obtain ⟨snapshot', hread', hbase⟩ := hsecures.snapshot
    rw [hk.reads] at hread'
    cases hread'
    rw [← hk.snapshotIndex] at hbase
    subst hbase
    obtain ⟨id, content, records', pairs, hfile, hfit, hselects, hkept⟩ := hsecures.log
    obtain ⟨written₁, hfile₁, -⟩ := hcoherent.carries.file
    obtain ⟨written₂, hfile₂, -⟩ := coherent.carries.file
    rw [hfile₁] at hfile
    cases hfile
    -- the old log under the new snapshot: what the snapshot covers is passed over
    have hraised := hselects.raise le
    rw [show log.snapshotIndex + 0 - index = 0 by omega] at hraised
    refine ⟨index, _, ⟨coherent.carries.sound, ⟨_, hsnapshot⟩, ⟨_, hread, rfl⟩,
      _, written₂, records', _, hfile₂, hfit, hraised, rfl⟩, ?_⟩
    rcases he with he | hle
    . by_cases hlt : index < e.index
      . left
        rw [← hkept] at he
        obtain ⟨r, hr, rfl⟩ := List.mem_map.1 he
        exact List.mem_map_of_mem (List.mem_filter.2 ⟨hr, by simpa using hlt⟩)
      . exact .inr (Nat.not_lt.1 hlt)
    . exact .inr (Nat.le_trans hle le)
  | after le plan policy snapshotIndex snapshotTerm entries describes sound file writer hsnapshot =>
    have hread : readSnapshot log'.disk = .ok (some ⟨index, term, data⟩) log'.disk := by
      rw [readSnapshot_encode hfits hsnapshot, if_pos (hdata hsnapshot)]
    obtain ⟨id, hfile⟩ := file
    have hselects := describes.selects
    rw [snapshotIndex] at hselects
    refine .forced fun e he => ⟨index, log'.entries, ⟨sound, ⟨_, hsnapshot⟩, ⟨_, hread, rfl⟩,
      id, _, _, _, hfile, describes.fit, hselects, describes.map_snd⟩, .inl he⟩

structure Standing (log : LogStore) : Prop where
  coherent : ∃ records durable, log.Coherent records durable
  settled : ∃ content, log.disk.Holds snapshotName content
  always : log.policy = .always

theorem Passes.standing (h : log.Passes log') (hs : log.Standing) (haligned : log'.Aligned)
    : log'.Standing where
  coherent := h.coherent (.inr haligned)
  settled := h.settled hs.settled
  always := h.policy.trans hs.always

theorem Standing.after (h : log.Standing) {call : LogCall} (hrange : call.InRange)
    (haligned : (log.after call).Aligned)
    : (log.after call).Standing := by
  obtain ⟨records, durable, hcoherent⟩ := h.coherent
  exact (hcoherent.passes hrange).standing h haligned

theorem Standing.run (h : log.Standing) {calls : List LogCall} (hrange : ∀ call ∈ calls, call.InRange)
    {k : Nat} (hk : k ≤ calls.length) (hstep : ∀ j ≤ k, (log.run (calls.take j)).InStep)
    : (log.run (calls.take k)).Standing :=
  run_induction h (fun _ h call hcall hin => h.after (hrange call hcall) hin.aligned) hk hstep

theorem Standing.lasts (h : log.Standing) (hk : log.Knows snapshot) {call : LogCall} (hrange : call.InRange)
    (he : Lasts log.disk e) (hmem : e ∈ (log.after call).entries)
    : Lasts (log.after call).disk e := by
  obtain ⟨records, durable, hcoherent⟩ := h.coherent
  refine after_of_yields (P := fun log' => e ∈ log'.entries → Lasts log'.disk e) ?_ hmem
  cases call with
  | append entries =>
    apply (yields_append_lasts hcoherent h.settled hk h.always hrange).imp
    . rintro _ log' (⟨-, rfl⟩ | hlasts) hmem
      . exact he
      . exact hlasts e hmem
    . exact fun log' hlasts _ => hlasts e he
  | discardFrom index =>
    have hdiscards : ∀ log', log.Discards log' index records durable → e ∈ log'.entries →
        Lasts log'.disk e :=
      fun log' hdiscards hmem => (hdiscards.turns hcoherent h.settled hk).lasts he hmem
    exact (yields_discardFrom hcoherent index).imp (fun _ log' h => hdiscards log' h.1)
      fun log' h => hdiscards log' h.1
  | putSnapshot index term data =>
    have hinstalls : ∀ log', log.Installs log' index term data records durable → e ∈ log'.entries →
        Lasts log'.disk e :=
      fun log' hinstalls hmem => (hinstalls.turns hcoherent hk hrange.1 fun _ => hrange.2).lasts he hmem
    exact (yields_putSnapshot hcoherent index term data).imp (fun _ log' h => hinstalls log' h.1)
      fun log' h => hinstalls log' h.1
  | sync =>
    apply (yields_force hcoherent.carries).imp
    . rintro _ log' ⟨hspools, hcarries⟩ hmem
      obtain ⟨content, hholds⟩ := h.settled
      have hcoherent' : log'.Coherent records (records.flatMap LogRecord.encode) :=
        { hspools.describes hcoherent.toDescribes with carries := hcarries }
      exact hcoherent'.lasts ⟨content, hholds.of_eq hspools.snapshot⟩ (hspools.keeps.knows hk) hmem
    . rintro log' ⟨hspools, hcarries, -⟩ _
      exact he.of_carries hcoherent.carries hcarries hspools.snapshot

theorem Standing.append_lasts (h : log.Standing) (hk : log.Knows snapshot) {entries : List LogEntry}
    (hrange : ∀ e ∈ entries, e.InRange) (hok : append entries log = .ok () log') (he : e ∈ entries)
    (hmem : e ∈ log'.entries)
    : Lasts log'.disk e := by
  obtain ⟨records, durable, hcoherent⟩ := h.coherent
  have happend := yields_append_lasts hcoherent h.settled hk h.always hrange
  rw [hok] at happend
  rcases happend with ⟨rfl, -⟩ | hforced
  . cases he
  . exact hforced e hmem

theorem Standing.run_lasts (h : log.Standing) {calls : List LogCall} (hrange : ∀ call ∈ calls, call.InRange)
    (hstep : ∀ k < calls.length, (log.run (calls.take k)).InStep) {i : Nat}
    (hlasts : Lasts (log.run (calls.take i)).disk e)
    (hkept : ∀ k, i < k → k ≤ calls.length → e ∈ (log.run (calls.take k)).entries) {k : Nat} (hik : i ≤ k)
    (hk : k ≤ calls.length)
    : Lasts (log.run (calls.take k)).disk e := by
  induction k with
  | zero => rwa [Nat.le_zero.1 hik] at hlasts
  | succ k ih =>
    rcases Nat.lt_or_eq_of_le hik with hlt | rfl
    . have hbefore := ih (Nat.le_of_lt_succ hlt) (Nat.le_of_lt hk)
      have hstanding := h.run hrange (Nat.le_of_lt hk) fun j hj => hstep j (Nat.lt_of_le_of_lt hj hk)
      obtain ⟨snapshot, hknows⟩ := (hstep k hk).knows
      have hmem := hkept (k + 1) hlt hk
      rw [run_succ hk] at hmem ⊢
      exact hstanding.lasts hknows (hrange _ (List.getElem_mem hk)) hbefore hmem
    . exact hlasts

theorem Opens.standing (h : Opens v .always snapshot records log)
    (hsettled : ∃ content, v.Holds snapshotName content)
    : log.Standing := by
  obtain ⟨durable, hcoherent, -⟩ := h.coherent
  obtain ⟨content, hholds⟩ := hsettled
  exact ⟨⟨records, durable, hcoherent⟩, ⟨content, hholds.of_eq h.file⟩, h.policy⟩

end LogStore

/-- With the policy `always`, and whatever fails: an entry whose append succeeded, and that stayed in the
log, is there after a loss of power, if no failed call left the log out of step with its files. The last
call may have failed anywhere; then a snapshot may cover the entry. -/
theorem appended_recovered {v v' : Volume} {log₀ : LogStore} (hv : v.calmed.Sound)
    (hsettled : ∃ content, v.Holds LogStore.snapshotName content)
    (hopen : LogStore.open .always v = .ok log₀ v') {calls : List LogCall}
    (hrange : ∀ call ∈ calls, call.InRange)
    (hstep : ∀ k < calls.length, (log₀.run (calls.take k)).InStep) {i : Nat} {entries : List LogEntry}
    (hi : calls[i]? = some (.append entries)) {log' : LogStore}
    (hok : LogStore.append entries (log₀.run (calls.take i)) = .ok () log') {e : LogEntry}
    (he : e ∈ entries)
    (hkept : ∀ k, i < k → k ≤ calls.length → e ∈ (log₀.run (calls.take k)).entries) (policy : SyncPolicy)
    : ∃ log, LogStore.open policy (log₀.run calls).disk.crash.calmed = .ok log log.disk ∧
        (log.get? e.index = some e ∨ e.index ≤ log.snapshotIndex ∧ ¬ (log₀.run calls).InStep) := by
  obtain ⟨hi, hcall⟩ := List.getElem?_eq_some_iff.1 hi
  obtain ⟨_, _, _, -, -, -, hopens⟩ := LogStore.opens_of_ok hv hopen
  have hstanding₀ := hopens.standing hsettled
  have hacknowledged : LogStore.Lasts (log₀.run (calls.take (i + 1))).disk e := by
    have hstanding := hstanding₀.run hrange (Nat.le_of_lt hi) fun j hj => hstep j (Nat.lt_of_le_of_lt hj hi)
    obtain ⟨snapshot, hknows⟩ := (hstep i hi).knows
    have hentries := hrange _ (List.getElem_mem hi)
    have hmem := hkept (i + 1) (Nat.lt_succ_self i) hi
    rw [hcall] at hentries
    rw [LogStore.run_succ hi, hcall, LogStore.after_append hok] at hmem ⊢
    exact hstanding.append_lasts hknows hentries hok he hmem
  have hlasts := hstanding₀.run_lasts hrange hstep hacknowledged
    (fun k hik => hkept k (Nat.lt_of_succ_lt hik)) hi (Nat.le_refl _)
  rw [List.take_length] at hlasts
  by_cases hin : (log₀.run calls).InStep
  . have hall : ∀ j ≤ calls.length, (log₀.run (calls.take j)).InStep := by
      intro j hj
      rcases Nat.lt_or_eq_of_le hj with hlt | rfl
      . exact hstep j hlt
      . rwa [List.take_length]
    have hfinal := hstanding₀.run hrange (Nat.le_refl _) hall
    have hmem := hkept calls.length hi (Nat.le_refl _)
    rw [List.take_length] at hfinal hmem
    obtain ⟨records, durable, hcoherent⟩ := hfinal.coherent
    obtain ⟨snapshot, hknows⟩ := hin.knows
    obtain ⟨log, hopen, hget⟩ := hlasts.recover_entry hknows hcoherent.follows hmem policy
    exact ⟨log, hopen, .inl hget⟩
  . obtain ⟨log, _, hopen, -, -, hget⟩ := hlasts.recover policy
    exact ⟨log, hopen, hget.imp_right fun hle => ⟨hle, hin⟩⟩

namespace Retried

-- The first append is not forced to the disk, and the snapshot cannot be prepared.
def plan : List (Option Fault) :=
  [none, some {}, none, none, some {}]

def calls : List LogCall :=
  [.append [⟨1, 1, [1]⟩], .append [⟨1, 2, [2]⟩], .putSnapshot 1 1 [7]]

end Retried

theorem appended_recovered_retried
    : ∃ log, LogStore.open .never
          ((LogStore.fresh .always Retried.plan).run Retried.calls).disk.crash.calmed = .ok log log.disk ∧
        (log.get? 2 = some ⟨1, 2, [2]⟩ ∨
          2 ≤ log.snapshotIndex ∧ ¬ ((LogStore.fresh .always Retried.plan).run Retried.calls).InStep) := by
  have hsound : (Volume.calmed { plan := none :: none :: Retried.plan }).Sound := Volume.sound_empty
  have hrange : ∀ call ∈ Retried.calls, call.InRange := by
    decide
  have hstep : ∀ k < Retried.calls.length,
      ((LogStore.fresh .always Retried.plan).run (Retried.calls.take k)).InStep := by
    decide +kernel
  have hok : (EStateM.value? (LogStore.append [⟨1, 2, [2]⟩]
      ((LogStore.fresh .always Retried.plan).run (Retried.calls.take 1)))) = some () := by
    decide +kernel
  obtain ⟨log', hok⟩ := EStateM.eq_ok_of_value? hok
  have hkept : ∀ k ≤ 3, 1 < k →
      (⟨1, 2, [2]⟩ : LogEntry) ∈
        ((LogStore.fresh .always Retried.plan).run (Retried.calls.take k)).entries := by
    decide +kernel
  exact appended_recovered hsound ⟨none, rfl⟩ (LogStore.open_planned .always Retried.plan) hrange hstep
    (i := 1) rfl hok List.mem_cons_self (fun k hk hle => hkept k hle hk) .never

namespace Stranded

-- The snapshot is put into its place, and the log is not.
def plan : List (Option Fault) :=
  [none, none, none, none, none, none, some {}]

def calls : List LogCall :=
  [.append [⟨1, 1, [1]⟩], .putSnapshot 3 2 [7], .append [⟨2, 2, [2]⟩]]

end Stranded

theorem appended_lost
    : ∃ log v', LogStore.append [⟨2, 2, [2]⟩]
          ((LogStore.fresh .always Stranded.plan).run (Stranded.calls.take 2))
            = .ok () ((LogStore.fresh .always Stranded.plan).run Stranded.calls) ∧
        ((LogStore.fresh .always Stranded.plan).run Stranded.calls).get? 2 = some ⟨2, 2, [2]⟩ ∧
        LogStore.open .always ((LogStore.fresh .always Stranded.plan).run Stranded.calls).disk.crash.calmed
          = .ok log v' ∧
        log.get? 2 = none := by
  have hok : (EStateM.value? (LogStore.append [⟨2, 2, [2]⟩]
      ((LogStore.fresh .always Stranded.plan).run (Stranded.calls.take 2)))) = some () := by
    decide +kernel
  have hlost : (EStateM.value? (LogStore.open .always
      ((LogStore.fresh .always Stranded.plan).run Stranded.calls).disk.crash.calmed)).map (·.get? 2)
        = some none := by
    decide +kernel
  obtain ⟨log', hok⟩ := EStateM.eq_ok_of_value? hok
  obtain ⟨log, hvalue, hget⟩ := Option.map_eq_some_iff.1 hlost
  obtain ⟨v', hopen⟩ := EStateM.eq_ok_of_value? hvalue
  have hrun : (LogStore.fresh .always Stranded.plan).run Stranded.calls = log' := by
    rw [← LogStore.after_append hok]
    rfl
  refine ⟨log, v', ?_, by decide +kernel, hopen, hget⟩
  rw [hrun]
  exact hok

end ReplicatedStore
