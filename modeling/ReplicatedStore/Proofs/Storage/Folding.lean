import ReplicatedStore.Proofs.Storage.Sessions

/-!
A log to which one entry at a time is appended, and which is folded into a snapshot at its last entry.
-/

namespace ReplicatedStore

namespace LogStore

variable {log log' : LogStore} {records : List LogEntry} {durable : Bytes} {entry : LogEntry}

theorem lastIndex_congr (hentries : log'.entries = log.entries)
    (hindex : log'.snapshotIndex = log.snapshotIndex)
    : log'.lastIndex = log.lastIndex := by
  unfold lastIndex
  rw [hentries, hindex]

theorem append_one (entry : LogEntry)
    : append [entry] = (do
        appendOne entry
        settle) := by
  have hall : [entry].forM appendOne = appendOne entry := by
    unfold List.forM List.forM
    exact bind_pure_comp (fun u => u) (appendOne entry) |>.trans (id_map _)
  unfold append
  rw [if_neg (by simp), hall]

theorem append_of_gap (hindex : entry.index ≠ log.lastIndex + 1)
    : append [entry] log
        =
      .error (.log s!"non-contiguous append: expected index {log.lastIndex + 1}, got {entry.index}") log := by
  have hone : appendOne entry log
      = .error (.log s!"non-contiguous append: expected index {log.lastIndex + 1}, got {entry.index}") log := by
    unfold appendOne
    rw [EStateM.bind_get]
    dsimp only
    rw [if_pos hindex]
    rfl
  rw [append_one]
  exact EStateM.bind_of_error hone

theorem append_of_long (hindex : entry.index = log.lastIndex + 1)
    (hlong : greatestCommand < entry.command.length)
    : append [entry] log
        =
      .error (.log s!"entry {entry.index} command too large ({entry.command.length} bytes)") log := by
  have hone : appendOne entry log
      = .error (.log s!"entry {entry.index} command too large ({entry.command.length} bytes)") log := by
    unfold appendOne
    rw [EStateM.bind_get]
    dsimp only
    rw [if_neg (by simpa using hindex), if_pos hlong]
    rfl
  rw [append_one]
  exact EStateM.bind_of_error hone

theorem yields_appendOne_carried {bytes : Bytes} (h : log.Carries bytes durable) (entry : LogEntry)
    : EStateM.Yields
        (fun _ log' => log.Extends log' [entry] ∧ log.Admits [entry] ∧ ∃ bytes, log'.Carries bytes durable)
        (fun log' => log.Extends log' [] ∧ (log.Admits [entry] → log.disk.plan ≠ []) ∧
          ∃ bytes, log'.Carries bytes durable)
        (appendOne entry log) := by
  unfold appendOne
  rw [EStateM.bind_get]
  dsimp only
  split
  . next hindex => exact ⟨.refl log, fun hadmits => (hindex hadmits.follows.1).elim, bytes, h⟩
  split
  . next hlong =>
    refine ⟨.refl log, fun hadmits => ?_, bytes, h⟩
    exact (Nat.not_le.2 hlong (hadmits.short entry (List.mem_singleton_self _))).elim
  next hindex hcommand =>
  apply (yields_write h (LogRecord.encode entry)).bind
  . rintro log₁ ⟨hspools, hplan, k, -, hcarries, -⟩
    exact ⟨hspools.extends, fun _ => hplan, _, hcarries⟩
  rintro _ log₁ ⟨hspools, hcarries⟩
  have hkeeps := hspools.keeps
  have hentries : log₁.entries = log.entries := by
    rw [hspools.memory]
  refine ⟨⟨⟨hkeeps.snapshotIndex, hkeeps.snapshotTerm, hkeeps.policy, hkeeps.plan, hkeeps.snapshot⟩, ?_⟩,
    ⟨⟨Decidable.not_not.1 hindex, trivial⟩, ?_⟩, _, hcarries.sound, hcarries.file⟩
  . exact congrArg (· ++ [entry]) hentries
  . intro e he
    rw [List.mem_singleton.1 he]
    exact Nat.not_lt.1 hcommand

theorem yields_append_one {bytes : Bytes} (h : log.Carries bytes durable)
    (hindex : entry.index = log.lastIndex + 1) (hcommand : entry.command.length ≤ greatestCommand)
    : EStateM.Yields (fun _ _ => True) (fun _ => log.disk.plan ≠ []) (append [entry] log) := by
  have hadmits : log.Admits [entry] := by
    refine ⟨⟨hindex, trivial⟩, fun e he => ?_⟩
    rw [List.mem_singleton.1 he]
    exact hcommand
  rw [append_one]
  apply (yields_appendOne_carried h entry).bind
  . exact fun _ h => h.2.1 hadmits
  rintro _ log₁ ⟨hextends, -, _, hcarries⟩
  apply (yields_settle hcarries).imp
  . exact fun _ _ _ => trivial
  . exact fun _ h => hextends.plan.ne_nil h.2.2

def failsReplacing (log : LogStore) (index term : Nat) (data : Bytes) : Bool :=
  match putSnapshot index term data log with
  | .ok _ _ => true
  | .error _ _ =>
    match Disk.replace snapshotName (Snapshot.encode { index, term, data }) log.disk with
    | .error _ _ => true
    | .ok _ disk =>
      match flush { log with disk } with
      | .error _ _ => false
      | .ok _ log' =>
        match Disk.replace logName ((log.retained index term).flatMap LogRecord.encode) log'.disk with
        | .error _ _ => true
        | .ok _ _ => false

theorem Coherent.of_touches {name : String} {disk : Volume} (h : log.Coherent records durable)
    (htouches : log.disk.Touches disk name) (hsame : disk.find? logName = log.disk.find? logName)
    : Coherent { log with disk } records durable := by
  obtain ⟨written, hfile, hbytes⟩ := h.carries.file
  exact { toDescribes := ⟨h.fit, h.selects, h.parallel, h.fileLength⟩
          carries := ⟨htouches.sound, written, hsame.trans hfile, hbytes⟩ }

theorem Coherent.of_failsReplacing {index term : Nat} {data : Bytes} {e : Error}
    (h : log.Coherent records durable) (hfails : log.failsReplacing index term data = true)
    (herror : putSnapshot index term data log = .error e log')
    : log'.Coherent records durable := by
  unfold failsReplacing at hfails
  rw [herror] at hfails
  dsimp only at hfails
  unfold putSnapshot at herror
  rw [EStateM.bind_get] at herror
  dsimp only at herror
  split at herror
  . cases herror
    exact h
  have hsnapshot := Disk.yields_replace h.carries.sound snapshotName (Snapshot.encode { index, term, data })
  cases hreplaced : Disk.replace snapshotName (Snapshot.encode { index, term, data }) log.disk with
  | error _ disk =>
    rw [EStateM.bind_of_error (onDisk_of_error hreplaced)] at herror
    cases herror
    rw [hreplaced] at hsnapshot
    exact h.of_touches hsnapshot.1 (hsnapshot.1.other _ logName_touched.1 logName_touched.2)
  | ok _ disk =>
    rw [EStateM.bind_of_ok (onDisk_of_ok hreplaced)] at herror
    rw [hreplaced] at hfails hsnapshot
    have h₁ : Coherent { log with disk } records durable :=
      h.of_touches hsnapshot.1 (hsnapshot.1.other _ logName_touched.1 logName_touched.2)
    have hflush := yields_flush h₁.carries
    dsimp only at hfails herror
    cases hflushed : flush { log with disk } with
    | error _ log₁ =>
      rw [hflushed] at hfails
      cases hfails
    | ok _ log₁ =>
      rw [EStateM.bind_of_ok hflushed] at herror
      rw [hflushed] at hfails hflush
      dsimp only at hfails herror
      have h₂ : log₁.Coherent records durable :=
        { hflush.1.describes h₁.toDescribes with carries := hflush.2.1 }
      have hlog := Disk.yields_replace h₂.carries.sound logName
        ((log.retained index term).flatMap LogRecord.encode)
      cases hreplaced₁ :
          Disk.replace logName ((log.retained index term).flatMap LogRecord.encode) log₁.disk with
      | error _ disk₁ =>
        rw [EStateM.bind_of_error (onDisk_of_error hreplaced₁)] at herror
        cases herror
        rw [hreplaced₁] at hlog
        exact h₂.of_touches hlog.1 hlog.2.1
      | ok _ disk₁ =>
        rw [hreplaced₁] at hfails
        cases hfails

theorem Coherent.folds (h : log.Coherent records durable) (index term : Nat) (data : Bytes)
    (hspared : log.disk.plan = [] ∨ log.failsReplacing index term data = true)
    : log.Installs (log.after (.putSnapshot index term data)) index term data records durable ∧
        ∃ records' durable', (log.after (.putSnapshot index term data)).Coherent records' durable' := by
  have hyields := yields_putSnapshot h index term data
  cases hresult : putSnapshot index term data log with
  | ok _ log' =>
    rw [hresult] at hyields
    unfold after LogCall.perform
    dsimp only
    rw [hresult]
    exact ⟨hyields.1, hyields.1.coherent (.inr hyields.2.2)⟩
  | error e log' =>
    rw [hresult] at hyields
    unfold after LogCall.perform
    dsimp only
    rw [hresult]
    refine ⟨hyields.1, ?_⟩
    rcases hspared with hcalm | hfails
    . exact hyields.1.coherent (.inl hcalm)
    . exact ⟨_, _, h.of_failsReplacing hfails hresult⟩

end LogStore

end ReplicatedStore
