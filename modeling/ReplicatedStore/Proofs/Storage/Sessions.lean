import ReplicatedStore.Proofs.Storage.Recovery

/-!
A log through any sequence of calls, of closing and of opening again, when no step fails: its entries have
no gap, each offset is where the record of its entry starts, and a log that is opened from the directory
gives the same answers.
-/

namespace ReplicatedStore

instance (snapshot : Snapshot) : Decidable snapshot.Fits :=
  decidable_of_iff (snapshot.index < 2 ^ 64 ∧ snapshot.term < 2 ^ 64)
    ⟨fun h => ⟨h.1, h.2⟩, fun h => ⟨h.index, h.term⟩⟩

inductive LogCall where
  | append (entries : List LogEntry)
  | discardFrom (index : Nat)
  | putSnapshot (index term : Nat) (data : Bytes)
  | sync
  deriving DecidableEq, Repr

namespace LogCall

def perform : LogCall → LogM Unit
  | .append entries => LogStore.append entries
  | .discardFrom index => LogStore.discardFrom index
  | .putSnapshot index term data => LogStore.putSnapshot index term data
  | .sync => LogStore.sync

def InRange : LogCall → Prop
  | .append entries => ∀ e ∈ entries, e.InRange
  | .putSnapshot index term data => Snapshot.Fits ⟨index, term, data⟩ ∧ data.length < 2 ^ 64
  | _ => True

instance : (call : LogCall) → Decidable call.InRange
  | .append entries => inferInstanceAs (Decidable (∀ e ∈ entries, e.InRange))
  | .putSnapshot index term data =>
    inferInstanceAs (Decidable (Snapshot.Fits ⟨index, term, data⟩ ∧ data.length < 2 ^ 64))
  | .discardFrom _ => isTrue trivial
  | .sync => isTrue trivial

end LogCall

def LogStore.after (log : LogStore) (call : LogCall) : LogStore :=
  match call.perform log with
  | .ok _ log => log
  | .error _ log => log

inductive LogEvent where
  | call (call : LogCall)
  | close
  | «open» (policy : SyncPolicy)
  deriving DecidableEq, Repr

def LogEvent.InRange : LogEvent → Prop
  | .call c => c.InRange
  | _ => True

instance : (event : LogEvent) → Decidable event.InRange
  | .call c => inferInstanceAs (Decidable c.InRange)
  | .close => isTrue trivial
  | .open _ => isTrue trivial

inductive LogHost where
  | closed (directory : Volume)
  | opened (log : LogStore)
  deriving DecidableEq, Repr

def LogHost.log? : LogHost → Option LogStore
  | .opened log => some log
  | .closed _ => none

def LogHost.perform : LogHost → LogEvent → LogHost
  | .opened log, .call call => .opened (log.after call)
  | .opened log, .close => .closed log.close
  | .closed directory, .open policy =>
    match LogStore.open policy directory with
    | .ok log _ => .opened log
    | .error _ directory => .closed directory
  | host, _ => host

namespace LogStore

structure Alike (log log' : LogStore) : Prop where
  entries : log'.entries = log.entries
  firstIndex : log'.firstIndex = log.firstIndex
  lastIndex : log'.lastIndex = log.lastIndex
  get? : ∀ index, log'.get? index = log.get? index
  termAt? : ∀ index, log'.termAt? index = log.termAt? index
  takeFrom : ∀ start max, log'.takeFrom start max = log.takeFrom start max

structure Faithful (log : LogStore) : Prop where
  numbered : ∀ (k : Nat) (hk : k < log.entries.length), log.entries[k].index = log.snapshotIndex + k + 1
  parallel : log.offsets.length = log.entries.length
  offsets : ∃ content, log.close.content? logName = some content ∧
    ∀ r ∈ log.offsets.zip log.entries, LogRecord.encode r.2 <+: content.drop r.1
  reopens : ∃ snapshot, storedSnapshot log = .ok snapshot log ∧
    log.snapshotIndex = (snapshot.map (·.index)).getD 0 ∧
    log.snapshotTerm = (snapshot.map (·.term)).getD 0 ∧
    ∀ policy, ∃ log', LogStore.open policy log.close = .ok log' log'.disk ∧
      storedSnapshot log' = .ok snapshot log' ∧ log.Alike log'

end LogStore

inductive LogHost.Faithful : LogHost → Prop where
  | opened {log : LogStore} (faithful : log.Faithful) : Faithful (.opened log)
  | closed {directory : Volume}
      (opens : ∀ policy, ∃ log, LogStore.open policy directory = .ok log log.disk) :
    Faithful (.closed directory)

namespace LogStore

variable {log log' : LogStore} {records records' : List LogEntry} {durable : Bytes}
  {snapshot : Option Snapshot}

structure Knows (log : LogStore) (snapshot : Option Snapshot) : Prop where
  reads : readSnapshot log.disk = .ok snapshot log.disk
  snapshotIndex : log.snapshotIndex = (snapshot.map (·.index)).getD 0
  snapshotTerm : log.snapshotTerm = (snapshot.map (·.term)).getD 0

structure Regular (log : LogStore) (records : List LogEntry) (snapshot : Option Snapshot) : Prop
    extends log.Knows snapshot where
  coherent : ∃ durable, log.Coherent records durable
  calm : log.disk.plan = []

theorem Keeps.knows (h : log.Keeps log') (hk : log.Knows snapshot) : log'.Knows snapshot where
  reads := readSnapshot_congr hk.reads h.snapshot
  snapshotIndex := h.snapshotIndex.trans hk.snapshotIndex
  snapshotTerm := h.snapshotTerm.trans hk.snapshotTerm

structure Passes (log log' : LogStore) : Prop where
  policy : log'.policy = log.policy
  plan : log'.disk.plan <:+ log.disk.plan
  settled : (∃ content, log.disk.Holds snapshotName content) →
    ∃ content, log'.disk.Holds snapshotName content
  coherent : log.disk.plan = [] ∨ log'.Aligned → ∃ records durable, log'.Coherent records durable
  knows : log.disk.plan = [] → ∀ snapshot, log.Knows snapshot → ∃ snapshot', log'.Knows snapshot'

theorem Keeps.passes (h : log.Keeps log') (hcoherent : log.disk.plan = [] ∨ log'.Aligned →
    ∃ records durable, log'.Coherent records durable)
    : log.Passes log' where
  policy := h.policy
  plan := h.plan
  settled := fun ⟨content, hholds⟩ => ⟨content, hholds.of_eq h.snapshot⟩
  coherent := hcoherent
  knows _ snapshot hk := ⟨snapshot, h.knows hk⟩

theorem Discards.passes {index : Nat} (h : log.Discards log' index records durable) : log.Passes log' := by
  apply h.toKeeps.passes
  intro hwhole
  rcases h.outcome with ⟨-, hstands⟩ | ⟨-, n, hcut⟩
  . exact ⟨_, _, hstands.coherent hwhole⟩
  . exact ⟨_, _, hcut⟩

theorem Installs.passes {index term : Nat} {data : Bytes}
    (h : log.Installs log' index term data records durable)
    (hfits : Snapshot.Fits ⟨index, term, data⟩)
    (hdata : log'.disk.Holds snapshotName (some (Snapshot.encode ⟨index, term, data⟩)) →
      data.length < 2 ^ 64)
    : log.Passes log' := by
  cases h with
  | before keeps _ _ coherent => exact keeps.passes fun _ => ⟨_, _, coherent⟩
  | between _ plan faulty policy _ _ _ coherent hsnapshot =>
    exact ⟨policy, plan, fun _ => ⟨_, hsnapshot⟩, fun _ => ⟨_, _, coherent⟩,
      fun hcalm => (faulty hcalm).elim⟩
  | after _ plan policy hindex hterm _ _ _ _ writer hsnapshot =>
    refine ⟨policy, plan, fun _ => ⟨_, hsnapshot⟩, fun hwhole => ⟨_, _, writer hwhole⟩,
      fun _ _ _ => ⟨some ⟨index, term, data⟩, ?_, hindex, hterm⟩⟩
    rw [readSnapshot_encode hfits hsnapshot, if_pos (hdata hsnapshot)]

theorem after_of_yields {call : LogCall} {P : LogStore → Prop}
    (h : EStateM.Yields (fun _ log' => P log') P (call.perform log))
    : P (log.after call) := by
  unfold after
  cases hr : call.perform log with
  | ok _ log' =>
    rw [hr] at h
    exact h
  | error _ log' =>
    rw [hr] at h
    exact h

theorem after_append {entries : List LogEntry} (h : append entries log = .ok () log')
    : log.after (.append entries) = log' := by
  have hperform : (LogCall.append entries).perform log = .ok () log' := h
  unfold after
  rw [hperform]

theorem Coherent.passes (h : log.Coherent records durable) {call : LogCall} (hrange : call.InRange)
    : log.Passes (log.after call) := by
  refine after_of_yields (P := fun log' => log.Passes log') ?_
  cases call with
  | append entries =>
    apply (yields_appendEntries h hrange).imp
    . rintro _ log' ⟨hextends, -, durable', hcoherent, -⟩
      exact hextends.toKeeps.passes fun _ => ⟨_, _, hcoherent⟩
    . rintro log' ⟨n, hextends, hstands, -⟩
      exact hextends.toKeeps.passes fun hwhole => ⟨_, _, hstands.coherent hwhole⟩
  | discardFrom index =>
    exact (yields_discardFrom h index).imp (fun _ _ h => h.1.passes) fun _ h => h.1.passes
  | putSnapshot index term data =>
    have hinstalls : ∀ log', log.Installs log' index term data records durable → log.Passes log' :=
      fun log' hinstalls => hinstalls.passes hrange.1 fun _ => hrange.2
    apply (yields_putSnapshot h index term data).imp
    . exact fun _ log' h => hinstalls log' h.1
    . exact fun log' h => hinstalls log' h.1
  | sync =>
    have hpasses : ∀ {log' : LogStore} {durable' : Bytes}, log.Spools log' →
        log'.Carries (records.flatMap LogRecord.encode) durable' → log.Passes log' :=
      fun hspools hcarries => hspools.keeps.passes fun _ =>
        ⟨_, _, { hspools.describes h.toDescribes with carries := hcarries }⟩
    apply (yields_force h.carries).imp
    . exact fun _ _ h => hpasses h.1 h.2
    . exact fun _ h => hpasses h.1 h.2.1

theorem Regular.after (h : log.Regular records snapshot) {call : LogCall} (hrange : call.InRange)
    : ∃ records' snapshot', (log.after call).Regular records' snapshot' := by
  obtain ⟨durable, hcoherent⟩ := h.coherent
  have hpasses := hcoherent.passes hrange
  obtain ⟨records', durable', hcoherent'⟩ := hpasses.coherent (.inl h.calm)
  obtain ⟨snapshot', hknows⟩ := hpasses.knows h.calm snapshot h.toKnows
  exact ⟨records', snapshot', { hknows with
    coherent := ⟨durable', hcoherent'⟩
    calm := Volume.calm_of_suffix hpasses.plan h.calm }⟩

theorem Spools.regular (h : log.Spools log') (hr : log.Regular records snapshot)
    (hcarries : log'.Carries (records.flatMap LogRecord.encode) durable)
    : log'.Regular records snapshot := by
  obtain ⟨_, hcoherent⟩ := hr.coherent
  exact { h.keeps.knows hr.toKnows with
    coherent := ⟨durable, { h.describes hcoherent.toDescribes with carries := hcarries }⟩
    calm := Volume.calm_of_suffix h.plan hr.calm }

theorem Carries.close {bytes : Bytes} (h : log.Carries bytes durable)
    : ∃ log', log.close = log'.disk ∧ log.Spools log' ∧ log'.Carries bytes durable ∧
        (log.disk.plan = [] ∨ log.writer.buffer = [] → log'.writer.buffer = []) := by
  have hflush := yields_flush h
  unfold LogStore.close
  cases hr : flush log with
  | ok _ log' =>
    rw [hr] at hflush
    obtain ⟨hspools, hcarries, hempty⟩ := hflush
    exact ⟨log', rfl, hspools, hcarries, fun _ => hempty⟩
  | error _ log' =>
    rw [hr] at hflush
    obtain ⟨hspools, hcarries, hplan, hbuffer⟩ := hflush
    exact ⟨log', rfl, hspools, hcarries, fun h => (h.elim hplan hbuffer).elim⟩

theorem Coherent.close (h : log.Coherent records durable) (hcalm : log.disk.plan = [])
    : ∃ log', log.close = log'.disk ∧ log.Spools log' ∧ log'.Coherent records durable ∧
        log'.writer.buffer = [] := by
  obtain ⟨log', hclose, hspools, hcarries, hempty⟩ := h.carries.close
  exact ⟨log', hclose, hspools, { hspools.describes h.toDescribes with carries := hcarries },
    hempty (.inl hcalm)⟩

theorem Regular.close (h : log.Regular records snapshot)
    : ∃ log', log.close = log'.disk ∧ log.Spools log' ∧ log'.Regular records snapshot ∧
        log'.writer.buffer = [] := by
  obtain ⟨durable, hcoherent⟩ := h.coherent
  obtain ⟨log', hclose, hspools, hcoherent', hempty⟩ := hcoherent.close h.calm
  exact ⟨log', hclose, hspools, hspools.regular h hcoherent'.carries, hempty⟩

theorem Regular.sound (h : log.Regular records snapshot) : log.disk.Sound := by
  obtain ⟨durable, hcoherent⟩ := h.coherent
  rw [← Volume.calmed_eq h.calm]
  exact hcoherent.carries.sound

theorem Opens.regular {v : Volume} {policy : SyncPolicy} (h : Opens v policy snapshot records log)
    (hread : readSnapshot v = .ok snapshot v) (hcalm : v.plan = [])
    : log.Regular records snapshot where
  coherent := h.coherent.imp fun _ h => h.1
  reads := readSnapshot_congr hread h.file
  snapshotIndex := h.snapshotIndex
  snapshotTerm := h.snapshotTerm
  calm := Volume.calm_of_suffix h.plan hcalm

theorem Regular.reopen (h : log.Regular records snapshot) (hempty : log.writer.buffer = [])
    (policy : SyncPolicy)
    : ∃ log', LogStore.open policy log.disk = .ok log' log'.disk ∧ log'.Regular records snapshot ∧
        log'.writer.buffer = [] ∧ log'.entries = log.entries := by
  obtain ⟨durable, hcoherent⟩ := h.coherent
  obtain ⟨written, hfile, hbytes⟩ := hcoherent.carries.file
  rw [hempty, List.append_nil] at hbytes
  have hcontent : (log.disk.content? logName).getD [] = records.flatMap LogRecord.encode ++ [] := by
    rw [content?_of_file hfile, hbytes, List.append_nil]
    rfl
  have hselects := hcoherent.selects
  rw [h.snapshotIndex] at hselects
  obtain ⟨log', hopen, hopens, hentries⟩ :=
    open_of_selects h.sound h.reads hcontent hcoherent.fit rfl policy hselects
  refine ⟨log', hopen, hopens.regular h.reads h.calm, hopens.unbuffered, ?_⟩
  rw [hentries, hcoherent.map_snd]

theorem Knows.storedSnapshot (h : log.Knows snapshot)
    : LogStore.storedSnapshot log = .ok snapshot log := by
  unfold LogStore.storedSnapshot
  exact onDisk_of_ok h.reads

theorem alike_of_eq (hentries : log'.entries = log.entries)
    (hindex : log'.snapshotIndex = log.snapshotIndex) (hterm : log'.snapshotTerm = log.snapshotTerm)
    : log.Alike log' := by
  have hget : ∀ index, log'.get? index = log.get? index := by
    intro index
    unfold get? position
    rw [hentries, hindex]
  refine ⟨hentries, ?_, ?_, hget, ?_, ?_⟩
  . unfold firstIndex
    rw [hindex]
  . unfold lastIndex
    rw [hentries, hindex]
  . intro index
    unfold termAt?
    rw [hindex, hterm, hget]
  . intro start max
    unfold takeFrom position
    rw [hentries, hindex]

theorem Describes.encode_prefix (h : log.Describes records) {r : Nat × LogEntry}
    (hr : r ∈ log.offsets.zip log.entries)
    : LogRecord.encode r.2 <+: (records.flatMap LogRecord.encode).drop r.1 := by
  obtain ⟨n, hn, rfl⟩ := List.mem_iff_getElem.1 (h.selects.sublist.subset hr)
  have hn' : n < records.length := by rwa [LogRecord.length_layout] at hn
  rw [LogRecord.getElem_layout hn hn', LogRecord.flatMap_split records n, List.drop_left' rfl]
  rw [List.drop_eq_getElem_cons hn', List.flatMap_cons]
  exact List.prefix_append _ _

theorem Regular.content?_close (h : log.Regular records snapshot)
    : log.close.content? logName = some (records.flatMap LogRecord.encode) := by
  obtain ⟨flushed, hclose, -, hflushed, hempty⟩ := h.close
  obtain ⟨durable, hcoherent⟩ := hflushed.coherent
  obtain ⟨written, hfile, hbytes⟩ := hcoherent.carries.file
  rw [hempty, List.append_nil] at hbytes
  rw [hclose, content?_of_file hfile, hbytes]

theorem Regular.reopened (h : log.Regular records snapshot) (policy : SyncPolicy)
    : ∃ log', LogStore.open policy log.close = .ok log' log'.disk ∧ log'.Regular records snapshot ∧
        log'.entries = log.entries := by
  obtain ⟨flushed, hclose, hspools, hflushed, hempty⟩ := h.close
  obtain ⟨log', hopen, hregular, -, hentries⟩ := hflushed.reopen hempty policy
  rw [← hclose] at hopen
  rw [hspools.memory] at hentries
  exact ⟨log', hopen, hregular, hentries⟩

theorem Regular.faithful (h : log.Regular records snapshot) : log.Faithful := by
  obtain ⟨durable, hcoherent⟩ := h.coherent
  refine ⟨fun k hk => hcoherent.follows.index_eq hk, hcoherent.parallel, ?_, ?_⟩
  . exact ⟨_, h.content?_close, fun r hr => hcoherent.encode_prefix hr⟩
  . refine ⟨snapshot, h.storedSnapshot, h.snapshotIndex, h.snapshotTerm, ?_⟩
    intro policy
    obtain ⟨log', hopen, hregular, hentries⟩ := h.reopened policy
    refine ⟨log', hopen, hregular.storedSnapshot, alike_of_eq hentries ?_ ?_⟩
    . rw [hregular.snapshotIndex, h.snapshotIndex]
    . rw [hregular.snapshotTerm, h.snapshotTerm]

end LogStore

namespace LogHost

def Regular : LogHost → Prop
  | .opened log => ∃ records snapshot, log.Regular records snapshot
  | .closed directory => ∃ log records snapshot, LogStore.Regular log records snapshot ∧
      log.writer.buffer = [] ∧ directory = log.disk

variable {host : LogHost}

theorem Regular.perform (h : host.Regular) {event : LogEvent} (hrange : event.InRange)
    : (host.perform event).Regular := by
  cases host with
  | opened log =>
    obtain ⟨records, snapshot, hregular⟩ := h
    cases event with
    | call call => exact hregular.after hrange
    | close =>
      obtain ⟨flushed, hclose, -, hflushed, hempty⟩ := hregular.close
      exact ⟨flushed, records, snapshot, hflushed, hempty, hclose⟩
    | «open» policy => exact ⟨records, snapshot, hregular⟩
  | closed directory =>
    obtain ⟨log, records, snapshot, hregular, hempty, rfl⟩ := h
    cases event with
    | call call => exact ⟨log, records, snapshot, hregular, hempty, rfl⟩
    | close => exact ⟨log, records, snapshot, hregular, hempty, rfl⟩
    | «open» policy =>
      obtain ⟨log', hopen, hregular', -⟩ := hregular.reopen hempty policy
      have hopened : LogHost.perform (.closed log.disk) (.open policy) = .opened log' := by
        unfold LogHost.perform
        dsimp only
        rw [hopen]
      rw [hopened]
      exact ⟨records, snapshot, hregular'⟩

theorem Regular.run (h : host.Regular) (events : List LogEvent) (hrange : ∀ event ∈ events, event.InRange)
    : (events.foldl LogHost.perform host).Regular := by
  induction events generalizing host with
  | nil => exact h
  | cons event rest ih =>
    apply ih (h.perform (hrange event List.mem_cons_self))
    exact fun event hevent => hrange event (List.mem_cons_of_mem _ hevent)

theorem Regular.faithful (h : host.Regular) : host.Faithful := by
  cases host with
  | opened log =>
    obtain ⟨records, snapshot, hregular⟩ := h
    exact .opened hregular.faithful
  | closed directory =>
    obtain ⟨log, records, snapshot, hregular, hempty, rfl⟩ := h
    refine .closed fun policy => ?_
    obtain ⟨log', hopen, -⟩ := hregular.reopen hempty policy
    exact ⟨log', hopen⟩

end LogHost

theorem LogStore.regular_of_open {v v' : Volume} {policy : SyncPolicy} {log : LogStore} (hv : v.Sound)
    (hopen : LogStore.open policy v = .ok log v')
    : ∃ records snapshot, log.Regular records snapshot := by
  obtain ⟨snapshot, records, -, hread, -, -, hopens⟩ :=
    opens_of_ok (by rwa [Volume.calmed_eq hv.calm]) hopen
  exact ⟨records, snapshot, hopens.regular hread hv.calm⟩

/-- From any directory that opens, through any calls, with any policies: the log agrees with its files, and
what is closed opens as it was. -/
theorem log_faithful {v v' : Volume} {policy : SyncPolicy} {log : LogStore} (hv : v.Sound)
    (hopen : LogStore.open policy v = .ok log v') (events : List LogEvent)
    (hrange : ∀ event ∈ events, event.InRange)
    : (events.foldl LogHost.perform (.opened log)).Faithful := by
  have hregular : (LogHost.opened log).Regular := LogStore.regular_of_open hv hopen
  exact (hregular.run events hrange).faithful

theorem log_faithful_suffix
    : ([.call (.append [⟨1, 1, [1]⟩, ⟨1, 2, [2]⟩, ⟨2, 3, []⟩]), .call (.putSnapshot 2 1 [7]),
        .call (.append [⟨2, 4, [4]⟩, ⟨2, 6, []⟩]), .close, .open .always, .call (.discardFrom 4),
        .call (.append [⟨3, 4, [5]⟩])].foldl LogHost.perform (.opened (LogStore.fresh .never []))).Faithful :=
  log_faithful Volume.sound_empty (LogStore.open_empty .never) _ (by decide)

end ReplicatedStore
