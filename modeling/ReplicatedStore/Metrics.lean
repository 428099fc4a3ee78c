import ReplicatedStore.Binary64.Shortest

/-!
What a process counts and measures, and the text in which it is told to those who watch.
-/

namespace ReplicatedStore

inductive Counter where
  | electionsStarted
  | leadershipsWon
  | appendRejections
  | entriesCommitted
  | snapshotsInstalled
  | transactionsCommitted
  | transactionConflicts
  | commitTimeouts
  | fallbackTransitions
  | mergesFailed
  deriving DecidableEq, Repr

namespace Counter

def all : List Counter :=
  [electionsStarted, leadershipsWon, appendRejections, entriesCommitted, snapshotsInstalled,
    transactionsCommitted, transactionConflicts, commitTimeouts, fallbackTransitions, mergesFailed]

def name : Counter → String
  | electionsStarted => "elections_started_total"
  | leadershipsWon => "leaderships_won_total"
  | appendRejections => "append_rejections_total"
  | entriesCommitted => "entries_committed_total"
  | snapshotsInstalled => "snapshots_installed_total"
  | transactionsCommitted => "transactions_committed_total"
  | transactionConflicts => "transaction_conflicts_total"
  | commitTimeouts => "commit_timeouts_total"
  | fallbackTransitions => "fallback_transitions_total"
  | mergesFailed => "merges_failed_total"

def help : Counter → String
  | electionsStarted => "Elections started by this node"
  | leadershipsWon => "Elections won by this node"
  | appendRejections => "AppendEntries rejected by followers"
  | entriesCommitted => "Log entries applied to the state machine"
  | snapshotsInstalled => "Snapshots installed into the log store"
  | transactionsCommitted => "Transactions committed"
  | transactionConflicts => "Transactions rejected by conflict detection"
  | commitTimeouts => "Commits with indeterminate outcome"
  | fallbackTransitions => "Switches between replicated and standalone"
  | mergesFailed => "Failed fallback merges"

end Counter

inductive Gauge where
  | currentTerm
  | commitIndex
  | standaloneMode
  deriving DecidableEq, Repr

namespace Gauge

def all : List Gauge := [currentTerm, commitIndex, standaloneMode]

def name : Gauge → String
  | currentTerm => "current_term"
  | commitIndex => "commit_index"
  | standaloneMode => "standalone_mode"

def help : Gauge → String
  | currentTerm => "Current Raft term"
  | commitIndex => "Highest committed log index"
  | standaloneMode => "1 while running against the standalone store"

end Gauge

structure Histogram where
  buckets : List (Nat × Nat)
  above : Nat := 0
  sum : UInt64 := 0
  deriving DecidableEq, Repr, Inhabited

namespace Histogram

def ofBounds (bounds : List Nat) : Histogram :=
  { buckets := bounds.map fun bound => (bound, 0) }

def place (micros : Nat) : List (Nat × Nat) → Option (List (Nat × Nat))
  | [] => none
  | (bound, count) :: rest =>
    if micros ≤ 1000 * bound then some ((bound, count + 1) :: rest)
    else (place micros rest).map ((bound, count) :: ·)

def observe (histogram : Histogram) (micros : Nat) : Histogram :=
  let sum := histogram.sum + UInt64.ofNat micros
  match place micros histogram.buckets with
  | some buckets => { histogram with buckets, sum }
  | none => { histogram with above := histogram.above + 1, sum }

def count (histogram : Histogram) : Nat :=
  histogram.buckets.foldl (fun n (_, count) => n + count) histogram.above

def cumulative (histogram : Histogram) : List (Option Nat × Nat) :=
  go 0 histogram.buckets
where
  go (total : Nat) : List (Nat × Nat) → List (Option Nat × Nat)
    | [] => [(none, total + histogram.above)]
    | (bound, count) :: rest => (some bound, total + count) :: go (total + count) rest

def sumText (histogram : Histogram) : String :=
  ((Binary64.ofNat histogram.sum.toNat).divide 1000).text

end Histogram

structure Metrics where
  counters : Counter → Nat := fun _ => 0
  gauges : Gauge → Nat := fun _ => 0
  commits : Histogram := .ofBounds [1, 5, 10, 25, 50, 100, 250, 500, 1000, 5000]

namespace Metrics

def increment (metrics : Metrics) (counter : Counter) : Metrics :=
  { metrics with counters := fun c => if c = counter then metrics.counters c + 1 else metrics.counters c }

def set (metrics : Metrics) (gauge : Gauge) (value : Nat) : Metrics :=
  { metrics with gauges := fun g => if g = gauge then value else metrics.gauges g }

def observe (metrics : Metrics) (micros : Nat) : Metrics :=
  { metrics with commits := metrics.commits.observe micros }

def fullName (name : String) : String := "quorumkv_" ++ name

def heading (name help kind : String) : List String :=
  [s!"# HELP {fullName name} {help}", s!"# TYPE {fullName name} {kind}"]

def single (name help kind : String) (value : Nat) : List String :=
  heading name help kind ++ [s!"{fullName name} {value}"]

def histogramLines (name help : String) (histogram : Histogram) : List String :=
  heading name help "histogram" ++
  (histogram.cumulative.map fun (bound, count) =>
    let label := (bound.map fun bound => s!"{bound}").getD "+Inf"
    fullName name ++ "_bucket\x7ble=\"" ++ label ++ "\"\x7d " ++ s!"{count}") ++
  [s!"{fullName name}_sum {histogram.sumText}", s!"{fullName name}_count {histogram.count}"]

def lines (metrics : Metrics) (uptime : Nat) : List String :=
  (Counter.all.flatMap fun c => single c.name c.help "counter" (metrics.counters c)) ++
  single "uptime_seconds" "Process uptime in seconds" "counter" uptime ++
  (Gauge.all.flatMap fun g => single g.name g.help "gauge" (metrics.gauges g)) ++
  histogramLines "commit_duration_ms" "Commit latency in milliseconds" metrics.commits

def text (metrics : Metrics) (uptime : Nat) : String :=
  String.join ((metrics.lines uptime).map (· ++ "\n"))

end Metrics

end ReplicatedStore
