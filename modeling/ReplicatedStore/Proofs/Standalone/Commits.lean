import ReplicatedStore.Proofs.KeySpace.Conflicts
import ReplicatedStore.Proofs.KeySpace.Overlay
import ReplicatedStore.StandaloneStore

/-!
Commits on a standalone store: what a commit checks, and what it makes of the store's map, version and
memory of earlier commits.
-/

namespace ReplicatedStore

namespace StandaloneStore

variable {store store' : StandaloneStore} {base : Nat} {reads : KeyRanges} {writes : WriteSet}

def inMemory (store : StandaloneStore) : StandaloneStore :=
  { store with journal := none }

def advance (store : StandaloneStore) (writes : WriteSet) : StandaloneStore :=
  { store with map := writes.performOn store.map, version := store.version + 1 }.remember
    (store.version + 1) writes.touched

def refusal? (store : StandaloneStore) (base : Nat) (reads : KeyRanges) : Option Error :=
  if base < store.oldestBase ∧ !reads.isEmpty then
    some (.conflict s!"transaction base version {base} is too old to validate")
  else (store.firstConflict? base reads).map fun version =>
    .conflict s!"read set overlaps commit at version {version}"

theorem onJournal_inMemory (operation : LogM Unit) (store : StandaloneStore)
    : EStateM.Ends (fun s => s.inMemory = store.inMemory) (fun _ _ => True) (onJournal operation store) := by
  unfold onJournal
  cases hjournal : store.journal with
  | none => exact ⟨rfl, trivial⟩
  | some journal =>
    dsimp only
    cases operation journal with
    | ok u journal => exact ⟨rfl, trivial⟩
    | error e journal => rfl

theorem version_of_inMemory (h : store.inMemory = store'.inMemory) : store.version = store'.version := by
  have : store.inMemory.version = store'.inMemory.version := by rw [h]
  exact this

theorem compact_inMemory (store : StandaloneStore)
    : ∃ store', compact store = .ok () store' ∧ store'.inMemory = store.inMemory := by
  unfold compact
  rw [EStateM.bind_get]
  split
  . have hmemory := onJournal_inMemory (LogStore.putSnapshot store.version entryTerm store.map.encode) store
    cases hjournal : onJournal (LogStore.putSnapshot store.version entryTerm store.map.encode) store with
    | ok u s =>
      rw [hjournal] at hmemory
      refine ⟨s, ?_, hmemory.1⟩
      simp only [tryCatch, tryCatchThe, MonadExceptOf.tryCatch, EStateM.tryCatch, hjournal]
    | error e s =>
      rw [hjournal] at hmemory
      refine ⟨s, ?_, hmemory⟩
      simp only [tryCatch, tryCatchThe, MonadExceptOf.tryCatch, EStateM.tryCatch, hjournal]
      rfl
  . exact ⟨store, rfl, rfl⟩

theorem commit_eq (base : Nat) (reads : KeyRanges) (writes : WriteSet) (store : StandaloneStore)
    : commit base reads writes store
        =
      match store.refusal? base reads with
      | some e => .error e store
      | none =>
        if writes.isEmpty then .ok () store
        else
          match onJournal (LogStore.append [⟨entryTerm, store.version + 1, writes.encode⟩]) store with
          | .error e store => .error e store
          | .ok _ store => compact (store.advance writes) := by
  unfold commit refusal?
  rw [EStateM.bind_get]
  by_cases hold : base < store.oldestBase ∧ (!reads.isEmpty) = true
  . rw [if_pos hold, if_pos hold]
    rfl
  . rw [if_neg hold, if_neg hold]
    cases hconflict : store.firstConflict? base reads with
    | some version => rfl
    | none =>
      dsimp only [Option.map_none]
      split
      . rfl
      . have hmemory :=
          onJournal_inMemory (LogStore.append [⟨entryTerm, store.version + 1, writes.encode⟩]) store
        cases hjournal :
            onJournal (LogStore.append [⟨entryTerm, store.version + 1, writes.encode⟩]) store with
        | error e s => exact EStateM.bind_of_error hjournal
        | ok u s =>
          rw [hjournal] at hmemory
          have hversion : s.version = store.version := version_of_inMemory hmemory.1
          rw [EStateM.bind_of_ok hjournal, EStateM.bind_modify, ← hversion]
          rfl

structure Admits (store : StandaloneStore) (base : Nat) (reads : KeyRanges) : Prop where
  remembered : store.oldestBase ≤ base ∨ reads.isEmpty = true
  apart : ∀ commit ∈ store.history, base < commit.1 → commit.2.meets reads = false

theorem admits_of_refusal? (h : store.refusal? base reads = none) : store.Admits base reads := by
  unfold refusal? firstConflict? at h
  split at h
  . cases h
  . next hrecent =>
    rw [Option.map_map, Option.map_eq_none_iff, List.find?_eq_none] at h
    constructor
    . rcases Nat.lt_or_ge base store.oldestBase with hlt | hge
      . refine .inr ?_
        rw [← Bool.not_eq_false, ← Bool.not_eq_true']
        exact fun hreads => hrecent ⟨hlt, hreads⟩
      . exact .inl hge
    . intro commit hcommit hlt
      rw [← Bool.not_eq_true]
      intro hmeets
      apply h commit hcommit
      simpa [hlt] using hmeets

theorem commit_inMemory (base : Nat) (reads : KeyRanges) (writes : WriteSet) (store : StandaloneStore)
    : match commit base reads writes store with
      | .error _ s => s.inMemory = store.inMemory
      | .ok _ s =>
        store.Admits base reads ∧
          s.inMemory = (if writes.isEmpty then store else store.advance writes).inMemory := by
  rw [commit_eq]
  cases hrefusal : store.refusal? base reads with
  | some e => rfl
  | none =>
    have hadmits := admits_of_refusal? hrefusal
    dsimp only
    by_cases hempty : writes.isEmpty = true
    . rw [if_pos hempty, if_pos hempty]
      exact ⟨hadmits, rfl⟩
    . rw [if_neg hempty, if_neg hempty]
      have hmemory :=
        onJournal_inMemory (LogStore.append [⟨entryTerm, store.version + 1, writes.encode⟩]) store
      cases hjournal : onJournal (LogStore.append [⟨entryTerm, store.version + 1, writes.encode⟩]) store with
      | error e s =>
        rw [hjournal] at hmemory
        exact hmemory
      | ok u s =>
        rw [hjournal] at hmemory
        obtain ⟨s', hcompact, hsame⟩ := compact_inMemory (s.advance writes)
        dsimp only
        rw [hcompact]
        refine ⟨hadmits, hsame.trans ?_⟩
        have hadvance : ∀ x : StandaloneStore,
            (x.advance writes).inMemory = (x.inMemory.advance writes).inMemory := fun _ => rfl
        rw [hadvance, hmemory.1, ← hadvance]

end StandaloneStore

end ReplicatedStore
