import ReplicatedStore.Proofs.Storage.Durability

/-!
One call on a log that stands. If it succeeds the log stands again; if it fails, a loss of power would still
leave what it would have left before, up to the first entry that was added.
-/

namespace ReplicatedStore

namespace LogStore

variable {log log' log'' : LogStore} {snapshot : Option Snapshot} {e : LogEntry}

theorem termAt?_of_mem (hfollows : Follows log.snapshotIndex log.entries) (he : e ∈ log.entries)
    : log.termAt? e.index = some e.term := by
  have hlt : log.snapshotIndex < e.index := hfollows.lt_of_mem he
  unfold termAt?
  rw [if_neg (by omega), if_neg (by omega), get?_of_mem hfollows he]
  rfl

theorem mem_of_termAt? (hfollows : Follows log.snapshotIndex log.entries) {index term : Nat}
    (hlt : log.snapshotIndex < index) (hterm : log.termAt? index = some term)
    : ∃ e ∈ log.entries, e.index = index ∧ e.term = term := by
  unfold termAt? get? at hterm
  rw [if_neg (by omega), if_neg (by omega), if_neg (by omega)] at hterm
  obtain ⟨e, he, rfl⟩ := Option.map_eq_some_iff.1 hterm
  obtain ⟨hposition, rfl⟩ := List.getElem?_eq_some_iff.1 he
  refine ⟨_, List.getElem_mem hposition, ?_, rfl⟩
  rw [hfollows.index_eq hposition]
  unfold position
  omega

structure Moves (snapshot : Option Snapshot) (log log' : LogStore) : Prop where
  standing : log'.Standing
  knows : log'.Knows snapshot
  turns : log.Turns log'

structure Falters (log log' : LogStore) : Prop where
  standing : log'.Aligned → log'.Standing
  lasts : ∀ e ∈ log'.entries, (∀ e' ∈ log'.entries, e'.index ≤ e.index → e' ∈ log.entries) →
    Lasts log.disk e → Lasts log'.disk e

theorem Moves.refl (h : log.Standing) (hk : log.Knows snapshot) : Moves snapshot log log where
  standing := h
  knows := hk
  turns := .carried rfl fun _ h => h

theorem Moves.trans (h : Moves snapshot log log') (h' : Moves snapshot log' log'')
    : Moves snapshot log log'' where
  standing := h'.standing
  knows := h'.knows
  turns := h.turns.trans h'.turns

theorem Keeps.moves {records : List LogEntry} {durable : Bytes} (h : log.Keeps log') (hs : log.Standing)
    (hk : log.Knows snapshot) (hcoherent : log'.Coherent records durable) (hturns : log.Turns log')
    : Moves snapshot log log' where
  standing := by
    obtain ⟨content, hholds⟩ := hs.settled
    exact ⟨⟨records, durable, hcoherent⟩, ⟨content, hholds.of_eq h.snapshot⟩, h.policy.trans hs.always⟩
  knows := h.knows hk
  turns := hturns

theorem Moves.falters (h : Moves snapshot log log') : log.Falters log' where
  standing _ := h.standing
  lasts _ he _ hlasts := h.turns.lasts hlasts he

theorem Moves.falters_trans (h : Moves snapshot log log') (hsame : log'.entries = log.entries)
    (h' : log'.Falters log'')
    : log.Falters log'' where
  standing := h'.standing
  lasts e he hheld hlasts := by
    rw [← hsame] at hheld
    exact h'.lasts e he hheld (h.turns.lasts hlasts (hheld e he (Nat.le_refl _)))

theorem Standing.yields_append {added : List LogEntry} (h : log.Standing) (hk : log.Knows snapshot)
    (hrange : ∀ e ∈ added, e.InRange)
    : EStateM.Yields (fun _ log' => Moves snapshot log log')
        (fun log' => (log'.Aligned → log'.Standing) ∧ (∀ e, Lasts log.disk e → Lasts log'.disk e) ∧
          Follows log'.snapshotIndex log'.entries ∧ ∃ n, log'.entries = log.entries ++ added.take n)
        (append added log) := by
  obtain ⟨records, durable, hcoherent⟩ := h.coherent
  have happend := yields_appendEntries hcoherent hrange
  have hlasts := yields_append_lasts hcoherent h.settled hk h.always hrange
  cases hresult : append added log with
  | ok _ log' =>
    rw [hresult] at happend hlasts
    obtain ⟨hextends, -, durable', hcoherent', -⟩ := happend
    rcases hlasts with ⟨-, rfl⟩ | hforced
    . exact .refl h hk
    . exact hextends.toKeeps.moves h hk hcoherent' (.forced hforced)
  | error _ log' =>
    rw [hresult] at happend hlasts
    obtain ⟨n, hextends, hstands, -⟩ := happend
    refine ⟨?_, hlasts, hstands.follows, n, hextends.entries⟩
    intro haligned
    have hpasses := hextends.toKeeps.passes fun hwhole => ⟨_, _, hstands.coherent hwhole⟩
    exact hpasses.standing h haligned

theorem Standing.yields_discardFrom (h : log.Standing) (hk : log.Knows snapshot) (index : Nat)
    : EStateM.Yields (fun _ log' => Moves snapshot log log') (fun log' => log.Falters log')
        (discardFrom index log) := by
  obtain ⟨records, durable, hcoherent⟩ := h.coherent
  apply (LogStore.yields_discardFrom hcoherent index).imp
  . rintro _ log' ⟨hdiscards, ⟨records', durable', hcoherent'⟩, -⟩
    exact hdiscards.toKeeps.moves h hk hcoherent' (hdiscards.turns hcoherent h.settled hk)
  . rintro log' ⟨hdiscards, -⟩
    have hturns := hdiscards.turns hcoherent h.settled hk
    exact ⟨hdiscards.passes.standing h, fun e he _ hlasts => hturns.lasts hlasts he⟩

theorem Standing.after_putSnapshot (h : log.Standing) (hk : log.Knows snapshot) {data : Bytes}
    (he : e ∈ log.entries) (hin : (log.after (.putSnapshot e.index e.term data)).InStep)
    : (log.after (.putSnapshot e.index e.term data)).Standing ∧
        log.Turns (log.after (.putSnapshot e.index e.term data)) := by
  obtain ⟨records, durable, hcoherent⟩ := h.coherent
  have hentry := hcoherent.entry_fits he
  have hfits : Snapshot.Fits ⟨e.index, e.term, data⟩ := ⟨hentry.index, hentry.term⟩
  have hinstalls : log.Installs (log.after (.putSnapshot e.index e.term data)) e.index e.term data records
      durable :=
    after_of_yields (P := fun log' => log.Installs log' e.index e.term data records durable)
      ((yields_putSnapshot hcoherent e.index e.term data).imp (fun _ _ h => h.1) fun _ h => h.1)
  -- what is in the directory is read, so its data is not too long
  have hdata : (log.after (.putSnapshot e.index e.term data)).disk.Holds snapshotName
      (some (Snapshot.encode ⟨e.index, e.term, data⟩)) → data.length < 2 ^ 64 := by
    intro hholds
    obtain ⟨read, hread⟩ := hin.knows
    apply Decidable.byContradiction
    intro hlong
    have hfails := readSnapshot_encode hfits hholds
    rw [if_neg hlong, hread.reads] at hfails
    cases hfails
  exact ⟨(hinstalls.passes hfits hdata).standing h hin.aligned, hinstalls.turns hcoherent hk hfits hdata⟩

end LogStore

end ReplicatedStore
