import ReplicatedStore.Proofs.Storage.Opening

/-!
A directory whose steps may fail: a save of the hard state that fails leaves the old one, and a step on
another file leaves it as well.
-/

namespace ReplicatedStore

namespace Volume

def calmed (v : Volume) : Volume :=
  { v with plan := [] }

def IsHard (name : String) : Prop :=
  name = HardState.fileName ∨ name = Disk.temporary HardState.fileName

structure Apart (v : Volume) (id : Nat) : Prop where
  lt : id < v.nextId
  ne : ∀ name file, IsHard name → v.find? name = some (.file file) → file.id ≠ id

structure Guards (v : Volume) (hard : HardState) : Prop where
  sound : v.calmed.Sound
  fits : hard.Fits
  file : v.Holds HardState.fileName (some hard.encode) ∨
    hard = {} ∧ v.Holds HardState.fileName none

structure Spares (v v' : Volume) : Prop where
  sound : v'.calmed.Sound
  kept : v'.find? HardState.fileName = v.find? HardState.fileName
  apart : ∀ id, v.Apart id → v'.Apart id

variable {v v' v'' : Volume} {name source target : String} {file : StoredFile} {hard : HardState} {id : Nat}

theorem calmed_eq (hcalm : v.plan = []) : v.calmed = v := by
  unfold calmed
  rw [← hcalm]

theorem calm_of_suffix {plan plan' : List (Option Fault)} (h : plan' <:+ plan) (hcalm : plan = [])
    : plan' = [] := by
  rw [hcalm] at h
  exact List.suffix_nil.1 h

theorem Spares.refl (hv : v.calmed.Sound) : v.Spares v where
  sound := hv
  kept := rfl
  apart _ h := h

theorem Spares.trans (h : v.Spares v') (h' : v'.Spares v'') : v.Spares v'' where
  sound := h'.sound
  kept := h'.kept.trans h.kept
  apart id ha := h'.apart id (h.apart id ha)

theorem Spares.ends {α : Type} {Q : α → Volume → Prop} {r : EStateM.Result Error Volume α}
    (h : v.Spares v') (hr : EStateM.Ends (v'.Spares ·) Q r)
    : EStateM.Ends (v.Spares ·) Q r := by
  apply hr.imp
  . exact fun _ h' => h.trans h'
  . exact fun _ _ _ hq => hq

theorem Guards.spares (hg : v.Guards hard) (h : v.Spares v') : v'.Guards hard where
  sound := h.sound
  fits := hg.fits
  file := hg.file.imp (·.of_eq h.kept) (And.imp_right (·.of_eq h.kept))

theorem guards_empty : ({} : Volume).Guards {} where
  sound := sound_empty
  fits := stores_empty.hardFits
  file := .inr ⟨rfl, holds_empty _⟩

theorem Guards.crash (hg : v.Guards hard) : v.crash.Guards hard where
  sound := hg.sound.crash
  fits := hg.fits
  file := hg.file.imp (·.crash) (And.imp_right (·.crash))

theorem spares_plan (hv : v.calmed.Sound) (plan : List (Option Fault))
    : v.Spares { v with plan } where
  sound := hv
  kept := rfl
  apart _ h := ⟨h.lt, h.ne⟩

theorem apart_of_find? (hv : v.calmed.Sound) (h : v.find? name = some (.file file))
    (hname : ¬ IsHard name)
    : v.Apart file.id where
  lt := by
    obtain ⟨_, heq, hlt⟩ := hv.found h
    cases heq
    exact hlt
  ne name' file' hhard hfile heq := by
    have hsame : name' = name := hv.distinct hfile h heq
    rw [hsame] at hhard
    exact hname hhard

theorem Apart.ne_hard (h : v.Apart id) (hfile : v.find? HardState.fileName = some (.file file))
    : file.id ≠ id :=
  h.ne _ file (.inl rfl) hfile

theorem find?_updateFile_file {f : StoredFile → StoredFile} (hf : ∀ file, (f file).id = file.id)
    (h : (v.updateFile id f).find? name = some (.file file))
    : ∃ file', v.find? name = some (.file file') ∧ file'.id = file.id := by
  rw [find?_updateFile] at h
  cases hentry : v.find? name with
  | none =>
    rw [hentry] at h
    cases h
  | some entry =>
    rw [hentry] at h
    cases entry with
    | directory => cases h
    | file file' =>
      refine ⟨file', rfl, ?_⟩
      simp only [Option.map_some, updateEntry, Option.some.injEq, VolumeEntry.file.injEq] at h
      split at h
      . rw [← h, hf]
      . rw [h]

theorem sound_updateFile {f : StoredFile → StoredFile} (hv : v.calmed.Sound)
    (hf : ∀ file, (f file).id = file.id)
    : (v.updateFile id f).calmed.Sound where
  calm := rfl
  found {name entry} h := by
    change (v.updateFile id f).find? name = some entry at h
    rw [find?_updateFile] at h
    obtain ⟨entry', hentry, rfl⟩ := Option.map_eq_some_iff.1 h
    obtain ⟨file, rfl, hlt⟩ := hv.found hentry
    refine ⟨_, rfl, ?_⟩
    split
    . rw [hf]
      exact hlt
    . exact hlt
  distinct ha hb heq := by
    obtain ⟨_, ha', hid⟩ := find?_updateFile_file hf ha
    obtain ⟨_, hb', hid'⟩ := find?_updateFile_file hf hb
    exact hv.distinct ha' hb' (by omega)

theorem spares_updateFile {f : StoredFile → StoredFile} (hv : v.calmed.Sound)
    (hf : ∀ file, (f file).id = file.id)
    (hid : ∀ file, v.find? HardState.fileName = some (.file file) → file.id ≠ id)
    : v.Spares (v.updateFile id f) where
  sound := sound_updateFile hv hf
  kept := by
    rw [find?_updateFile]
    cases hentry : v.find? HardState.fileName with
    | none => rfl
    | some entry =>
      obtain ⟨file, rfl, -⟩ := hv.found hentry
      simp [updateEntry, hid file hentry]
  apart id' h := by
    refine ⟨h.lt, ?_⟩
    intro name file hhard hfile
    obtain ⟨file', hfile', heq⟩ := find?_updateFile_file hf hfile
    rw [← heq]
    exact h.ne name file' hhard hfile'

theorem spares_new (hv : v.calmed.Sound) (hname : name ≠ HardState.fileName)
    : v.Spares ({ v with nextId := v.nextId + 1 }.put name (.file ⟨v.nextId, [], []⟩)) where
  sound := (hv.sets_new [] []).sound
  kept := find?_put_of_ne _ _ hname.symm
  apart id h := by
    refine ⟨Nat.lt_succ_of_lt h.lt, ?_⟩
    intro name' file hhard hfile
    by_cases heq : name' = name
    . rw [heq, find?_put_self] at hfile
      cases hfile
      exact Nat.ne_of_gt h.lt
    . rw [find?_put_of_ne _ _ heq] at hfile
      exact h.ne name' file hhard hfile

theorem spares_move (hv : v.calmed.Sound) (h : v.find? source = some (.file file))
    (hsource : ¬ IsHard source) (htarget : ¬ IsHard target)
    : v.Spares ((v.without source).put target (.file file)) := by
  have hkept : ∀ name, IsHard name →
      ((v.without source).put target (.file file)).find? name = v.find? name := by
    intro name hhard
    rw [find?_put_of_ne, find?_without_of_ne]
    . rintro rfl
      exact hsource hhard
    . rintro rfl
      exact htarget hhard
  refine ⟨(hv.sets_move h).sound, hkept _ (.inl rfl), ?_⟩
  intro id ha
  refine ⟨ha.lt, ?_⟩
  intro name file' hhard hfile
  rw [hkept name hhard] at hfile
  exact ha.ne name file' hhard hfile

end Volume

namespace Disk

open Volume

variable {v : Volume} {name source target : String} {file : StoredFile} {hard : HardState} {id : Nat}

theorem nextFault_cases (hv : v.calmed.Sound)
    : ∃ fault w, nextFault v = .ok fault w ∧ v.Spares w ∧ w.find? = v.find? := by
  unfold nextFault
  cases v with
  | mk entries nextId plan =>
    cases plan with
    | nil => exact ⟨none, _, rfl, .refl hv, rfl⟩
    | cons fault rest => exact ⟨fault, _, rfl, spares_plan hv rest, rfl⟩

theorem attempt_cases (hv : v.calmed.Sound)
    : ∃ w, v.Spares w ∧ w.find? = v.find? ∧
        (attempt v = .ok () w ∨ attempt v = .error failed w) := by
  obtain ⟨fault, w, hnext, hspares, hfind⟩ := nextFault_cases hv
  refine ⟨w, hspares, hfind, ?_⟩
  unfold attempt
  rw [EStateM.bind_of_ok hnext]
  cases fault with
  | none => exact .inl rfl
  | some fault => exact .inr rfl

theorem ends_create (hv : v.calmed.Sound) (hname : name ≠ HardState.fileName)
    : EStateM.Ends (v.Spares ·)
        (fun id v' => ∃ durable, v'.find? name = some (.file ⟨id, [], durable⟩))
        (create name v) := by
  unfold create
  obtain ⟨w, hspares, hfind, hok | herror⟩ := attempt_cases hv
  . rw [EStateM.bind_of_ok hok, EStateM.bind_get]
    cases hentry : w.find? name with
    | none => exact ⟨hspares.trans (spares_new hspares.sound hname), [], find?_put_self _ _ _⟩
    | some entry =>
      obtain ⟨file, rfl, -⟩ := hspares.sound.found hentry
      refine ⟨hspares.trans (spares_updateFile hspares.sound (fun _ => rfl) ?_), file.durable, ?_⟩
      . intro file' hfile heq
        exact hname.symm (hspares.sound.distinct hfile hentry heq)
      . rw [find?_updateFile, hentry]
        simp [updateEntry]
  . rw [EStateM.bind_of_error herror]
    exact hspares

theorem ends_append (hv : v.calmed.Sound) (bytes : Bytes)
    (hid : ∀ file, v.find? HardState.fileName = some (.file file) → file.id ≠ id)
    : EStateM.Ends (v.Spares ·)
        (fun result v' => result.2 = none → ∀ name file, v.find? name = some (.file file) → file.id = id →
          v'.find? name = some (.file { file with content := file.content ++ bytes }))
        (append id bytes v) := by
  unfold append
  obtain ⟨fault, w, hnext, hspares, hfind⟩ := nextFault_cases hv
  rw [← hfind] at hid ⊢
  rw [EStateM.bind_of_ok hnext, EStateM.bind_modify]
  refine ⟨hspares.trans (spares_updateFile hspares.sound (fun _ => rfl) hid), ?_⟩
  intro hwhole name file hfile heq
  rw [find?_updateFile, hfile]
  cases fault with
  | none => simp [updateEntry, heq]
  | some fault =>
    have hle : bytes.length ≤ min fault.stored bytes.length := by simpa using hwhole
    have hle := Nat.le_trans hle (Nat.min_le_left _ _)
    simp [updateEntry, heq, hle]

theorem ends_sync (hv : v.calmed.Sound)
    (hid : ∀ file, v.find? HardState.fileName = some (.file file) → file.id ≠ id)
    : EStateM.Ends (v.Spares ·)
        (fun _ v' => ∀ name file, v.find? name = some (.file file) → file.id = id →
          v'.find? name = some (.file { file with durable := file.content }))
        (sync id v) := by
  unfold sync
  obtain ⟨w, hspares, hfind, hok | herror⟩ := attempt_cases hv
  . rw [← hfind] at hid ⊢
    rw [EStateM.bind_of_ok hok]
    refine ⟨hspares.trans (spares_updateFile hspares.sound (fun _ => rfl) hid), ?_⟩
    intro name file hfile heq
    rw [find?_updateFile, hfile]
    simp [updateEntry, heq]
  . rw [EStateM.bind_of_error herror]
    exact hspares

theorem ends_setLength (hv : v.calmed.Sound) (length : Nat)
    (hid : ∀ file, v.find? HardState.fileName = some (.file file) → file.id ≠ id)
    : EStateM.Ends (v.Spares ·) (fun _ _ => True) (setLength id length v) := by
  unfold setLength
  obtain ⟨w, hspares, hfind, hok | herror⟩ := attempt_cases hv
  . rw [← hfind] at hid
    rw [EStateM.bind_of_ok hok]
    exact ⟨hspares.trans (spares_updateFile hspares.sound (fun _ => rfl) hid), trivial⟩
  . rw [EStateM.bind_of_error herror]
    exact hspares

theorem ends_openOrCreate (hv : v.calmed.Sound) (hname : ¬ IsHard name)
    : EStateM.Ends (v.Spares ·) (fun id v' => v'.Apart id) (openOrCreate name v) := by
  unfold openOrCreate
  obtain ⟨w, hspares, hfind, hok | herror⟩ := attempt_cases hv
  . rw [EStateM.bind_of_ok hok, EStateM.bind_get]
    cases hentry : w.find? name with
    | none =>
      have hnew := spares_new hspares.sound (show name ≠ HardState.fileName from fun h => hname (.inl h))
      exact ⟨hspares.trans hnew, apart_of_find? hnew.sound (find?_put_self _ _ _) hname⟩
    | some entry =>
      obtain ⟨file, rfl, -⟩ := hspares.sound.found hentry
      exact ⟨hspares, apart_of_find? hspares.sound hentry hname⟩
  . rw [EStateM.bind_of_error herror]
    exact hspares

theorem ends_openExisting (hv : v.calmed.Sound) (hname : ¬ IsHard name)
    : EStateM.Ends (v.Spares ·) (fun id v' => v'.Apart id) (openExisting name v) := by
  unfold openExisting
  obtain ⟨w, hspares, hfind, hok | herror⟩ := attempt_cases hv
  . rw [EStateM.bind_of_ok hok, EStateM.bind_get]
    cases hentry : w.find? name with
    | none => exact hspares
    | some entry =>
      obtain ⟨file, rfl, -⟩ := hspares.sound.found hentry
      exact ⟨hspares, apart_of_find? hspares.sound hentry hname⟩
  . rw [EStateM.bind_of_error herror]
    exact hspares

theorem rename_cases (hv : v.calmed.Sound) (h : v.find? source = some (.file file)) (target : String)
    : ∃ w, v.Spares w ∧ w.find? = v.find? ∧
        (rename source target v = .ok () ((w.without source).put target (.file file)) ∨
          rename source target v = .error failed w) := by
  obtain ⟨w, hspares, hfind, hok | herror⟩ := attempt_cases hv
  . refine ⟨w, hspares, hfind, .inl ?_⟩
    unfold rename
    rw [← hfind] at h
    rw [EStateM.bind_of_ok hok, EStateM.bind_get, EStateM.bind_get, h]
    cases hentry : w.find? target with
    | none => rfl
    | some entry =>
      obtain ⟨_, rfl, -⟩ := hspares.sound.found hentry
      rfl
  . refine ⟨w, hspares, hfind, .inr ?_⟩
    unfold rename
    rw [EStateM.bind_of_error herror]

theorem replace_cases (hv : v.calmed.Sound) (name : String) (content : Bytes)
    (hname : temporary name ≠ HardState.fileName)
    : ∃ w, v.Spares w ∧ ((∃ e, replace name content v = .error e w) ∨
        ∃ id, w.find? (temporary name) = some (.file ⟨id, content, content⟩) ∧
          replace name content v
            = .ok () ((w.without (temporary name)).put name (.file ⟨id, content, content⟩))) := by
  have hcreate := ends_create hv hname
  cases hresult : create (temporary name) v with
  | error e w =>
    rw [hresult] at hcreate
    exact ⟨w, hcreate, .inl ⟨e, EStateM.bind_of_error hresult⟩⟩
  | ok id w₁ =>
    rw [hresult] at hcreate
    obtain ⟨hspares₁, durable, hfile₁⟩ := hcreate
    unfold replace
    rw [EStateM.bind_of_ok hresult]
    -- no two names share a file, so the saved vote is not written to
    have hid₁ : ∀ file, w₁.find? HardState.fileName = some (.file file) → file.id ≠ id := by
      intro file hfile heq
      exact hname.symm (hspares₁.sound.distinct hfile hfile₁ heq)
    have happend := ends_append hspares₁.sound content hid₁
    cases hresult : append id content w₁ with
    | error e w₂ =>
      rw [hresult] at happend
      exact ⟨w₂, hspares₁.trans happend, .inl ⟨e, EStateM.bind_of_error hresult⟩⟩
    | ok result w₂ =>
      rw [hresult] at happend
      obtain ⟨hspares₂, hcontent⟩ := happend
      rw [EStateM.bind_of_ok hresult]
      obtain ⟨stored, fault⟩ := result
      cases fault with
      | some e => exact ⟨w₂, hspares₁.trans hspares₂, .inl ⟨e, rfl⟩⟩
      | none =>
        have hfile₂ := hcontent rfl _ _ hfile₁ rfl
        dsimp only at hfile₂ ⊢
        have hid₂ : ∀ file, w₂.find? HardState.fileName = some (.file file) → file.id ≠ id := by
          intro file hfile heq
          exact hname.symm (hspares₂.sound.distinct hfile hfile₂ heq)
        have hsync := ends_sync hspares₂.sound hid₂
        cases hresult : sync id w₂ with
        | error e w₃ =>
          rw [hresult] at hsync
          exact ⟨w₃, hspares₁.trans (hspares₂.trans hsync), .inl ⟨e, EStateM.bind_of_error hresult⟩⟩
        | ok _ w₃ =>
          rw [hresult] at hsync
          obtain ⟨hspares₃, hdurable⟩ := hsync
          rw [EStateM.bind_of_ok hresult]
          have hfile₃ := hdurable _ _ hfile₂ rfl
          obtain ⟨w, hspares, hfind, hok | herror⟩ := rename_cases hspares₃.sound hfile₃ name
          . refine ⟨w, hspares₁.trans (hspares₂.trans (hspares₃.trans hspares)), .inr ⟨id, ?_, hok⟩⟩
            rw [hfind]
            exact hfile₃
          . exact ⟨w, hspares₁.trans (hspares₂.trans (hspares₃.trans hspares)), .inl ⟨_, herror⟩⟩

theorem ends_replace (hv : v.calmed.Sound) (content : Bytes) (hname : ¬ IsHard name)
    (htemporary : ¬ IsHard (temporary name))
    : EStateM.Ends (v.Spares ·) (fun _ _ => True) (replace name content v) := by
  obtain ⟨w, hspares, ⟨e, herror⟩ | ⟨id, hfile, hok⟩⟩ :=
    replace_cases hv name content fun h => htemporary (.inl h)
  . rw [herror]
    exact hspares
  . rw [hok]
    exact ⟨hspares.trans (spares_move hspares.sound hfile htemporary hname), trivial⟩

end Disk

namespace HardState

open Volume

variable {v : Volume} {hard next : HardState}

theorem ends_save (hg : v.Guards hard) (hfit : next.Fits)
    : EStateM.Ends (fun v' => ∀ id, v.Apart id → v'.Apart id) (fun _ v' => v'.Guards next) (save next v) ∧
        ∀ e v', save next v = .error e v' → v'.Guards hard := by
  obtain ⟨w, hspares, ⟨e, herror⟩ | ⟨id, hfile, hok⟩⟩ :=
    Disk.replace_cases hg.sound fileName next.encode (by decide)
  . unfold save
    rw [herror]
    refine ⟨hspares.apart, ?_⟩
    rintro _ _ ⟨⟩
    exact hg.spares hspares
  . unfold save
    rw [hok]
    have hself := find?_put_self (w.without (Disk.temporary fileName)) fileName
      (.file ⟨id, next.encode, next.encode⟩)
    refine ⟨⟨?_, (hspares.sound.sets_move hfile).sound, hfit, .inl ⟨id, hself⟩⟩, ?_⟩
    . intro id' ha
      have ha := hspares.apart id' ha
      refine ⟨ha.lt, ?_⟩
      intro name file hhard hname
      by_cases heq : name = fileName
      . rw [heq, hself] at hname
        cases hname
        exact ha.ne _ _ (.inr rfl) hfile
      . rw [find?_put_of_ne _ _ heq] at hname
        by_cases heq' : name = Disk.temporary fileName
        . rw [heq', find?_without_self] at hname
          cases hname
        . rw [find?_without_of_ne _ heq'] at hname
          exact ha.ne name file hhard hname
    . rintro _ _ ⟨⟩

end HardState

end ReplicatedStore
