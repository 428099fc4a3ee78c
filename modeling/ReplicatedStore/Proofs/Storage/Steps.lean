import ReplicatedStore.Proofs.Storage.Faults

/-!
What one step makes of a directory when it may fail: the file it is about as it was to be, or as it was,
or with a part of what was to be written.
-/

namespace ReplicatedStore

namespace Volume

def passed (v : Volume) : Volume :=
  { v with plan := v.plan.tail }

structure Updates (v v' : Volume) (name : String) (file : StoredFile) : Prop where
  sound : v'.calmed.Sound
  plan : v'.plan <:+ v.plan
  self : v'.find? name = some (.file file)
  other : ∀ n, n ≠ name → v'.find? n = v.find? n

variable {v v' v'' : Volume} {name : String} {file file' : StoredFile} {f : StoredFile → StoredFile}

theorem Updates.trans (h : v.Updates v' name file) (h' : v'.Updates v'' name file')
    : v.Updates v'' name file' where
  sound := h'.sound
  plan := h'.plan.trans h.plan
  self := h'.self
  other n hn := (h'.other n hn).trans (h.other n hn)

theorem Updates.plan_ne (h : v.Updates v' name file) (hplan : v'.plan ≠ []) : v.plan ≠ [] :=
  h.plan.ne_nil hplan

theorem updates_passed (hv : v.calmed.Sound) (h : v.find? name = some (.file file))
    : v.Updates v.passed name file where
  sound := hv
  plan := List.tail_suffix _
  self := h
  other _ _ := rfl

theorem updates_updateFile (hv : v.calmed.Sound) (h : v.find? name = some (.file file))
    (hf : ∀ file, (f file).id = file.id)
    : v.Updates (v.passed.updateFile file.id f) name (f file) := by
  have hset : v.calmed.Sets (v.calmed.updateFile file.id f) name (f file) := hv.sets_updateFile h hf
  exact ⟨hset.sound, List.tail_suffix _, hset.self, hset.other⟩

end Volume

namespace Disk

open Volume

variable {v : Volume} {name : String} {file : StoredFile}

theorem nextFault_passes (v : Volume) : nextFault v = .ok v.plan.head?.join v.passed := by
  cases v with
  | mk entries nextId plan =>
    cases plan with
    | nil => rfl
    | cons fault rest => rfl

theorem yields_attempt (v : Volume)
    : EStateM.Yields (fun _ v' => v' = v.passed) (fun v' => v' = v.passed ∧ v.plan ≠ []) (attempt v) := by
  unfold attempt
  rw [EStateM.bind_of_ok (nextFault_passes v)]
  cases hplan : v.plan with
  | nil => exact rfl
  | cons fault rest =>
    cases fault with
    | none => exact rfl
    | some fault => exact ⟨rfl, by simp⟩

theorem yields_append (hv : v.calmed.Sound) (h : v.find? name = some (.file file)) (bytes : Bytes)
    : EStateM.Yields
        (fun result v' =>
          v.Updates v' name { file with content := file.content ++ bytes.take result.1 } ∧
            (result = (bytes.length, none) ∨
              result.1 < bytes.length ∧ result.2 = some failed ∧ v.plan ≠ []))
        (fun _ => False) (append file.id bytes v) := by
  have hupdates : ∀ stored, v.Updates (v.passed.updateFile file.id fun file =>
      { file with content := file.content ++ bytes.take stored }) name
      { file with content := file.content ++ bytes.take stored } :=
    fun stored => updates_updateFile hv h
      (f := fun file => { file with content := file.content ++ bytes.take stored }) fun _ => rfl
  unfold append
  rw [EStateM.bind_of_ok (nextFault_passes v)]
  cases hfault : v.plan.head?.join with
  | none =>
    refine ⟨hupdates _, .inl ?_⟩
    dsimp only
    rw [if_neg (Nat.lt_irrefl _)]
  | some fault =>
    refine ⟨hupdates _, ?_⟩
    dsimp only
    by_cases hlt : min fault.stored bytes.length < bytes.length
    . refine .inr ⟨hlt, if_pos hlt, ?_⟩
      intro hcalm
      rw [hcalm] at hfault
      cases hfault
    . rw [if_neg hlt]
      refine .inl (Prod.ext ?_ rfl)
      dsimp only
      omega

theorem yields_sync (hv : v.calmed.Sound) (h : v.find? name = some (.file file))
    : EStateM.Yields (fun _ v' => v.Updates v' name { file with durable := file.content })
        (fun v' => v.Updates v' name file ∧ v.plan ≠ []) (sync file.id v) := by
  unfold sync
  apply (yields_attempt v).bind
  . rintro _ ⟨rfl, hplan⟩
    exact ⟨updates_passed hv h, hplan⟩
  . rintro _ _ rfl
    exact updates_updateFile hv h (f := fun file => { file with durable := file.content }) fun _ => rfl

theorem yields_setLength (hv : v.calmed.Sound) (h : v.find? name = some (.file file)) {length : Nat}
    (hle : length ≤ file.content.length)
    : EStateM.Yields (fun _ v' => v.Updates v' name { file with content := file.content.take length })
        (fun v' => v.Updates v' name file ∧ v.plan ≠ []) (setLength file.id length v) := by
  let cut (file : StoredFile) : StoredFile :=
    { file with content :=
        file.content.take length ++ List.replicate (length - file.content.length) 0 }
  unfold setLength
  apply (yields_attempt v).bind
  . rintro _ ⟨rfl, hplan⟩
    exact ⟨updates_passed hv h, hplan⟩
  . rintro _ _ rfl
    have hupdates := updates_updateFile hv h (f := cut) fun _ => rfl
    rw [show cut file = { file with content := file.content.take length } by simp [cut, hle]] at hupdates
    exact hupdates

theorem yields_openExisting (hv : v.calmed.Sound) (h : v.find? name = some (.file file))
    : EStateM.Yields (fun id v' => id = file.id ∧ v.Updates v' name file)
        (fun v' => v.Updates v' name file ∧ v.plan ≠ []) (openExisting name v) := by
  have hfile : v.passed.find? name = some (.file file) := h
  unfold openExisting
  apply (yields_attempt v).bind
  . rintro _ ⟨rfl, hplan⟩
    exact ⟨updates_passed hv h, hplan⟩
  . rintro _ _ rfl
    rw [EStateM.bind_get, hfile]
    exact ⟨rfl, updates_passed hv h⟩

theorem updates_new (hv : v.calmed.Sound) (name : String)
    : v.Updates ({ v.passed with nextId := v.nextId + 1 }.put name (.file ⟨v.nextId, [], []⟩)) name
        ⟨v.nextId, [], []⟩ := by
  have hset : v.calmed.Sets
      ({ v.calmed with nextId := v.nextId + 1 }.put name (.file ⟨v.nextId, [], []⟩)) name
      ⟨v.nextId, [], []⟩ := hv.sets_new [] []
  exact ⟨hset.sound, List.tail_suffix _, hset.self, hset.other⟩

theorem yields_openOrCreate (hv : v.calmed.Sound) (name : String)
    : EStateM.Yields
        (fun id v' => ∃ file, id = file.id ∧ v.Updates v' name file ∧
          (v.find? name = some (.file file) ∨ v.find? name = none ∧ file.content = [] ∧ file.durable = []))
        (fun _ => v.plan ≠ []) (openOrCreate name v) := by
  unfold openOrCreate
  apply (yields_attempt v).bind
  . rintro _ ⟨-, hplan⟩
    exact hplan
  . rintro _ _ rfl
    rw [EStateM.bind_get]
    cases hentry : v.find? name with
    | none =>
      rw [show v.passed.find? name = none from hentry]
      exact ⟨⟨v.nextId, [], []⟩, rfl, updates_new hv name, .inr ⟨rfl, rfl, rfl⟩⟩
    | some entry =>
      obtain ⟨file, rfl, -⟩ := hv.found hentry
      rw [show v.passed.find? name = some (.file file) from hentry]
      exact ⟨file, rfl, updates_passed hv hentry, .inl rfl⟩

theorem yields_create (hv : v.calmed.Sound) (name : String)
    : EStateM.Yields (fun id v' => ∃ durable, v.Updates v' name ⟨id, [], durable⟩)
        (fun v' => v' = v.passed ∧ v.plan ≠ []) (create name v) := by
  unfold create
  apply (yields_attempt v).bind
  . exact fun _ h => h
  . rintro _ _ rfl
    rw [EStateM.bind_get]
    cases hentry : v.find? name with
    | none =>
      rw [show v.passed.find? name = none from hentry]
      exact ⟨[], updates_new hv name⟩
    | some entry =>
      obtain ⟨file, rfl, -⟩ := hv.found hentry
      rw [show v.passed.find? name = some (.file file) from hentry]
      exact ⟨file.durable, updates_updateFile hv hentry (f := fun file => { file with content := [] })
        fun _ => rfl⟩

theorem yields_rename (hv : v.calmed.Sound) {source : String} (h : v.find? source = some (.file file))
    (target : String)
    : EStateM.Yields (fun _ v' => v' = (v.passed.without source).put target (.file file))
        (fun v' => v.Updates v' source file ∧ v.plan ≠ []) (rename source target v) := by
  unfold rename
  apply (yields_attempt v).bind
  . rintro _ ⟨rfl, hplan⟩
    exact ⟨updates_passed hv h, hplan⟩
  . rintro _ _ rfl
    rw [EStateM.bind_get, EStateM.bind_get, show v.passed.find? source = some (.file file) from h]
    cases hentry : v.find? target with
    | none =>
      rw [show v.passed.find? target = none from hentry]
      exact rfl
    | some entry =>
      obtain ⟨old, rfl, -⟩ := hv.found hentry
      rw [show v.passed.find? target = some (.file old) from hentry]
      exact rfl

theorem ne_temporary (name : String) : name ≠ temporary name := by
  intro h
  have hlength := congrArg String.length h
  unfold temporary at hlength
  rw [String.length_append] at hlength
  exact absurd hlength (Nat.ne_of_lt (Nat.lt_add_of_pos_right (by decide)))

end Disk

namespace Volume

structure Touches (v v' : Volume) (name : String) : Prop where
  sound : v'.calmed.Sound
  plan : v'.plan <:+ v.plan
  other : ∀ n, n ≠ name → n ≠ Disk.temporary name → v'.find? n = v.find? n

theorem Updates.touches {v v' : Volume} {name : String} {file : StoredFile}
    (h : v.Updates v' (Disk.temporary name) file)
    : v.Touches v' name where
  sound := h.sound
  plan := h.plan
  other n _ hn := h.other n hn

end Volume

namespace Disk

open Volume

theorem yields_replace {v : Volume} (hv : v.calmed.Sound) (name : String) (content : Bytes)
    : EStateM.Yields (fun _ v' => v.Touches v' name ∧ v'.Holds name (some content))
        (fun v' => v.Touches v' name ∧ v'.find? name = v.find? name ∧ v.plan ≠ [])
        (replace name content v) := by
  have hfails : ∀ {v' : Volume} {file : StoredFile}, v.Updates v' (temporary name) file → v.plan ≠ [] →
      v.Touches v' name ∧ v'.find? name = v.find? name ∧ v.plan ≠ [] :=
    fun h hplan => ⟨h.touches, h.other name (ne_temporary name), hplan⟩
  unfold replace
  apply (yields_create hv (temporary name)).bind
  . rintro _ ⟨rfl, hplan⟩
    exact ⟨⟨hv, List.tail_suffix _, fun _ _ _ => rfl⟩, rfl, hplan⟩
  rintro id v₁ ⟨durable, h₁⟩
  apply (yields_append h₁.sound h₁.self content).bind
  . exact fun _ h => h.elim
  -- the old content stands until the last step, the rename
  rintro ⟨stored, fault⟩ v₂ ⟨h₂, hwhole | ⟨-, hfault, hplan⟩⟩
  . cases hwhole
    have h₂ := h₁.trans h₂
    dsimp only at h₂ ⊢
    rw [List.take_length, List.nil_append] at h₂
    apply (yields_sync h₂.sound h₂.self).bind
    . rintro v₃ ⟨h₃, hplan⟩
      exact hfails (h₂.trans h₃) (h₂.plan_ne hplan)
    rintro _ v₃ h₃
    have h₃ := h₂.trans h₃
    apply (yields_rename h₃.sound h₃.self name).imp
    . rintro _ _ rfl
      have hsets : (v₃.calmed.without (temporary name)).Sets
          ((v₃.calmed.without (temporary name)).put name (.file ⟨id, content, content⟩)) name
          ⟨id, content, content⟩ := h₃.sound.sets_move h₃.self
      refine ⟨⟨hsets.sound, (List.tail_suffix _).trans h₃.plan, ?_⟩, id, hsets.self⟩
      intro n hn hn'
      rw [find?_put_of_ne _ _ hn, find?_without_of_ne _ hn']
      exact h₃.other n hn'
    . rintro v₄ ⟨h₄, hplan⟩
      exact hfails (h₃.trans h₄) (h₃.plan_ne hplan)
  . cases hfault
    exact hfails (h₁.trans h₂) (h₁.plan_ne hplan)

end Disk

end ReplicatedStore
