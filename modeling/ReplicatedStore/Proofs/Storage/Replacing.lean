import ReplicatedStore.Proofs.Storage.Steps

/-!
A file is replaced, or stays as it was, whatever else is in its directory.
-/

namespace ReplicatedStore

namespace Volume

structure Separate (v : Volume) : Prop where
  bounded : ∀ {name file}, v.find? name = some (.file file) → file.id < v.nextId
  distinct : ∀ {a b file file'}, v.find? a = some (.file file) → v.find? b = some (.file file') →
    file.id = file'.id → a = b

structure Leaves (v v' : Volume) (name : String) (file : StoredFile) : Prop where
  separate : v'.Separate
  self : v'.find? name = some (.file file)
  other : ∀ n, n ≠ name → v'.find? n = v.find? n

variable {v v' v'' : Volume} {name : String} {file file' : StoredFile} {f : StoredFile → StoredFile}

theorem Leaves.trans (h : v.Leaves v' name file) (h' : v'.Leaves v'' name file')
    : v.Leaves v'' name file' where
  separate := h'.separate
  self := h'.self
  other n hn := (h'.other n hn).trans (h.other n hn)

theorem separate_empty : ({} : Volume).Separate where
  bounded h := by
    cases h
  distinct h := by
    cases h

theorem Separate.of_find? (hv : v.Separate) (hfind : v'.find? = v.find?) (hnext : v'.nextId = v.nextId)
    : v'.Separate where
  bounded h := by
    rw [hfind] at h
    rw [hnext]
    exact hv.bounded h
  distinct ha hb := by
    rw [hfind] at ha hb
    exact hv.distinct ha hb

theorem Separate.passed (hv : v.Separate) : v.passed.Separate :=
  hv.of_find? rfl rfl

theorem Separate.leaves_updateFile (hv : v.Separate) (h : v.find? name = some (.file file))
    (hf : ∀ file, (f file).id = file.id)
    : v.Leaves (v.updateFile file.id f) name (f file) := by
  have hback : ∀ {n g}, (v.updateFile file.id f).find? n = some (.file g) →
      ∃ g', v.find? n = some (.file g') ∧ g'.id = g.id := by
    intro n g hg
    rw [find?_updateFile] at hg
    obtain ⟨entry, hentry, hg⟩ := Option.map_eq_some_iff.1 hg
    cases entry with
    | directory => cases hg
    | file g' =>
      refine ⟨g', hentry, ?_⟩
      unfold updateEntry at hg
      cases hg
      split
      . exact (hf g').symm
      . rfl
  refine ⟨⟨?_, ?_⟩, ?_, ?_⟩
  . intro n g hg
    obtain ⟨g', hg', hid⟩ := hback hg
    rw [← hid]
    exact hv.bounded hg'
  . intro a b g g' ha hb hid
    obtain ⟨g₀, hg₀, hid₀⟩ := hback ha
    obtain ⟨g₁, hg₁, hid₁⟩ := hback hb
    exact hv.distinct hg₀ hg₁ (by omega)
  . rw [find?_updateFile, h]
    simp [updateEntry]
  . intro n hn
    rw [find?_updateFile]
    cases hentry : v.find? n with
    | none => rfl
    | some entry =>
      cases entry with
      | directory => rfl
      | file g =>
        have hne : g.id ≠ file.id := by
          intro hid
          exact hn (hv.distinct hentry h hid)
        simp [updateEntry, hne]

theorem Separate.leaves_new (hv : v.Separate) (name : String)
    : v.Leaves ({ v with nextId := v.nextId + 1 }.put name (.file ⟨v.nextId, [], []⟩)) name
        ⟨v.nextId, [], []⟩ := by
  have hself := find?_put_self { v with nextId := v.nextId + 1 } name (.file ⟨v.nextId, [], []⟩)
  have hother : ∀ n, n ≠ name →
      ({ v with nextId := v.nextId + 1 }.put name (.file ⟨v.nextId, [], []⟩)).find? n = v.find? n := by
    intro n hn
    exact find?_put_of_ne _ _ hn
  have hback : ∀ {n g},
      ({ v with nextId := v.nextId + 1 }.put name (.file ⟨v.nextId, [], []⟩)).find? n = some (.file g) →
      n = name ∧ g.id = v.nextId ∨ n ≠ name ∧ v.find? n = some (.file g) ∧ g.id < v.nextId := by
    intro n g hg
    by_cases hn : n = name
    . rw [hn, hself] at hg
      cases hg
      exact .inl ⟨hn, rfl⟩
    . rw [hother n hn] at hg
      exact .inr ⟨hn, hg, hv.bounded hg⟩
  refine ⟨⟨?_, ?_⟩, hself, hother⟩
  . intro n g hg
    show g.id < v.nextId + 1
    rcases hback hg with ⟨-, hid⟩ | ⟨-, -, hlt⟩ <;> omega
  . intro a b g g' ha hb hid
    rcases hback ha with ⟨ha, hida⟩ | ⟨-, ha, hlta⟩
    . rcases hback hb with ⟨hb, -⟩ | ⟨-, -, hltb⟩
      . rw [ha, hb]
      . omega
    . rcases hback hb with ⟨-, hidb⟩ | ⟨-, hb, -⟩
      . omega
      . exact hv.distinct ha hb hid

theorem Separate.moved (hv : v.Separate) {source : String} (h : v.find? source = some (.file file))
    : ((v.without source).put name (.file file)).Separate := by
  have hback : ∀ {n g}, ((v.without source).put name (.file file)).find? n = some (.file g) →
      n = name ∧ g = file ∨ n ≠ source ∧ v.find? n = some (.file g) := by
    intro n g hg
    by_cases hn : n = name
    . rw [hn, find?_put_self] at hg
      cases hg
      exact .inl ⟨hn, rfl⟩
    . rw [find?_put_of_ne _ _ hn] at hg
      by_cases hns : n = source
      . rw [hns, find?_without_self] at hg
        cases hg
      . rw [find?_without_of_ne v hns] at hg
        exact .inr ⟨hns, hg⟩
  refine ⟨?_, ?_⟩
  . intro n g hg
    show g.id < v.nextId
    rcases hback hg with ⟨-, rfl⟩ | ⟨-, hg⟩
    . exact hv.bounded h
    . exact hv.bounded hg
  . intro a b g g' ha hb hid
    -- the file that moved has left its old name
    rcases hback ha with ⟨han, rfl⟩ | ⟨has, ha'⟩
    . rcases hback hb with ⟨hbn, -⟩ | ⟨hbs, hb'⟩
      . rw [han, hbn]
      . exact absurd (hv.distinct h hb' hid).symm hbs
    . rcases hback hb with ⟨-, rfl⟩ | ⟨-, hb'⟩
      . exact absurd (hv.distinct ha' h hid) has
      . exact hv.distinct ha' hb' hid

end Volume

namespace Disk

open Volume

variable {v : Volume} {name : String} {file : StoredFile}

theorem leaves_create (hv : v.Separate) (name : String)
    : EStateM.Yields (fun id v' => ∃ durable, v.Leaves v' name ⟨id, [], durable⟩) (fun v' => v' = v.passed)
        (create name v) := by
  unfold create
  apply (yields_attempt v).bind
  . exact fun _ h => h.1
  rintro _ _ rfl
  rw [EStateM.bind_get]
  cases hentry : v.passed.find? name with
  | none =>
    have hnew := hv.passed.leaves_new name
    exact ⟨[], hnew.separate, hnew.self, hnew.other⟩
  | some entry =>
    cases entry with
    | directory => exact rfl
    | file file =>
      have hempty := hv.passed.leaves_updateFile hentry (f := fun file => { file with content := [] }) fun _ => rfl
      exact ⟨file.durable, hempty.separate, hempty.self, hempty.other⟩

theorem leaves_append (hv : v.Separate) (h : v.find? name = some (.file file)) (bytes : Bytes)
    : EStateM.Yields
        (fun result v' => ∃ content, v.Leaves v' name { file with content } ∧
          (result.2 = none → content = file.content ++ bytes))
        (fun _ => False) (append file.id bytes v) := by
  have hwritten : ∀ stored, v.Leaves (v.passed.updateFile file.id fun file =>
      { file with content := file.content ++ bytes.take stored }) name
      { file with content := file.content ++ bytes.take stored } := by
    intro stored
    have hupdate := hv.passed.leaves_updateFile h
      (f := fun file => { file with content := file.content ++ bytes.take stored }) fun _ => rfl
    exact ⟨hupdate.separate, hupdate.self, hupdate.other⟩
  unfold append
  rw [EStateM.bind_of_ok (nextFault_passes v)]
  cases v.plan.head?.join with
  | none =>
    refine ⟨_, hwritten _, ?_⟩
    intro _
    dsimp only
    rw [List.take_length]
  | some fault =>
    refine ⟨_, hwritten _, ?_⟩
    intro hwhole
    dsimp only at hwhole ⊢
    by_cases hlt : min fault.stored bytes.length < bytes.length
    . rw [if_pos hlt] at hwhole
      cases hwhole
    . rw [List.take_of_length_le (Nat.not_lt.1 hlt)]

theorem leaves_sync (hv : v.Separate) (h : v.find? name = some (.file file))
    : EStateM.Yields (fun _ v' => v.Leaves v' name { file with durable := file.content })
        (fun v' => v.Leaves v' name file) (sync file.id v) := by
  have hpassed : v.Leaves v.passed name file := ⟨hv.passed, h, fun _ _ => rfl⟩
  unfold sync
  apply (yields_attempt v).bind
  . rintro _ ⟨rfl, -⟩
    exact hpassed
  . rintro _ _ rfl
    exact hpassed.trans
      (hv.passed.leaves_updateFile h (f := fun file => { file with durable := file.content }) fun _ => rfl)

theorem leaves_rename (hv : v.Separate) {source : String} (h : v.find? source = some (.file file))
    (target : String)
    : EStateM.Yields (fun _ v' => v'.Separate ∧ v'.find? target = some (.file file))
        (fun v' => v.Leaves v' source file) (rename source target v) := by
  have hpassed : v.Leaves v.passed source file := ⟨hv.passed, h, fun _ _ => rfl⟩
  have hmoved : ((v.passed.without source).put target (.file file)).Separate ∧
      ((v.passed.without source).put target (.file file)).find? target = some (.file file) :=
    ⟨hv.passed.moved h, find?_put_self _ _ _⟩
  unfold rename
  apply (yields_attempt v).bind
  . rintro _ ⟨rfl, -⟩
    exact hpassed
  . rintro _ _ rfl
    rw [EStateM.bind_get, EStateM.bind_get, show v.passed.find? source = some (.file file) from h]
    cases v.passed.find? target with
    | none => exact hmoved
    | some entry =>
      cases entry with
      | directory => exact hpassed
      | file old => exact hmoved

theorem leaves_replace (hv : v.Separate) (name : String) (content : Bytes)
    : EStateM.Yields (fun _ v' => v'.Separate ∧ ∃ id, v'.find? name = some (.file ⟨id, content, content⟩))
        (fun v' => v'.Separate ∧ v'.find? name = v.find? name) (replace name content v) := by
  have hspared : ∀ {v' : Volume} {file : StoredFile}, v.Leaves v' (temporary name) file →
      v'.Separate ∧ v'.find? name = v.find? name :=
    fun h => ⟨h.separate, h.other name (ne_temporary name)⟩
  unfold replace
  apply (leaves_create hv (temporary name)).bind
  . rintro _ rfl
    exact ⟨hv.passed, rfl⟩
  rintro id v₁ ⟨durable, h₁⟩
  apply (leaves_append h₁.separate h₁.self content).bind
  . exact fun _ h => h.elim
  rintro ⟨stored, fault⟩ v₂ ⟨written, h₂, hwhole⟩
  have h₂ := h₁.trans h₂
  cases fault with
  | some e => exact hspared h₂
  | none =>
    cases hwhole rfl
    apply (leaves_sync h₂.separate h₂.self).bind
    . intro v₃ h₃
      exact hspared (h₂.trans h₃)
    rintro _ v₃ h₃
    have h₃ := h₂.trans h₃
    apply (leaves_rename h₃.separate h₃.self name).imp
    . rintro _ v₄ ⟨hseparate, hself⟩
      exact ⟨hseparate, id, hself⟩
    . intro v₄ h₄
      exact hspared (h₃.trans h₄)

end Disk

end ReplicatedStore
