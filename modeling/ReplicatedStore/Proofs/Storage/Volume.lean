import ReplicatedStore.Proofs.Sequence
import ReplicatedStore.Storage.Volume

/-!
A directory without faults: what each step makes of the file it is about, and that it leaves all other
files alone.
-/

namespace ReplicatedStore

namespace Volume

structure Sound (v : Volume) : Prop where
  calm : v.plan = []
  found : ∀ {name entry}, v.find? name = some entry →
    ∃ file, entry = .file file ∧ file.id < v.nextId
  distinct : ∀ {a b file file'}, v.find? a = some (.file file) → v.find? b = some (.file file') →
    file.id = file'.id → a = b

structure Sets (v v' : Volume) (name : String) (file : StoredFile) : Prop where
  sound : v'.Sound
  self : v'.find? name = some (.file file)
  other : ∀ n, n ≠ name → v'.find? n = v.find? n

def Holds (v : Volume) (name : String) : Option Bytes → Prop
  | none => v.find? name = none
  | some content => ∃ id, v.find? name = some (.file ⟨id, content, content⟩)

variable {v v' v'' : Volume} {name other : String} {file file' : StoredFile} {content : Option Bytes}

theorem sound_empty : ({} : Volume).Sound where
  calm := rfl
  found h := by
    cases h
  distinct h := by
    cases h

theorem holds_empty (name : String) : ({} : Volume).Holds name none :=
  rfl

theorem Holds.of_eq (h : v.Holds name content) (heq : v'.find? name = v.find? name)
    : v'.Holds name content := by
  cases content with
  | none => exact heq.trans h
  | some bytes =>
    obtain ⟨id, hid⟩ := h
    exact ⟨id, heq.trans hid⟩

theorem Sets.trans (h : v.Sets v' name file) (h' : v'.Sets v'' name file')
    : v.Sets v'' name file' where
  sound := h'.sound
  self := h'.self
  other n hn := (h'.other n hn).trans (h.other n hn)

theorem find?_without_self (v : Volume) (name : String) : (v.without name).find? name = none := by
  unfold find? without
  rw [List.lookup_eq_none_iff]
  intro p hp
  have := (List.mem_filter.1 hp).2
  simp at this
  simp [Ne.symm this]

theorem find?_without_of_ne (v : Volume) (h : other ≠ name)
    : (v.without name).find? other = v.find? other := by
  unfold find? without
  induction v.entries with
  | nil => rfl
  | cons p rest ih =>
    obtain ⟨n, entry⟩ := p
    by_cases hn : n = name
    . rw [List.filter_cons_of_neg (by simp [hn])]
      rw [ih, List.lookup_cons]
      rw [show (other == n) = false by simpa [hn] using h]
    . rw [List.filter_cons_of_pos (by simp [hn])]
      rw [List.lookup_cons, List.lookup_cons, ih]

theorem find?_put_self (v : Volume) (name : String) (entry : VolumeEntry)
    : (v.put name entry).find? name = some entry := by
  unfold find? put
  simp

theorem find?_put_of_ne (v : Volume) (entry : VolumeEntry) (h : other ≠ name)
    : (v.put name entry).find? other = v.find? other := by
  rw [← find?_without_of_ne v h]
  unfold find? put
  rw [List.lookup_cons]
  rw [show (other == name) = false by simpa using h]

def updateEntry (id : Nat) (f : StoredFile → StoredFile) : VolumeEntry → VolumeEntry
  | .file file => .file (if file.id = id then f file else file)
  | .directory => .directory

theorem find?_updateFile (v : Volume) (id : Nat) (f : StoredFile → StoredFile) (name : String)
    : (v.updateFile id f).find? name = (v.find? name).map (updateEntry id f) := by
  unfold find? updateFile
  dsimp only
  induction v.entries with
  | nil => rfl
  | cons p rest ih =>
    obtain ⟨n, entry⟩ := p
    have hn : (name == n) = true ∨ (name == n) = false := by
      cases name == n <;> simp
    cases hn with
    | inl hn => cases entry <;> simp [List.lookup_cons, hn, updateEntry]
    | inr hn => cases entry <;> simpa [List.lookup_cons, hn] using ih

theorem Sound.sets_updateFile (hv : v.Sound) (h : v.find? name = some (.file file))
    {f : StoredFile → StoredFile} (hf : ∀ file, (f file).id = file.id)
    : v.Sets (v.updateFile file.id f) name (f file) := by
  have hself : (v.updateFile file.id f).find? name = some (.file (f file)) := by
    rw [find?_updateFile, h]
    simp [updateEntry]
  have hother : ∀ n, n ≠ name → (v.updateFile file.id f).find? n = v.find? n := by
    intro n hn
    rw [find?_updateFile]
    cases hentry : v.find? n with
    | none => rfl
    | some entry =>
      obtain ⟨file', rfl, -⟩ := hv.found hentry
      have hne : file'.id ≠ file.id := by
        intro hid
        exact hn (hv.distinct hentry h hid)
      simp [updateEntry, hne]
  -- no id changes, neither here nor elsewhere
  have hback : ∀ {n g}, (v.updateFile file.id f).find? n = some (.file g) →
      ∃ g', v.find? n = some (.file g') ∧ g'.id = g.id := by
    intro n g hg
    by_cases hn : n = name
    . rw [hn, hself] at hg
      cases hg
      exact ⟨file, by rw [hn, h], (hf file).symm⟩
    . rw [hother n hn] at hg
      exact ⟨g, hg, rfl⟩
  refine ⟨⟨hv.calm, ?_, ?_⟩, hself, hother⟩
  . intro n entry hentry
    by_cases hn : n = name
    . rw [hn, hself] at hentry
      cases hentry
      obtain ⟨g, hg, hid⟩ := hv.found h
      cases hg
      exact ⟨f file, rfl, by rw [hf]; exact hid⟩
    . rw [hother n hn] at hentry
      exact hv.found hentry
  . intro a b g g' ha hb hid
    obtain ⟨g₀, hg₀, hid₀⟩ := hback ha
    obtain ⟨g₁, hg₁, hid₁⟩ := hback hb
    exact hv.distinct hg₀ hg₁ (by omega)

theorem Sound.sets_put (hv : v.Sound) (hlt : file.id < v.nextId)
    (hown : ∀ n file', n ≠ name → v.find? n = some (.file file') → file'.id ≠ file.id)
    : v.Sets (v.put name (.file file)) name file := by
  have hself := find?_put_self v name (.file file)
  have hother : ∀ n, n ≠ name → (v.put name (.file file)).find? n = v.find? n := by
    intro n hn
    exact find?_put_of_ne _ _ hn
  refine ⟨⟨hv.calm, ?_, ?_⟩, hself, hother⟩
  . intro n entry hentry
    by_cases hn : n = name
    . rw [hn, hself] at hentry
      cases hentry
      exact ⟨file, rfl, hlt⟩
    . rw [hother n hn] at hentry
      exact hv.found hentry
  . intro a b g g' ha hb hid
    by_cases han : a = name
    . by_cases hbn : b = name
      . rw [han, hbn]
      . rw [han, hself] at ha
        rw [hother b hbn] at hb
        cases ha
        exact (hown b g' hbn hb hid.symm).elim
    . rw [hother a han] at ha
      by_cases hbn : b = name
      . rw [hbn, hself] at hb
        cases hb
        exact (hown a g han ha hid).elim
      . rw [hother b hbn] at hb
        exact hv.distinct ha hb hid

theorem Sound.sets_new (hv : v.Sound) (content durable : Bytes)
    : v.Sets ({ v with nextId := v.nextId + 1 }.put name (.file ⟨v.nextId, content, durable⟩)) name
        ⟨v.nextId, content, durable⟩ := by
  have hlater : Sound { v with nextId := v.nextId + 1 } := by
    refine ⟨hv.calm, ?_, hv.distinct⟩
    intro n entry hentry
    obtain ⟨g, hg, hid⟩ := hv.found hentry
    exact ⟨g, hg, Nat.lt_succ_of_lt hid⟩
  have hset : Sets { v with nextId := v.nextId + 1 }
      ({ v with nextId := v.nextId + 1 }.put name (.file ⟨v.nextId, content, durable⟩)) name
      ⟨v.nextId, content, durable⟩ := by
    apply hlater.sets_put (Nat.lt_succ_self _)
    intro n g hn hg hid
    obtain ⟨_, heq, hlt⟩ := hv.found hg
    cases heq
    exact Nat.lt_irrefl _ (hid ▸ hlt)
  exact ⟨hset.sound, hset.self, hset.other⟩

theorem Sound.without (hv : v.Sound) (source : String) : (v.without source).Sound := by
  have hback : ∀ {n entry}, (v.without source).find? n = some entry → v.find? n = some entry := by
    intro n entry hentry
    by_cases hns : n = source
    . rw [hns, find?_without_self] at hentry
      cases hentry
    . rwa [find?_without_of_ne v hns] at hentry
  exact ⟨hv.calm, fun h => hv.found (hback h), fun ha hb => hv.distinct (hback ha) (hback hb)⟩

theorem Sound.sets_move (hv : v.Sound) {source : String} (h : v.find? source = some (.file file))
    : (v.without source).Sets ((v.without source).put name (.file file)) name file := by
  obtain ⟨_, heq, hlt⟩ := hv.found h
  cases heq
  apply (hv.without source).sets_put hlt
  intro n g _ hg hid
  by_cases hns : n = source
  . rw [hns, find?_without_self] at hg
    cases hg
  . rw [find?_without_of_ne v hns] at hg
    exact hns (hv.distinct hg h hid)

theorem Sound.sets_store (hv : v.Sound) (name : String) (content : Bytes)
    : ∃ id, v.Sets (v.store name content) name ⟨id, content, content⟩ := by
  unfold store
  cases hentry : v.find? name with
  | none => exact ⟨v.nextId, hv.sets_new content content⟩
  | some entry =>
    obtain ⟨file, rfl, hlt⟩ := hv.found hentry
    refine ⟨file.id, hv.sets_put hlt ?_⟩
    intro n g hn hg hid
    exact hn (hv.distinct hg hentry hid)

theorem crash_eq (v : Volume) (name : String)
    : v.crash.find? name = (v.find? name).map fun
        | .file file => .file { file with content := file.durable }
        | .directory => .directory := by
  unfold find? crash
  dsimp only
  induction v.entries with
  | nil => rfl
  | cons p rest ih =>
    obtain ⟨n, entry⟩ := p
    have hn : (name == n) = true ∨ (name == n) = false := by
      cases name == n <;> simp
    cases hn with
    | inl hn => cases entry <;> simp [List.lookup_cons, hn]
    | inr hn => cases entry <;> simpa [List.lookup_cons, hn] using ih

theorem Holds.crash (h : v.Holds name content) : v.crash.Holds name content := by
  cases content with
  | none =>
    have : v.find? name = none := h
    unfold Holds
    rw [crash_eq, this]
    rfl
  | some bytes =>
    obtain ⟨id, hid⟩ := h
    refine ⟨id, ?_⟩
    rw [crash_eq, hid]
    rfl

theorem Sound.crash (hv : v.Sound) : v.crash.Sound := by
  have hback : ∀ {n entry}, v.crash.find? n = some entry →
      ∃ g, v.find? n = some (.file g) ∧ entry = .file { g with content := g.durable } := by
    intro n entry hentry
    rw [crash_eq] at hentry
    cases hold : v.find? n with
    | none =>
      rw [hold] at hentry
      cases hentry
    | some old =>
      obtain ⟨g, rfl, -⟩ := hv.found hold
      rw [hold] at hentry
      cases hentry
      exact ⟨g, rfl, rfl⟩
  refine ⟨hv.calm, ?_, ?_⟩
  . intro n entry hentry
    obtain ⟨g, hg, rfl⟩ := hback hentry
    obtain ⟨_, heq, hlt⟩ := hv.found hg
    cases heq
    exact ⟨_, rfl, hlt⟩
  . intro a b g g' ha hb hid
    obtain ⟨g₀, hg₀, heq₀⟩ := hback ha
    obtain ⟨g₁, hg₁, heq₁⟩ := hback hb
    cases heq₀
    cases heq₁
    exact hv.distinct hg₀ hg₁ hid

end Volume

namespace Disk

open Volume

variable {v v' : Volume} {name : String} {file : StoredFile}

theorem nextFault_calm (hv : v.Sound) : nextFault v = .ok none v := by
  have hcalm := hv.calm
  cases v
  dsimp only at hcalm
  rw [hcalm]
  rfl

theorem attempt_calm (hv : v.Sound) : attempt v = .ok () v := by
  unfold attempt
  rw [EStateM.bind_of_ok (nextFault_calm hv)]
  rfl

theorem read?_file (h : v.find? name = some (.file file)) : read? name v = .ok (some file.content) v := by
  unfold read?
  rw [EStateM.bind_get]
  rw [h]
  rfl

theorem read?_holds {content : Option Bytes} (h : v.Holds name content)
    : read? name v = .ok content v := by
  cases content with
  | none =>
    have hnone : v.find? name = none := h
    unfold read?
    rw [EStateM.bind_get]
    rw [hnone]
    rfl
  | some bytes =>
    obtain ⟨id, hid⟩ := h
    exact read?_file hid

theorem create_sound (hv : v.Sound) (name : String)
    : ∃ id durable v', create name v = .ok id v' ∧ v.Sets v' name ⟨id, [], durable⟩ := by
  unfold create
  rw [EStateM.bind_of_ok (attempt_calm hv)]
  rw [EStateM.bind_get]
  cases hentry : v.find? name with
  | none => exact ⟨v.nextId, [], _, rfl, hv.sets_new [] []⟩
  | some entry =>
    obtain ⟨file, rfl, -⟩ := hv.found hentry
    refine ⟨file.id, file.durable, _, rfl, ?_⟩
    exact hv.sets_updateFile hentry (f := fun file => { file with content := [] }) (fun _ => rfl)

theorem openExisting_file (hv : v.Sound) (h : v.find? name = some (.file file))
    : openExisting name v = .ok file.id v := by
  unfold openExisting
  rw [EStateM.bind_of_ok (attempt_calm hv)]
  rw [EStateM.bind_get]
  rw [h]
  rfl

theorem openOrCreate_holds (hv : v.Sound) {content : Option Bytes} (h : v.Holds name content)
    : ∃ id v', openOrCreate name v = .ok id v' ∧
        v.Sets v' name ⟨id, content.getD [], content.getD []⟩ := by
  unfold openOrCreate
  rw [EStateM.bind_of_ok (attempt_calm hv)]
  rw [EStateM.bind_get]
  cases content with
  | none =>
    have hnone : v.find? name = none := h
    rw [hnone]
    exact ⟨v.nextId, _, rfl, hv.sets_new [] []⟩
  | some bytes =>
    obtain ⟨id, hid⟩ := h
    rw [hid]
    exact ⟨id, v, rfl, hv, hid, fun _ _ => rfl⟩

theorem append_file (hv : v.Sound) (h : v.find? name = some (.file file)) (bytes : Bytes)
    : ∃ v', append file.id bytes v = .ok (bytes.length, none) v' ∧
        v.Sets v' name { file with content := file.content ++ bytes } := by
  unfold append
  rw [EStateM.bind_of_ok (nextFault_calm hv)]
  dsimp only
  rw [EStateM.bind_modify]
  rw [if_neg (Nat.lt_irrefl _)]
  refine ⟨_, rfl, ?_⟩
  . rw [List.take_length]
    exact hv.sets_updateFile h (f := fun file => { file with content := file.content ++ bytes })
      (fun _ => rfl)

theorem sync_file (hv : v.Sound) (h : v.find? name = some (.file file))
    : ∃ v', sync file.id v = .ok () v' ∧ v.Sets v' name { file with durable := file.content } := by
  unfold sync
  rw [EStateM.bind_of_ok (attempt_calm hv)]
  refine ⟨_, rfl, ?_⟩
  exact hv.sets_updateFile h (f := fun file => { file with durable := file.content }) (fun _ => rfl)

theorem setLength_file (hv : v.Sound) (h : v.find? name = some (.file file)) {length : Nat}
    (hle : length ≤ file.content.length)
    : ∃ v', setLength file.id length v = .ok () v' ∧
        v.Sets v' name { file with content := file.content.take length } := by
  let cut (file : StoredFile) : StoredFile :=
    { file with content :=
        file.content.take length ++ List.replicate (length - file.content.length) 0 }
  unfold setLength
  rw [EStateM.bind_of_ok (attempt_calm hv)]
  refine ⟨_, rfl, ?_⟩
  have hset := hv.sets_updateFile h (f := cut) (fun _ => rfl)
  rw [show cut file = { file with content := file.content.take length } by simp [cut, hle]] at hset
  exact hset

theorem rename_file (hv : v.Sound) {source target : String}
    (h : v.find? source = some (.file file))
    : rename source target v = .ok () ((v.without source).put target (.file file)) := by
  unfold rename
  rw [EStateM.bind_of_ok (attempt_calm hv)]
  rw [EStateM.bind_get, EStateM.bind_get, h]
  cases hentry : v.find? target with
  | none => rfl
  | some entry =>
    obtain ⟨_, rfl, -⟩ := hv.found hentry
    rfl

theorem replace_sound (hv : v.Sound) (name : String) (content : Bytes)
    : ∃ v', replace name content v = .ok () v' ∧ v'.Sound ∧ v'.Holds name (some content) ∧
        ∀ n, n ≠ name → n ≠ temporary name → v'.find? n = v.find? n := by
  obtain ⟨id, durable, v₁, hcreate, hset₁⟩ := create_sound hv (temporary name)
  obtain ⟨v₂, happend, hset₂⟩ := append_file hset₁.sound hset₁.self content
  obtain ⟨v₃, hsync, hset₃⟩ := sync_file hset₂.sound hset₂.self
  have hset := (hset₁.trans hset₂).trans hset₃
  have hmove : (v₃.without (temporary name)).Sets
      ((v₃.without (temporary name)).put name (.file ⟨id, content, content⟩)) name
      ⟨id, content, content⟩ := hset.sound.sets_move hset.self
  refine ⟨_, ?_, hmove.sound, ⟨id, hmove.self⟩, ?_⟩
  . unfold replace
    rw [EStateM.bind_of_ok hcreate]
    rw [EStateM.bind_of_ok happend]
    dsimp only
    rw [EStateM.bind_of_ok hsync]
    exact rename_file hset.sound hset.self
  . intro n hn hn'
    rw [hmove.other n hn]
    rw [find?_without_of_ne _ hn']
    exact hset.other n hn'

end Disk

end ReplicatedStore
