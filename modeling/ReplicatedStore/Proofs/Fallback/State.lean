import ReplicatedStore.Fallback.State
import ReplicatedStore.Proofs.Encoding.Binary
import ReplicatedStore.Proofs.Storage.Replacing
import ReplicatedStore.Proofs.Timestamp.Text

/-!
What is saved of the state of a coordinator is what is loaded, with the moment that its text names.
-/

namespace ReplicatedStore

namespace Json

def Plain (c : Char) : Prop :=
  c ≠ '"' ∧ c ≠ '\\' ∧ 0x20 ≤ c.toNat

instance (c : Char) : Decidable (Plain c) :=
  inferInstanceAs (Decidable (_ ∧ _ ∧ _))

-- Only the characters of the text are looked at, not every character there is.
instance (text : List Char) : Decidable (∀ c ∈ text, Plain c) :=
  List.decidableBAll Plain text

theorem toList_quoted {text : String} (h : ∀ c ∈ text.toList, Plain c)
    : (quoted text).toList = '"' :: (text.toList ++ ['"']) := by
  have hfold : ∀ (cs : List Char) (s : String), (∀ c ∈ cs, Plain c) →
      (cs.foldl (fun s c => if c = '"' || c = '\\' || c.toNat < 0x20 then s ++ escape c else s.push c) s).toList
        =
      s.toList ++ cs := by
    intro cs
    induction cs with
    | nil => simp
    | cons c cs ih =>
      intro s hcs
      obtain ⟨hquote, hslash, hcontrol⟩ := hcs c List.mem_cons_self
      have hplain : (c = '"' || c = '\\' || decide (c.toNat < 0x20)) = false := by
        simp [hquote, hslash, hcontrol]
      rw [List.foldl_cons, hplain, if_neg nofun, ih _ fun d hd => hcs d (List.mem_cons_of_mem _ hd),
        String.toList_push, List.append_assoc, List.singleton_append]
  unfold quoted
  rw [String.toList_append, String.foldl_eq_foldl_toList, hfold _ _ h]
  rfl

namespace Parser

variable {α β : Type} {a : α} {chars rest : List Char}

theorem stringRest_plain {text : List Char} (h : ∀ c ∈ text, Plain c) (read rest : List Char)
    : stringRest (some read) (text ++ '"' :: rest) = .ok (some (text.reverse ++ read), rest) := by
  induction text generalizing read with
  | nil =>
    show stringRest (some read) ('"' :: rest) = _
    rw [stringRest]
    rfl
  | cons c text ih =>
    obtain ⟨hquote, hslash, hcontrol⟩ := h c List.mem_cons_self
    have hplain : (decide (c.toNat < 0x20) || decide (c = '\\')) = false := by
      simp [hslash, hcontrol]
    rw [List.cons_append, stringRest, hplain, if_neg nofun]
    . show stringRest (some (c :: read)) _ = _
      rw [ih fun d hd => h d (List.mem_cons_of_mem _ hd), List.reverse_cons, List.append_assoc]
      rfl
    . exact hquote
    all_goals
      intros
      exact absurd ‹_› hslash

theorem string_plain {text : String} (h : ∀ c ∈ text.toList, Plain c) (rest : List Char)
    : string (text.toList ++ '"' :: rest) = .ok (some text) rest := by
  unfold string
  rw [stringRest_plain h]
  simp

variable {text name : String} {item : Json} {more : List (String × Json)} {fuel : Nat} {line after : List Char}

theorem value_string (h : ∀ c ∈ text.toList, Plain c)
    : value (fuel + 1) (' ' :: '"' :: (text.toList ++ '"' :: rest)) = .ok (.string text) rest := by
  rw [value]
  show ((string >>= fun read => (pure (read.elim .unreadable .string) : Parser Json)) : Parser Json) _ = _
  rw [EStateM.bind_of_ok (string_plain h rest)]
  rfl

theorem value_null : value (fuel + 1) (' ' :: 'n' :: 'u' :: 'l' :: 'l' :: rest) = .ok .null rest := by
  rfl

theorem members_cons (h : ∀ c ∈ name.toList, Plain c)
    (hline : blanks line = .ok () ('"' :: (name.toList ++ '"' :: ':' :: chars))) (hvalue : value fuel chars = .ok item (',' :: rest))
    (hmore : members fuel rest = .ok (some more) after)
    : members (fuel + 1) line = .ok (some ((name, item) :: more)) after := by
  rw [members, EStateM.bind_of_ok hline, EStateM.bind_of_ok (show expect '"' _ = .ok () _ from rfl),
    EStateM.bind_of_ok (string_plain h _), EStateM.bind_of_ok (show blanks _ = .ok () (':' :: chars) from rfl),
    EStateM.bind_of_ok (show expect ':' _ = .ok () chars from rfl), EStateM.bind_of_ok hvalue,
    EStateM.bind_of_ok (show blanks _ = .ok () (',' :: rest) from rfl), EStateM.bind_of_ok (show accept ',' _ = .ok true rest from rfl)]
  dsimp only
  rw [if_pos rfl, EStateM.bind_of_ok hmore]
  rfl

theorem members_last (h : ∀ c ∈ name.toList, Plain c)
    (hline : blanks line = .ok () ('"' :: (name.toList ++ '"' :: ':' :: chars)))
    (hvalue : value fuel chars = .ok item ('\n' :: '}' :: rest))
    : members (fuel + 1) line = .ok (some [(name, item)]) rest := by
  rw [members, EStateM.bind_of_ok hline, EStateM.bind_of_ok (show expect '"' _ = .ok () _ from rfl),
    EStateM.bind_of_ok (string_plain h _), EStateM.bind_of_ok (show blanks _ = .ok () (':' :: chars) from rfl),
    EStateM.bind_of_ok (show expect ':' _ = .ok () chars from rfl), EStateM.bind_of_ok hvalue,
    EStateM.bind_of_ok (show blanks _ = .ok () ('}' :: rest) from rfl),
    EStateM.bind_of_ok (show accept ',' _ = .ok false ('}' :: rest) from rfl)]
  dsimp only
  rw [if_neg nofun, EStateM.bind_of_ok (show expect '}' _ = .ok () rest from rfl)]
  rfl

end Parser

end Json

namespace Timestamp

def Part (c : Char) : Prop :=
  c.isDigit = true ∨ c ∈ ['-', '+', 'T', ':', '.', 'Z']

theorem Part.plain {c : Char} (h : Part c) : Json.Plain c := by
  rcases h with hdigit | hmark
  . unfold Char.isDigit at hdigit
    rw [Bool.and_eq_true, decide_eq_true_eq, decide_eq_true_eq] at hdigit
    have hlow : 48 ≤ c.toNat := hdigit.1
    refine ⟨?_, ?_, by omega⟩
    . rintro rfl
      exact absurd hdigit (by decide)
    . rintro rfl
      exact absurd hdigit (by decide)
  . simp only [List.mem_cons, List.not_mem_nil, or_false] at hmark
    rcases hmark with rfl | rfl | rfl | rfl | rfl | rfl <;> decide

theorem part_paddedChars {width n : Nat} : ∀ c ∈ paddedChars width n, Part c :=
  fun _ h => .inl (isDigit_paddedChars h)

theorem part_cons {mark : Char} {chars : List Char} (hmark : mark ∈ ['-', '+', 'T', ':', '.', 'Z'])
    (h : ∀ c ∈ chars, Part c)
    : ∀ c ∈ mark :: chars, Part c :=
  List.forall_mem_cons.2 ⟨.inr hmark, h⟩

theorem part_append {front back : List Char} (hfront : ∀ c ∈ front, Part c) (hback : ∀ c ∈ back, Part c)
    : ∀ c ∈ front ++ back, Part c :=
  List.forall_mem_append.2 ⟨hfront, hback⟩

theorem part_yearText (year : Int) : ∀ c ∈ (yearText year).toList, Part c := by
  unfold yearText
  split
  . rw [toList_padded]
    exact part_paddedChars
  . rw [String.toList_append, toList_padded]
    split
    . exact part_cons (by decide) part_paddedChars
    . exact part_cons (by decide) part_paddedChars

theorem part_fractionText (nanos : Nat) : ∀ c ∈ (fractionText nanos).toList, Part c := by
  have hpoint : ∀ width n, ∀ c ∈ ("." ++ padded width n).toList, Part c := by
    intro width n
    rw [String.toList_append, toList_padded]
    exact part_cons (by decide) part_paddedChars
  unfold fractionText
  split
  . exact nofun
  . split
    . exact hpoint _ _
    . split
      . exact hpoint _ _
      . exact hpoint _ _

theorem plain_text (t : Timestamp) : ∀ c ∈ t.text.toList, Json.Plain c := by
  have hparts : ∀ c ∈ t.text.toList, Part c := by
    rw [toList_text]
    apply part_append (part_yearText _)
    apply part_cons (by decide)
    apply part_append part_paddedChars
    apply part_cons (by decide)
    apply part_append part_paddedChars
    apply part_cons (by decide)
    apply part_append part_paddedChars
    apply part_cons (by decide)
    apply part_append part_paddedChars
    apply part_cons (by decide)
    apply part_append part_paddedChars
    exact part_append (part_fractionText _) (part_cons (by decide) nofun)
  intro c hc
  exact (hparts c hc).plain

end Timestamp

namespace FallbackState

theorem plain_name (store : ActiveStore) : ∀ c ∈ store.name.toList, Json.Plain c := by
  cases store <;> decide

theorem ofName?_name (store : ActiveStore) : ActiveStore.ofName? store.name = some store := by
  cases store <;> rfl

def momentChars : Option Timestamp → List Char
  | none => ['n', 'u', 'l', 'l']
  | some moment => '"' :: (moment.text.toList ++ ['"'])

def memberChars (state : FallbackState) : List Char :=
  '\n' :: ' ' :: ' ' :: '"' :: ("active".toList ++ '"' :: ':' :: ' ' :: '"' :: (state.active.name.toList ++
    '"' :: ',' :: '\n' :: ' ' :: ' ' :: '"' :: ("last_active_time".toList ++
    '"' :: ':' :: ' ' :: (momentChars state.lastSeen ++ ['\n', '}']))))

theorem toList_encode (state : FallbackState) : (encode state).toList = '{' :: memberChars state := by
  have hactive := Json.toList_quoted (plain_name state.active)
  have hline : (Json.newLine 0).toList = ['\n'] ∧ (Json.newLine (0 + 1)).toList = ['\n', ' ', ' '] := by decide
  obtain ⟨hend, hmember⟩ := hline
  have hnames : (Json.quoted "active").toList = '"' :: ("active".toList ++ ['"']) ∧
      (Json.quoted "last_active_time").toList = '"' :: ("last_active_time".toList ++ ['"']) :=
    ⟨Json.toList_quoted (by decide), Json.toList_quoted (by decide)⟩
  obtain ⟨hfirst, hsecond⟩ := hnames
  have hmoment : ∀ text, (Json.prettyOnto (0 + 1) text (momentToJson state.lastSeen)).toList
      = text.toList ++ momentChars state.lastSeen := by
    intro text
    cases state.lastSeen with
    | none => rw [momentToJson, Json.prettyOnto, String.toList_append]; rfl
    | some moment =>
      rw [momentToJson, Json.prettyOnto, String.toList_append, Json.toList_quoted moment.plain_text]
      rfl
  unfold encode Json.pretty memberChars
  rw [Json.prettyOnto, Json.prettyMembers, Json.prettyMembers]
  simp only [toJson, Json.prettyOnto, String.toList_append, hactive, hmoment, hend, hmember, hfirst, hsecond,
    String.reduceToList, List.append_assoc, List.cons_append, List.nil_append]

open Json.Parser in
theorem value_momentChars (moment : Option Timestamp) (fuel : Nat) (rest : List Char)
    : value (fuel + 1) (' ' :: (momentChars moment ++ rest)) = .ok (momentToJson moment) rest := by
  cases moment with
  | none => exact value_null
  | some moment =>
    show value (fuel + 1) (' ' :: '"' :: ((moment.text.toList ++ ['"']) ++ rest)) = _
    rw [List.append_assoc]
    exact value_string moment.plain_text

def members (state : FallbackState) : List (String × Json) :=
  [("active", toJson state.active), ("last_active_time", momentToJson state.lastSeen)]

open Json.Parser in
theorem members_memberChars (state : FallbackState) (fuel : Nat)
    : Json.Parser.members (fuel + 3) ((memberChars state).dropWhile isBlank) = .ok (some (members state)) [] := by
  have hnames : (∀ c ∈ "active".toList, Json.Plain c) ∧ ∀ c ∈ "last_active_time".toList, Json.Plain c := by decide
  have hlast := value_momentChars state.lastSeen fuel ['\n', '}']
  exact members_cons hnames.1 rfl (value_string (plain_name state.active)) (members_last hnames.2 rfl hlast)

open Json.Parser in
theorem parse_encode (state : FallbackState) : Json.parse (encode state) = .ok (.object (members state)) := by
  have hvalue : value ('{' :: memberChars state).length.succ ('{' :: memberChars state)
      = .ok (.object (members state)) [] := by
    obtain ⟨fuel, hfuel⟩ : ∃ fuel, ('{' :: memberChars state).length = fuel + 3 := ⟨_, rfl⟩
    rw [hfuel, value]
    show ((Json.Parser.members (fuel + 3) >>= fun read =>
      (pure (read.elim .unreadable .object) : Json.Parser Json)) : Json.Parser Json)
        ((memberChars state).dropWhile isBlank) = _
    rw [EStateM.bind_of_ok (members_memberChars state fuel)]
    rfl
  unfold Json.parse
  dsimp only
  rw [toList_encode, EStateM.bind_of_ok hvalue]
  rfl

def written (state : FallbackState) : FallbackState :=
  { state with lastSeen := state.lastSeen.map (·.written) }

theorem decode_encode (state : FallbackState) : decode (encode state) = .ok state.written := by
  have hactive : activeOfJson? (toJson state.active) = some state.active := ofName?_name _
  have hmoment : momentOfJson? (momentToJson state.lastSeen) = some state.written.lastSeen := by
    unfold written
    cases state.lastSeen with
    | none => rfl
    | some moment =>
      show (Timestamp.ofText? moment.text).map some = _
      rw [moment.ofText?_text]
      rfl
  have hread : ofJson? (.object (members state)) = some state.written := by
    show (do return ⟨← activeOfJson? (toJson state.active), ← momentOfJson? (momentToJson state.lastSeen)⟩ :
      Option FallbackState) = _
    rw [hactive, hmoment]
    rfl
  unfold decode
  rw [parse_encode]
  dsimp only
  rw [hread]
  rfl

variable {v v' : Volume} {state : FallbackState}

theorem load_of_find? {after : Volume} (h : load v = .ok state after) (hfind : v'.find? fileName = v.find? fileName)
    : load v' = .ok state v' := by
  unfold load at h ⊢
  cases hentry : v.find? fileName with
  | none =>
    have hnone : ∀ w : Volume, w.find? fileName = none → Disk.read? fileName w = .ok none w := by
      intro w hw
      unfold Disk.read?
      rw [EStateM.bind_get, hw]
      rfl
    rw [EStateM.bind_of_ok (hnone v hentry)] at h
    rw [EStateM.bind_of_ok (hnone v' (hfind.trans hentry))]
    cases h
    rfl
  | some entry =>
    cases entry with
    | directory =>
      have hfailed : Disk.read? fileName v = .error Disk.isADirectory v := by
        unfold Disk.read?
        rw [EStateM.bind_get, hentry]
        rfl
      rw [EStateM.bind_of_error hfailed] at h
      cases h
    | file file =>
      rw [EStateM.bind_of_ok (Disk.read?_file hentry)] at h
      rw [EStateM.bind_of_ok (Disk.read?_file (hfind.trans hentry))]
      dsimp only at h ⊢
      cases htext : String.fromUTF8? ⟨file.content.toArray⟩ with
      | none =>
        rw [htext] at h
        cases h
      | some text =>
        rw [htext] at h
        dsimp only at h ⊢
        cases hdecoded : decode text with
        | error e =>
          rw [hdecoded] at h
          cases h
        | ok loaded =>
          rw [hdecoded] at h
          cases h
          rfl

theorem load_file {file : StoredFile} (hfile : v.find? fileName = some (.file file))
    (hcontent : file.content = Bytes.ofText (encode state))
    : load v = .ok state.written v := by
  unfold load
  rw [EStateM.bind_of_ok (Disk.read?_file hfile), hcontent]
  dsimp only
  rw [Bytes.fromUTF8?_ofText]
  dsimp only
  rw [decode_encode]
  rfl

theorem leaves_save (hv : v.Separate) (state : FallbackState)
    : EStateM.Yields (fun _ v' => v'.Separate ∧ load v' = .ok state.written v')
        (fun v' => v'.Separate ∧ v'.find? fileName = v.find? fileName) (save state v) := by
  apply (Disk.leaves_replace hv fileName (Bytes.ofText (encode state))).imp
  . rintro _ v' ⟨hseparate, id, hfile⟩
    exact ⟨hseparate, load_file hfile rfl⟩
  . exact fun _ h => h

end FallbackState

end ReplicatedStore
