import Mathlib.Algebra.Group.Nat.Defs
import ReplicatedStore.Proofs.Timestamp.Calendar
import ReplicatedStore.Timestamp.Text

/-!
The text of a moment names that moment, except that a leap second inside a minute is written as the second
after it.
-/

namespace ReplicatedStore

namespace Timestamp

def paddedChars (width n : Nat) : List Char :=
  List.replicate (width - (Nat.toDigits 10 n).length) '0' ++ Nat.toDigits 10 n

theorem toList_padded (width n : Nat) : (padded width n).toList = paddedChars width n := by
  have hdigits : (toString n).toList = Nat.toDigits 10 n := by simp
  unfold padded paddedChars
  dsimp only
  rw [String.toList_append, String.toList_ofList, ← String.length_toList, hdigits]

theorem isDigit_paddedChars {width n : Nat} {c : Char} (h : c ∈ paddedChars width n) : c.isDigit = true := by
  rcases List.mem_append.1 h with h | h
  . rw [List.eq_of_mem_replicate h]
    rfl
  . exact Nat.isDigit_of_mem_toDigits (by decide) (by decide) h

theorem length_paddedChars {width n : Nat} (hpos : 0 < width) (hn : n < 10 ^ width)
    : (paddedChars width n).length = width := by
  have hle := (Nat.length_toDigits_le_iff (by decide) hpos).2 hn
  unfold paddedChars
  rw [List.length_append, List.length_replicate]
  exact Nat.sub_add_cancel hle

theorem paddedChars_ne_nil (width n : Nat) : paddedChars width n ≠ [] := by
  have hpos := Nat.length_toDigits_pos (b := 10) (n := n)
  unfold paddedChars
  intro hnil
  rw [(List.append_eq_nil_iff.1 hnil).2] at hpos
  cases hpos

theorem isDigit_not_blank {c : Char} (h : c.isDigit = true) : isWhiteSpace c = false := by
  unfold Char.isDigit at h
  rw [Bool.and_eq_true, decide_eq_true_eq, decide_eq_true_eq] at h
  obtain ⟨hge, hle⟩ := h
  have hlow : 48 ≤ c.toNat := hge
  have hhigh : c.toNat ≤ 57 := hle
  unfold isWhiteSpace
  simp
  omega

namespace TextReader

variable {α β : Type} {a : α} {chars rest : List Char}

theorem natOfDigits_paddedChars (width n : Nat) : natOfDigits (paddedChars width n) = n := by
  have hvalue : Nat.ofDigitChars 10 (paddedChars width n) 0 = n := by
    unfold paddedChars
    rw [Nat.ofDigitChars_append, Nat.ofDigitChars_replicate_zero, Nat.mul_zero, Nat.ofDigitChars_ten_toDigits]
  exact hvalue

theorem bind_of_some {x : TextReader α} {f : α → TextReader β} (h : x chars = some (a, rest))
    : (x >>= f) chars = f a rest := by
  show Option.bind (x chars) _ = _
  rw [h]
  rfl

theorem bind_get {f : List Char → TextReader β} : (get >>= f) chars = f chars chars := by
  rfl

theorem bind_set {f : PUnit → TextReader β} : (set rest >>= f) chars = f ⟨⟩ rest := by
  rfl

theorem digits_append {most : Nat} {ds : List Char} (hdigits : ∀ c ∈ ds, c.isDigit = true) (hne : ds ≠ [])
    (hle : ds.length ≤ most) (hrest : ds.length = most ∨ rest.head?.all (!·.isDigit) = true)
    : digits most (ds ++ rest) = some (ds, rest) := by
  have htaken : ((ds ++ rest).take most).takeWhile Char.isDigit = ds := by
    rw [List.take_append, List.take_of_length_le hle, List.takeWhile_append_of_pos hdigits]
    have hnone : (rest.take (most - ds.length)).takeWhile Char.isDigit = [] := by
      rcases hrest with hmost | hrest
      . rw [hmost, Nat.sub_self]
        rfl
      . cases rest with
        | nil => simp
        | cons c rest =>
          cases most - ds.length with
          | zero => rfl
          | succ k =>
            rw [List.take_succ_cons, List.takeWhile_cons_of_neg]
            simpa using hrest
    rw [hnone, List.append_nil]
  unfold digits
  rw [bind_get]
  dsimp only
  rw [htaken, if_neg (by simpa using hne)]
  have hdrop : (ds ++ rest).drop ds.length = rest := List.drop_left
  show some (ds, (ds ++ rest).drop ds.length) = _
  rw [hdrop]

theorem blanks_of_head? (h : chars.head?.all (!isWhiteSpace ·) = true) : blanks chars = some ((), chars) := by
  cases chars with
  | nil => rfl
  | cons c rest =>
    have hc : isWhiteSpace c = false := by simpa using h
    show some ((), (c :: rest).dropWhile isWhiteSpace) = _
    rw [List.dropWhile_cons_of_neg (by simp [hc])]

theorem separator_cons {c : Char} (hc : isWhiteSpace c = false) (rest : List Char)
    : separator c (c :: rest) = some ((), rest) := by
  unfold separator literal
  rw [bind_of_some (blanks_of_head? (by simpa using hc))]
  rw [bind_get]
  dsimp only
  rw [if_pos rfl]
  rfl

theorem head?_paddedChars (width n : Nat) (rest : List Char)
    : ∃ c tail, paddedChars width n ++ rest = c :: tail ∧ c.isDigit = true := by
  cases h : paddedChars width n with
  | nil => exact absurd h (paddedChars_ne_nil width n)
  | cons c tail => exact ⟨c, tail ++ rest, rfl, isDigit_paddedChars (h ▸ List.mem_cons_self)⟩

theorem blanks_paddedChars (width n : Nat) (rest : List Char)
    : blanks (paddedChars width n ++ rest) = some ((), paddedChars width n ++ rest) := by
  obtain ⟨c, tail, h, hdigit⟩ := head?_paddedChars width n rest
  apply blanks_of_head?
  rw [h]
  simpa using isDigit_not_blank hdigit

theorem number_paddedChars {n : Nat} (hn : n < 100) (rest : List Char)
    : number (paddedChars 2 n ++ rest) = some (n, rest) := by
  have hlength : (paddedChars 2 n).length = 2 := length_paddedChars (by decide) hn
  unfold number
  rw [bind_of_some (blanks_paddedChars 2 n rest)]
  rw [bind_of_some (digits_append (fun _ => isDigit_paddedChars) (paddedChars_ne_nil 2 n)
    (Nat.le_of_eq hlength) (.inl hlength))]
  rw [natOfDigits_paddedChars]
  rfl

theorem digits_year (n : Nat) (rest : List Char)
    : digits (paddedChars 4 n ++ '-' :: rest).length (paddedChars 4 n ++ '-' :: rest)
        =
      some (paddedChars 4 n, '-' :: rest) := by
  apply digits_append (fun _ => isDigit_paddedChars) (paddedChars_ne_nil 4 n)
  . rw [List.length_append]
    exact Nat.le_add_right _ _
  . exact .inr rfl

theorem year_yearText (y : Int) (rest : List Char)
    : year ((yearText y).toList ++ '-' :: rest) = some (y, '-' :: rest) := by
  unfold yearText
  -- a year of four digits is bare, any other has its sign
  split
  . next hplain =>
    have hlength : (paddedChars 4 y.toNat).length = 4 := length_paddedChars (by decide) (by omega)
    obtain ⟨c, tail, h, hdigit⟩ := head?_paddedChars 4 y.toNat ('-' :: rest)
    have hdigits : digits 4 (paddedChars 4 y.toNat ++ '-' :: rest) = some (paddedChars 4 y.toNat, '-' :: rest) :=
      digits_append (fun _ => isDigit_paddedChars) (paddedChars_ne_nil 4 y.toNat) (Nat.le_of_eq hlength) (.inl hlength)
    rw [toList_padded]
    unfold year
    rw [bind_of_some (blanks_paddedChars _ _ _), bind_get]
    generalize paddedChars 4 y.toNat ++ '-' :: rest = chars at h hdigits ⊢
    split
    . cases h
      exact absurd hdigit (by decide)
    . cases h
      exact absurd hdigit (by decide)
    . rw [bind_of_some hdigits, natOfDigits_paddedChars, Int.toNat_of_nonneg hplain.1]
      rfl
  . next hsigned =>
    have hdigits := digits_year y.natAbs rest
    split
    . next hnegative =>
      have hvalue : -((y.natAbs : Nat) : Int) = y := by omega
      rw [String.toList_append, toList_padded]
      show year ('-' :: (paddedChars 4 y.natAbs ++ '-' :: rest)) = _
      unfold year
      rw [bind_of_some (blanks_of_head? rfl), bind_get]
      show ((set (paddedChars 4 y.natAbs ++ '-' :: rest) >>= fun _ => _) : TextReader Int) _ = _
      rw [bind_set, bind_of_some hdigits, natOfDigits_paddedChars, hvalue]
      rfl
    . next hnonnegative =>
      have hvalue : ((y.natAbs : Nat) : Int) = y := by omega
      rw [String.toList_append, toList_padded]
      show year ('+' :: (paddedChars 4 y.natAbs ++ '-' :: rest)) = _
      unfold year
      rw [bind_of_some (blanks_of_head? rfl), bind_get]
      show ((set (paddedChars 4 y.natAbs ++ '-' :: rest) >>= fun _ => _) : TextReader Int) _ = _
      rw [bind_set, bind_of_some hdigits, natOfDigits_paddedChars, hvalue]
      rfl

theorem nanos_point {width n : Nat} (hpos : 0 < width) (hwidth : width ≤ 9) (hn : n < 10 ^ width)
    (rest : List Char)
    : nanos ('.' :: (paddedChars width n ++ 'Z' :: rest))
        =
      some (n * Nat.pow 10 (9 - width), 'Z' :: rest) := by
  have hlength := length_paddedChars hpos hn
  unfold nanos
  rw [bind_get]
  show ((set (paddedChars width n ++ 'Z' :: rest) >>= fun _ => _) : TextReader Nat) _ = _
  rw [bind_set]
  rw [bind_of_some (digits_append (fun _ => isDigit_paddedChars) (paddedChars_ne_nil width n)
    (Nat.le_trans (Nat.le_of_eq hlength) hwidth) (.inr rfl))]
  rw [natOfDigits_paddedChars, hlength]
  rfl

theorem nanos_fractionText {n : Nat} (hn : n < 1000000000) (rest : List Char)
    : nanos ((fractionText n).toList ++ 'Z' :: rest) = some (n, 'Z' :: rest) := by
  unfold fractionText
  split
  . next hzero =>
    rw [hzero]
    rfl
  . split
    . next hmillis =>
      rw [String.toList_append, toList_padded]
      show nanos ('.' :: (paddedChars 3 (n / 1000000) ++ 'Z' :: rest)) = _
      rw [nanos_point (by decide) (by decide) (show n / 1000000 < 10 ^ 3 by omega)]
      rw [show n / 1000000 * Nat.pow 10 (9 - 3) = n from
        show n / 1000000 * 1000000 = n by omega]
    . split
      . next hmicros =>
        rw [String.toList_append, toList_padded]
        show nanos ('.' :: (paddedChars 6 (n / 1000) ++ 'Z' :: rest)) = _
        rw [nanos_point (by decide) (by decide) (show n / 1000 < 10 ^ 6 by omega)]
        rw [show n / 1000 * Nat.pow 10 (9 - 6) = n from show n / 1000 * 1000 = n by omega]
      . rw [String.toList_append, toList_padded]
        show nanos ('.' :: (paddedChars 9 n ++ 'Z' :: rest)) = _
        rw [nanos_point (by decide) (by decide) (show n < 10 ^ 9 from hn)]
        rw [show n * Nat.pow 10 (9 - 9) = n from Nat.mul_one n]

end TextReader

def secondOfDay (t : Timestamp) : Nat :=
  (t.secs % 86400).toNat

def leap (t : Timestamp) : Nat :=
  t.nanos / 1000000000

def date (t : Timestamp) : CalendarDate :=
  CalendarDate.ofDays (t.secs / 86400)

theorem toList_text (t : Timestamp)
    : t.text.toList
        =
      (yearText t.date.year).toList ++ '-' :: (paddedChars 2 t.date.month ++ '-' :: (paddedChars 2 t.date.day ++
        'T' :: (paddedChars 2 (t.secondOfDay / 3600) ++ ':' :: (paddedChars 2 (t.secondOfDay / 60 % 60) ++
        ':' :: (paddedChars 2 (t.secondOfDay % 60 + t.leap) ++
        ((fractionText (t.nanos % 1000000000)).toList ++ ['Z'])))))) := by
  have hself : ∀ part : String, toString part = part := fun _ => rfl
  unfold text secondOfDay leap date
  simp only [hself, String.toList_append, toList_padded, List.append_assoc, String.reduceToList,
    List.cons_append, List.nil_append]

theorem secondOfDay_spec (t : Timestamp)
    : t.secondOfDay < 86400 ∧ t.secs = t.secs / 86400 * 86400 + t.secondOfDay := by
  unfold secondOfDay
  omega

theorem leap_spec (t : Timestamp)
    : t.leap ≤ 1 ∧ t.leap * 1000000000 + t.nanos % 1000000000 = t.nanos := by
  obtain ⟨-, -, hnanos⟩ := t.valid
  unfold leap
  omega

-- the range ends with a minute, so there is a second after every other one
theorem valid_next {t : Timestamp} (h : ¬ LeapEndsMinute t.secs t.nanos)
    : Valid (t.secs + 1) (t.nanos - 1000000000) := by
  obtain ⟨hleast, hgreatest, hnanos⟩ := t.valid
  unfold LeapEndsMinute at h
  unfold Valid leastSeconds greatestSeconds at *
  omega

def written (t : Timestamp) : Timestamp :=
  if h : LeapEndsMinute t.secs t.nanos then t else ⟨t.secs + 1, t.nanos - 1000000000, valid_next h⟩

theorem written_spec (t : Timestamp)
    : LeapEndsMinute t.written.secs t.written.nanos ∧
        t.written.secs = t.secs / 86400 * 86400 +
          ((t.secondOfDay / 3600 * 3600 + t.secondOfDay / 60 % 60 * 60 +
            (t.secondOfDay % 60 + t.leap - (t.secondOfDay % 60 + t.leap) / 60) : Nat) : Int) ∧
        t.written.nanos = (t.secondOfDay % 60 + t.leap) / 60 * 1000000000 + t.nanos % 1000000000 := by
  obtain ⟨-, -, hbound⟩ := t.valid
  obtain ⟨hsecond, hsecs⟩ := t.secondOfDay_spec
  obtain ⟨hleap, hnanos⟩ := t.leap_spec
  by_cases h : LeapEndsMinute t.secs t.nanos
  . have hwritten : t.written = t := dif_pos h
    rw [hwritten]
    refine ⟨h, ?_⟩
    unfold LeapEndsMinute at h
    omega
  . have hwritten : t.written = ⟨t.secs + 1, t.nanos - 1000000000, valid_next h⟩ := dif_neg h
    rw [hwritten]
    unfold LeapEndsMinute at h ⊢
    dsimp only
    omega

theorem isSome_ofParts? (t : Timestamp) : (ofParts? t.secs 0).isNone = false := by
  obtain ⟨hleast, hgreatest, -⟩ := t.valid
  have hvalid : Valid t.secs 0 ∧ LeapEndsMinute t.secs 0 := ⟨⟨hleast, hgreatest, by decide⟩, nofun⟩
  unfold ofParts?
  rw [dif_pos hvalid]
  rfl

theorem ofParts?_self {t : Timestamp} (h : LeapEndsMinute t.secs t.nanos) : ofParts? t.secs t.nanos = some t := by
  unfold ofParts?
  rw [dif_pos ⟨t.valid, h⟩]

theorem date_lt (t : Timestamp) : t.date.month < 100 ∧ t.date.day < 100 := by
  have hvalid : t.date.isValid = true := CalendarDate.isValid_ofDays _
  have hdays : CalendarDate.daysInMonth t.date.year t.date.month ≤ 31 := by
    unfold CalendarDate.daysInMonth
    split
    . split <;> decide
    all_goals decide
  unfold CalendarDate.isValid at hvalid
  simp only [Bool.and_eq_true, decide_eq_true_eq] at hvalid
  omega

open TextReader in
theorem ofText?_text (t : Timestamp) : ofText? t.text = some t.written := by
  obtain ⟨hsecond, -⟩ := t.secondOfDay_spec
  obtain ⟨hleap, -⟩ := t.leap_spec
  obtain ⟨hlast, hsecs, hnanos⟩ := t.written_spec
  have hdate : t.date.isValid = true := CalendarDate.isValid_ofDays _
  have hdays : t.date.toDays = t.secs / 86400 := CalendarDate.toDays_ofDays _
  obtain ⟨hmonth, hday⟩ := t.date_lt
  unfold ofText?
  rw [toList_text]
  unfold moment
  rw [bind_of_some (year_yearText _ _), bind_of_some (separator_cons rfl _),
    bind_of_some (number_paddedChars hmonth _), bind_of_some (separator_cons rfl _),
    bind_of_some (number_paddedChars hday _), bind_get]
  dsimp only
  rw [if_pos (by decide), bind_set]
  rw [bind_of_some (number_paddedChars (by omega) _), bind_of_some (separator_cons rfl _),
    bind_of_some (number_paddedChars (by omega) _), bind_of_some (separator_cons rfl _),
    bind_of_some (number_paddedChars (by omega) _),
    bind_of_some (nanos_fractionText (by omega) _),
    bind_of_some (show offset ['Z'] = some (0, []) from rfl),
    bind_of_some (show blanks [] = some ((), []) from rfl), bind_get]
  have hbounds : ({ year := t.date.year, month := t.date.month, day := t.date.day : CalendarDate }.isValid &&
      decide (t.secondOfDay / 3600 ≤ 23) && decide (t.secondOfDay / 60 % 60 ≤ 59) &&
      decide (t.secondOfDay % 60 + t.leap ≤ 60)) = true := by
    rw [show ({ year := t.date.year, month := t.date.month, day := t.date.day : CalendarDate }) = t.date from rfl,
      hdate]
    simp only [Bool.true_and, Bool.and_eq_true, decide_eq_true_eq]
    omega
  have hsame : ({ year := t.date.year, month := t.date.month, day := t.date.day : CalendarDate }.toDays * 86400 +
      ((t.secondOfDay / 3600 * 3600 + t.secondOfDay / 60 % 60 * 60 +
        (t.secondOfDay % 60 + t.leap - (t.secondOfDay % 60 + t.leap) / 60) : Nat) : Int)) = t.written.secs := by
    rw [show ({ year := t.date.year, month := t.date.month, day := t.date.day : CalendarDate }) = t.date from rfl,
      hdays, hsecs]
  rw [hsame, ← hnanos]
  rw [if_pos (show ([] : List Char).isEmpty = true from rfl), if_pos hbounds, if_pos (by decide),
    t.written.isSome_ofParts?, if_neg nofun, Int.sub_zero, ofParts?_self hlast]
  rfl

end Timestamp

end ReplicatedStore
