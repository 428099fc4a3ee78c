import ReplicatedStore.Timestamp
import ReplicatedStore.Timestamp.Calendar
import ReplicatedStore.WhiteSpace

/-!
Moments as texts like `2024-02-29T12:30:00.5+01:00`. A reader accepts blanks between the parts, a blank
in place of the `T`, and any offset below a day; what is written is in UTC, with as many groups of three
digits behind the seconds as the moment needs.
-/

namespace ReplicatedStore

namespace Timestamp

def padded (width n : Nat) : String :=
  let digits := toString n
  String.ofList (List.replicate (width - digits.length) '0') ++ digits

def yearText (year : Int) : String :=
  if 0 ≤ year ∧ year ≤ 9999 then padded 4 year.toNat
  else (if year < 0 then "-" else "+") ++ padded 4 year.natAbs

def fractionText (nanos : Nat) : String :=
  if nanos = 0 then ""
  else if nanos % 1000000 = 0 then "." ++ padded 3 (nanos / 1000000)
  else if nanos % 1000 = 0 then "." ++ padded 6 (nanos / 1000)
  else "." ++ padded 9 nanos

/-- The text of a moment in UTC. A leap second is written as the second after, the 60th of its minute if it
is at the end of one. -/
def text (t : Timestamp) : String :=
  let date := CalendarDate.ofDays (t.secs / 86400)
  let second := (t.secs % 86400).toNat
  let leap := t.nanos / 1000000000
  s!"{yearText date.year}-{padded 2 date.month}-{padded 2 date.day}T{padded 2 (second / 3600)}:" ++
    s!"{padded 2 (second / 60 % 60)}:{padded 2 (second % 60 + leap)}" ++
    s!"{fractionText (t.nanos % 1000000000)}Z"

abbrev TextReader := StateT (List Char) Option

namespace TextReader

def blanks : TextReader Unit := modify (·.dropWhile isWhiteSpace)

def literal (c : Char) : TextReader Unit := do
  match ← get with
  | d :: rest => if c = d then set rest else failure
  | [] => failure

def natOfDigits (digits : List Char) : Nat :=
  digits.foldl (fun n c => 10 * n + (c.toNat - '0'.toNat)) 0

def digits (most : Nat) : TextReader (List Char) := do
  let chars ← get
  let taken := (chars.take most).takeWhile Char.isDigit
  if taken.isEmpty then failure
  set (chars.drop taken.length)
  return taken

def number : TextReader Nat := do
  blanks
  return natOfDigits (← digits 2)

def year : TextReader Int := do
  blanks
  match ← get with
  | '-' :: rest =>
    set rest
    return -(natOfDigits (← digits rest.length) : Int)
  | '+' :: rest =>
    set rest
    return natOfDigits (← digits rest.length)
  | _ => return natOfDigits (← digits 4)

def separator (c : Char) : TextReader Unit := do
  blanks
  literal c

def nanos : TextReader Nat := do
  match ← get with
  | '.' :: rest =>
    set rest
    let ds ← digits 9
    modify (·.dropWhile Char.isDigit)
    return natOfDigits ds * Nat.pow 10 (9 - ds.length)
  | _ => return 0

def twoDigits : TextReader Nat := do
  match ← get with
  | a :: b :: rest =>
    if a.isDigit && b.isDigit then
      set rest
      return natOfDigits [a, b]
    else failure
  | _ => failure

def offset : TextReader Int := do
  blanks
  match ← get with
  | u :: t :: c :: rest =>
    if u.toUpper = 'U' && t.toUpper = 'T' && c.toUpper = 'C' then
      set rest
      return 0
    else signed
  | _ => signed
where
  signed : TextReader Int := do
    match ← get with
    | c :: rest =>
      set rest
      if c = 'Z' || c = 'z' then return 0
      else if c = '+' then clock
      else if c = '-' || c = '−' then return -(← clock)
      else failure
    | [] => failure
  clock : TextReader Int := do
    let hours ← twoDigits
    modify (·.dropWhile fun c => c = ':' || isWhiteSpace c)
    let minutes ← twoDigits
    if 59 < minutes then failure
    return ((hours * 3600 + minutes * 60 : Nat) : Int)

def moment : TextReader Timestamp := do
  let year ← year
  separator '-'
  let month ← number
  separator '-'
  let day ← number
  match ← get with
  | c :: rest => if c = 'T' || c = 't' || c = ' ' then set rest else failure
  | [] => failure
  let hour ← number
  separator ':'
  let minute ← number
  separator ':'
  let second ← number
  let nanos ← nanos
  let offset ← offset
  blanks
  unless (← get).isEmpty do failure
  let date : CalendarDate := { year, month, day }
  unless date.isValid && hour ≤ 23 && minute ≤ 59 && second ≤ 60 do failure
  unless -86400 < offset && offset < 86400 do failure
  let leap := second / 60
  let secondOfDay := hour * 3600 + minute * 60 + (second - leap)
  let dayStart := date.toDays * 86400
  -- both the moment itself and its reading on the local clock have to be in range
  let local? := Timestamp.ofParts? (dayStart + secondOfDay) 0
  if local?.isNone then failure
  match Timestamp.ofParts? (dayStart + secondOfDay - offset) (leap * 1000000000 + nanos) with
  | some t => return t
  | none => failure

end TextReader

def ofText? (text : String) : Option Timestamp :=
  (TextReader.moment text.toList).map (·.1)

end Timestamp

end ReplicatedStore
