/-!
Lengths of time as they are written in messages.
-/

namespace ReplicatedStore

namespace Duration

def fraction (part : Nat) : String :=
  let digits := [part / 100 % 10, part / 10 % 10, part % 10].map Nat.digitChar
  let kept := (digits.reverse.dropWhile (· = '0')).reverse
  if kept.isEmpty then "" else "." ++ String.ofList kept

def ofMillis (millis : Nat) : String :=
  if 1000 ≤ millis then s!"{millis / 1000}{fraction (millis % 1000)}s"
  else if millis = 0 then "0ns"
  else s!"{millis}ms"

end Duration

end ReplicatedStore
