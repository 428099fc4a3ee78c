import ReplicatedStore.Binary64.Shortest
import ReplicatedStore.Config.Settings

/-!
Values that come from files and from the environment. They are converted as the configuration needs
them: a text may spell a number, a number is a text as well, and each truth value has several spellings.
-/

namespace ReplicatedStore

inductive ConfigValue where
  | absent
  | truth (value : Bool)
  | integer (value : Int)
  | real (value : Binary64)
  | text (value : String)
  | list (items : List ConfigValue)
  | table (members : List (String × ConfigValue))
  deriving Repr, Inhabited

namespace ConfigValue

def lower (text : String) : String := text.map Char.toLower

def truthOfText? (text : String) : Option Bool :=
  match lower text with
  | "1" | "true" | "on" | "yes" => some true
  | "0" | "false" | "off" | "no" => some false
  | _ => none

def naturalOfDigits? (text : String) : Option Nat :=
  let digits := match text.toList with
    | '+' :: rest => rest
    | chars => chars
  if digits.isEmpty || !digits.all Char.isDigit then none
  else
    let n := digits.foldl (fun n c => 10 * n + (c.toNat - '0'.toNat)) 0
    if n < Nat.pow 2 64 then some n else none

def naturalOfText? (text : String) : Option Nat :=
  match lower text with
  | "true" | "on" | "yes" => some 1
  | "false" | "off" | "no" => some 0
  | _ => naturalOfDigits? text

def naturalOfInt? (n : Int) : Option Nat :=
  if 0 ≤ n ∧ n.toNat < Nat.pow 2 64 then some n.toNat else none

instance : Settings ConfigValue where
  text?
    | .text t => some t
    | .truth b => some (if b then "true" else "false")
    | .integer n => some (toString n)
    | .real x => some x.text
    | _ => none
  natural?
    | .text t => naturalOfText? t
    | .truth b => some (if b then 1 else 0)
    | .integer n => naturalOfInt? n
    | .real x => some (x.toNatWithin (Nat.pow 2 64 - 1))
    | _ => none
  truth?
    | .text t => truthOfText? t
    | .truth b => some b
    | .integer n => some (n ≠ 0)
    | .real x => some !x.isZero
    | _ => none
  choice?
    | .text name | .table [(name, _)] => some name
    | _ => none
  items?
    | .list items => some items
    | _ => none
  fields? names
    | .table members => some members
    | .list items => some (names.zip items)
    | _ => none

end ConfigValue

end ReplicatedStore
