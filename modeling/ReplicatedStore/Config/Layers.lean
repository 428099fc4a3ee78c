import ReplicatedStore.Config
import ReplicatedStore.Toml.Document

/-!
A configuration in layers: a file, and environment variables over it. Tables are laid over each other
member by member; any other value takes the place of the one below.
-/

namespace ReplicatedStore

inductive PathStep where
  | name (name : String)
  | index (index : Int)
  deriving DecidableEq, Repr

namespace PathStep

def isNameChar (c : Char) : Bool := c.isAlphanum || c = '_' || c = '-'

def isBlank (c : Char) : Bool := c = ' ' || c = '\t'

def index? (chars : List Char) : Option (Int × List Char) := do
  let chars := chars.dropWhile isBlank
  let (negative, chars) := match chars with
    | '-' :: rest => (true, rest)
    | _ => (false, chars)
  let (digits, rest) := chars.span Char.isDigit
  let n := digits.foldl (fun n c => 10 * n + (c.toNat - '0'.toNat)) 0
  match rest.dropWhile isBlank with
  | ']' :: rest =>
    if digits.isEmpty || Nat.pow 2 63 ≤ n then none
    else return (if negative then -(n : Int) else n, rest)
  | _ => none

def more? : Nat → List Char → Option (List PathStep)
  | _, [] => some []
  | fuel + 1, '.' :: rest => do
    let (chars, rest) := rest.span isNameChar
    if chars.isEmpty then none
    return .name (String.ofList chars) :: (← more? fuel rest)
  | fuel + 1, '[' :: rest => do
    let (i, rest) ← index? rest
    return .index i :: (← more? fuel rest)
  | _, _ => none

def ofText (text : String) : List PathStep :=
  let (chars, rest) := text.toList.span isNameChar
  if chars.isEmpty then [.name text]
  else
    match more? text.length rest with
    | some steps => .name (String.ofList chars) :: steps
    | none => [.name text]

end PathStep

namespace ConfigValue

abbrev Members := List (String × ConfigValue)

def members : ConfigValue → Members
  | .table members => members
  | _ => []

def items : ConfigValue → List ConfigValue
  | .list items => items
  | _ => []

def putMember (name : String) (value : ConfigValue) (known : Members) : Members :=
  if (known.lookup name).isSome then known.map fun (n, old) => (n, if n = name then value else old)
  else known ++ [(name, value)]

mutual

def overlay : ConfigValue → (below : ConfigValue) → ConfigValue
  | .table given, below => .table (overlayMembers given below.members)
  | .absent, _ => .absent
  | .truth b, _ => .truth b
  | .integer n, _ => .integer n
  | .real x, _ => .real x
  | .text t, _ => .text t
  | .list items, _ => .list items

def overlayMembers : Members → (below : Members) → Members
  | [], below => below
  | (name, value) :: rest, below =>
    overlayMembers rest (putMember name (overlay value ((below.lookup name).getD .absent)) below)

end

def withIndex (items : List ConfigValue) (index : Int) : List ConfigValue × Nat :=
  let size := items.length
  match index with
  | .ofNat i => (items ++ List.replicate (i + 1 - size) .absent, i)
  | .negSucc i => (List.replicate (i + 1 - size) .absent ++ items, size - (i + 1))

def change (f : ConfigValue → ConfigValue) : List PathStep → ConfigValue → ConfigValue
  | [], value => f value
  | .name name :: path, value =>
    let known := value.members
    .table (putMember name (change f path ((known.lookup name).getD .absent)) known)
  | .index index :: path, value =>
    let (items, i) := withIndex value.items index
    .list (items.modify i (change f path))

def lay (layer : Members) (below : ConfigValue) : ConfigValue :=
  layer.foldl (fun value (name, member) => value.change (overlay member) (PathStep.ofText name)) below

end ConfigValue

namespace Config

def environmentStem : String := "quorumkv__"

def dotted : List Char → List Char
  | '_' :: '_' :: rest => '.' :: dotted rest
  | c :: rest => c :: dotted rest
  | [] => []

def environmentSetting? (name value : String) : Option (String × ConfigValue) :=
  let chars := (ConfigValue.lower name).toList
  let stem := environmentStem.toList
  if stem.isPrefixOf chars then
    some (String.ofList (dotted (chars.drop stem.length)), .text value)
  else none

inductive File where
  | missing
  | content (text : String)
  deriving DecidableEq, Repr

def fileSettings : File → Except Error ConfigValue.Members
  | .missing => .error (.config "the file is missing")
  | .content text =>
    (Toml.parse (String.ofList (Toml.withoutMark text.toList))).elim
      (.error (.config "the file is malformed")) .ok

def load (file : Option File) (environment : List (String × String)) : Except Error Config := do
  let layer ← match file with
    | none => pure []
    | some file => fileSettings file
  let overrides := environment.filterMap fun (name, value) => environmentSetting? name value
  let settings := (ConfigValue.table []).lay layer |>.lay overrides
  (Config.ofSettings? settings).elim (.error (.config "a setting is malformed")) .ok

def loadValid (file : Option File) (environment : List (String × String)) : Except Error Config := do
  let config ← load file environment
  config.validate
  return config

end Config

end ReplicatedStore
