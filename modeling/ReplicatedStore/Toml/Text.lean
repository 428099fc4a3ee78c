/-!
Blanks, comments, strings and keys of a TOML text.
-/

namespace ReplicatedStore

namespace Toml

abbrev Reader := StateT (List Char) Option

namespace Reader

def accept (c : Char) : Reader Bool := do
  match ← get with
  | d :: rest =>
    if c = d then
      set rest
      return true
    else return false
  | [] => return false

def expect (c : Char) : Reader Unit := do
  unless ← accept c do failure

def acceptAll (chars : List Char) : Reader Bool := do
  let ahead ← get
  if chars.isPrefixOf ahead then
    set (ahead.drop chars.length)
    return true
  else return false

def peek? : Reader (Option Char) := do return (← get).head?

def takeWhile (p : Char → Bool) : Reader (List Char) :=
  modifyGet fun chars => chars.span p

def isBlank (c : Char) : Bool := c = ' ' || c = '\t'

def blanks : Reader Unit := modify (·.dropWhile isBlank)

def isPlain (c : Char) : Bool := c = '\t' || (0x20 ≤ c.toNat && c ≠ '\x7f')

def comment : Reader Unit := do
  if ← accept '#' then
    let _ ← takeWhile isPlain

def acceptNewline : Reader Bool := do
  if ← accept '\n' then return true
  acceptAll ['\r', '\n']

def atEnd : Reader Bool := do return (← get).isEmpty

def endLine : Reader Unit := do
  blanks
  comment
  unless ← atEnd do
    unless ← acceptNewline do failure

def gap : Nat → Reader Unit
  | 0 => return
  | fuel + 1 => do
    blanks
    comment
    if ← acceptNewline then gap fuel

def hexValue? (c : Char) : Option Nat :=
  if '0' ≤ c ∧ c ≤ '9' then some (c.toNat - '0'.toNat)
  else if 'a' ≤ c ∧ c ≤ 'f' then some (c.toNat - 'a'.toNat + 10)
  else if 'A' ≤ c ∧ c ≤ 'F' then some (c.toNat - 'A'.toNat + 10)
  else none

def coded (count : Nat) : Reader Char := do
  let chars ← get
  let digits := (chars.take count).filterMap hexValue?
  if digits.length ≠ count then failure
  set (chars.drop count)
  let code := digits.foldl (fun n d => 16 * n + d) 0
  if 0x10FFFF < code || (0xD800 ≤ code && code ≤ 0xDFFF) then failure
  return Char.ofNat code

def escape : Reader Char := do
  match ← get with
  | [] => failure
  | c :: rest =>
    set rest
    match c with
    | 'b' => return '\x08'
    | 't' => return '\t'
    | 'n' => return '\n'
    | 'f' => return '\x0c'
    | 'r' => return '\r'
    | 'e' => return '\x1b'
    | '"' => return '"'
    | '\\' => return '\\'
    | 'x' => coded 2
    | 'u' => coded 4
    | 'U' => coded 8
    | _ => failure

def lineString (quote : Char) : Nat → List Char → Reader String
  | 0, _ => failure
  | fuel + 1, read => do
    if ← accept quote then return String.ofList read.reverse
    match ← get with
    | [] => failure
    | c :: rest =>
      set rest
      if quote = '"' && c = '\\' then lineString quote fuel ((← escape) :: read)
      else if isPlain c then lineString quote fuel (c :: read)
      else failure

def foldLines : Nat → Reader Unit
  | 0 => return
  | fuel + 1 => do
    blanks
    if ← acceptNewline then foldLines fuel

-- The rest of a string of several lines, whose line ends stay as they are written. A backslash at the end of
-- a line joins it to the next one. Up to two quotes may stand right before the closing ones.
def blockString (quote : Char) : Nat → List Char → Reader String
  | 0, _ => failure
  | fuel + 1, read => do
    if ← acceptAll [quote, quote, quote] then
      if ← acceptAll [quote, quote] then return String.ofList (read.reverse ++ [quote, quote])
      if ← accept quote then return String.ofList (read.reverse ++ [quote])
      return String.ofList read.reverse
    if ← accept '\n' then return ← blockString quote fuel ('\n' :: read)
    if ← acceptAll ['\r', '\n'] then return ← blockString quote fuel ('\n' :: '\r' :: read)
    match ← get with
    | [] => failure
    | c :: rest =>
      set rest
      if quote = '"' && c = '\\' then
        let behind := rest.dropWhile isBlank
        if behind.head? = some '\n' || ['\r', '\n'].isPrefixOf behind then
          foldLines fuel
          blockString quote fuel read
        else blockString quote fuel ((← escape) :: read)
      else if isPlain c then blockString quote fuel (c :: read)
      else failure

def string (fuel : Nat) (quote : Char) : Reader String := do
  if ← acceptAll [quote, quote, quote] then
    let _ ← acceptNewline
    blockString quote fuel []
  else
    expect quote
    lineString quote fuel []

def isBareKey (c : Char) : Bool := c.isAlphanum || c = '_' || c = '-'

def simpleKey (fuel : Nat) : Reader String := do
  match ← peek? with
  | some '"' =>
    expect '"'
    lineString '"' fuel []
  | some '\'' =>
    expect '\''
    lineString '\'' fuel []
  | _ =>
    match ← takeWhile isBareKey with
    | [] => failure
    | key => return String.ofList key

def dottedKey : Nat → Reader (List String)
  | 0 => failure
  | fuel + 1 => do
    blanks
    let first ← simpleKey fuel
    blanks
    if ← accept '.' then return first :: (← dottedKey fuel)
    else return [first]

end Reader

end Toml

end ReplicatedStore
