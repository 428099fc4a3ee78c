import ReplicatedStore.Json

/-!
Writes JSON values, on one line or with one item a line.
-/

namespace ReplicatedStore

namespace Json

def escape (c : Char) : String :=
  match c with
  | '"' => "\\\""
  | '\\' => "\\\\"
  | '\x08' => "\\b"
  | '\x0c' => "\\f"
  | '\n' => "\\n"
  | '\r' => "\\r"
  | '\t' => "\\t"
  | c =>
    if c.toNat < 0x20 then
      "\\u00" ++ String.ofList [Nat.digitChar (c.toNat / 16), Nat.digitChar (c.toNat % 16)]
    else c.toString

def quoted (text : String) : String :=
  text.foldl (fun s c => if c = '"' || c = '\\' || c.toNat < 0x20 then s ++ escape c else s.push c)
    "\"" ++ "\""

def decimalText (mantissa exponent : Int) : String :=
  s!"{mantissa}e{exponent}"

def unreadableText : String := "\"\\ud800\""

mutual

def compactOnto (text : String) : Json → String
  | .null => text ++ "null"
  | .bool b => text ++ (if b then "true" else "false")
  | .integer n => text ++ toString n
  | .decimal m e => text ++ decimalText m e
  | .string s => text ++ quoted s
  | .unreadable => text ++ unreadableText
  | .array [] => text ++ "[]"
  | .array (item :: rest) => itemsOnto (compactOnto (text.push '[') item) rest
  | .object [] => text ++ "\x7b\x7d"
  | .object ((name, item) :: rest) =>
    membersOnto (compactOnto ((text.push '\x7b' ++ quoted name).push ':') item) rest

def itemsOnto (text : String) : List Json → String
  | [] => text.push ']'
  | item :: rest => itemsOnto (compactOnto (text.push ',') item) rest

def membersOnto (text : String) : List (String × Json) → String
  | [] => text.push '\x7d'
  | (name, item) :: rest =>
    membersOnto (compactOnto ((text.push ',' ++ quoted name).push ':') item) rest

end

def compact (json : Json) : String := compactOnto "" json

def newLine (depth : Nat) : String := "\n" ++ String.ofList (List.replicate (2 * depth) ' ')

mutual

def prettyOnto (depth : Nat) (text : String) : Json → String
  | .array (item :: rest) =>
    prettyItems depth (prettyOnto (depth + 1) (text ++ "[" ++ newLine (depth + 1)) item) rest
  | .object ((name, item) :: rest) =>
    prettyMembers depth
      (prettyOnto (depth + 1) (text ++ "\x7b" ++ newLine (depth + 1) ++ quoted name ++ ": ") item) rest
  | .null => text ++ "null"
  | .bool b => text ++ (if b then "true" else "false")
  | .integer n => text ++ toString n
  | .decimal m e => text ++ decimalText m e
  | .string s => text ++ quoted s
  | .unreadable => text ++ unreadableText
  | .array [] => text ++ "[]"
  | .object [] => text ++ "\x7b\x7d"

def prettyItems (depth : Nat) (text : String) : List Json → String
  | [] => text ++ newLine depth ++ "]"
  | item :: rest =>
    prettyItems depth (prettyOnto (depth + 1) (text ++ "," ++ newLine (depth + 1)) item) rest

def prettyMembers (depth : Nat) (text : String) : List (String × Json) → String
  | [] => text ++ newLine depth ++ "\x7d"
  | (name, item) :: rest =>
    prettyMembers depth
      (prettyOnto (depth + 1) (text ++ "," ++ newLine (depth + 1) ++ quoted name ++ ": ") item) rest

end

def pretty (json : Json) : String := prettyOnto 0 "" json

end Json

end ReplicatedStore
