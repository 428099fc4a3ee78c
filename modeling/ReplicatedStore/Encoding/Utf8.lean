import ReplicatedStore.Bytes

/-!
Text from bytes, and where bytes stop being UTF-8.
-/

namespace ReplicatedStore

namespace Utf8

-- The first place at which bytes are not UTF-8: either `length` bytes that start no character, or the
-- beginning of a character that the input cuts off.
inductive Fault where
  | invalid (length index : Nat)
  | incomplete (index : Nat)
  deriving DecidableEq, Repr

def Fault.message : Fault → String
  | .invalid length index => s!"invalid utf-8 sequence of {length} bytes from index {index}"
  | .incomplete index => s!"incomplete utf-8 byte sequence from index {index}"

def width? (first : UInt8) : Option Nat :=
  if first < 0x80 then some 1
  else if first < 0xc2 then none
  else if first < 0xe0 then some 2
  else if first < 0xf0 then some 3
  else if first < 0xf5 then some 4
  else none

-- Whether a byte may come second in a character: this bars overlong forms, surrogates and code points beyond
-- the last plane.
def secondFits (first second : UInt8) : Bool :=
  let least := if first = 0xe0 then 0xa0 else if first = 0xf0 then 0x90 else 0x80
  let greatest := if first = 0xed then 0x9f else if first = 0xf4 then 0x8f else 0xbf
  least ≤ second && second ≤ greatest

def isContinuation (b : UInt8) : Bool :=
  0x80 ≤ b && b ≤ 0xbf

def checkRest (index : Nat) : Nat → Nat → Bytes → Option Fault
  | 0, _, _ => none
  | _ + 1, _, [] => some (.incomplete index)
  | missing + 1, seen, b :: rest =>
    if isContinuation b then checkRest index missing (seen + 1) rest else some (.invalid seen index)

def checkCharacter (index : Nat) (first : UInt8) (rest : Bytes) : Except Fault Nat :=
  match width? first with
  | none => .error (.invalid 1 index)
  | some 1 => .ok 1
  | some width =>
    match rest with
    | [] => .error (.incomplete index)
    | second :: rest =>
      if secondFits first second then
        match checkRest index (width - 2) 2 rest with
        | none => .ok width
        | some fault => .error fault
      else .error (.invalid 1 index)

def firstFault (index : Nat) (input : Bytes) : Option Fault :=
  match input with
  | [] => none
  | first :: rest =>
    match checkCharacter index first rest with
    | .error fault => some fault
    | .ok width => firstFault (index + width) (rest.drop (width - 1))
termination_by input.length
decreasing_by
  simp only [List.length_drop, List.length_cons]
  omega

def decode (input : Bytes) : Except Fault String :=
  match String.fromUTF8? ⟨input.toArray⟩ with
  | some text => .ok text
  | none => .error ((firstFault 0 input).getD (.incomplete 0))

end Utf8

end ReplicatedStore
