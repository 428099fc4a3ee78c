import ReplicatedStore.Bytes

/-!
Half-open ranges of keys. Keys are byte strings in lexicographic order.
-/

namespace ReplicatedStore

structure KeyRange where
  min : Bytes
  max : Option Bytes
  deriving DecidableEq, Repr, Inhabited

namespace KeyRange

def successor (key : Bytes) : Bytes :=
  key ++ [0x00]

def stemEnd (stem : Bytes) : Option Bytes :=
  go stem.reverse
where
  go : Bytes → Option Bytes
    | [] => none
    | last :: before => if last = 0xff then go before else some (before.reverse ++ [last + 1])

def full : KeyRange := ⟨[], none⟩

def single (key : Bytes) : KeyRange := ⟨key, some (successor key)⟩

def startingWith (stem : Bytes) : KeyRange := ⟨stem, stemEnd stem⟩

def isFull (range : KeyRange) : Bool :=
  range.min.isEmpty && range.max.isNone

def isEmpty (range : KeyRange) : Bool :=
  match range.max with
  | some max => max ≤ range.min
  | none => false

def endsAfter (range : KeyRange) (key : Bytes) : Bool :=
  match range.max with
  | some max => key < max
  | none => true

def contains (range : KeyRange) (key : Bytes) : Bool :=
  range.min ≤ key && range.endsAfter key

def overlaps (a b : KeyRange) : Bool :=
  !a.isEmpty && !b.isEmpty && a.endsAfter b.min && b.endsAfter a.min

def reaches (a b : KeyRange) : Bool :=
  match a.max with
  | some max => b.min ≤ max
  | none => true

def touches (a b : KeyRange) : Bool :=
  a.reaches b && b.reaches a

def union (a b : KeyRange) : KeyRange where
  min := if b.min < a.min then b.min else a.min
  max :=
    match a.max, b.max with
    | some x, some y => some (if x < y then y else x)
    | _, _ => none

end KeyRange

end ReplicatedStore
