import ReplicatedStore.KeySpace.KeyRange

/-!
Sets of keys as lists of ranges. A set that `add` builds is sorted, and its ranges neither overlap
nor abut; a list that comes from elsewhere may be in any order.
-/

namespace ReplicatedStore

structure KeyRanges where
  ranges : List KeyRange := []
  deriving DecidableEq, Repr, Inhabited

namespace KeyRanges

def empty : KeyRanges := ⟨[]⟩

def full : KeyRanges := ⟨[.full]⟩

def isEmpty (set : KeyRanges) : Bool := set.ranges.isEmpty

def size (set : KeyRanges) : Nat := set.ranges.length

def absorb (merged : KeyRange) : List KeyRange → KeyRange × List KeyRange
  | [] => (merged, [])
  | r :: rest =>
    if r.touches merged then absorb (merged.union r) rest
    else
      let (merged, apart) := absorb merged rest
      (merged, r :: apart)

def add (set : KeyRanges) (range : KeyRange) : KeyRanges :=
  if range.isEmpty then set
  else
    let (merged, apart) := absorb range set.ranges
    ⟨apart.takeWhile (·.min < merged.min) ++ merged :: apart.dropWhile (·.min < merged.min)⟩

def insert (set : KeyRanges) (key : Bytes) : KeyRanges :=
  set.add (.single key)

def union (set other : KeyRanges) : KeyRanges :=
  other.ranges.foldl add set

def ofList (ranges : List KeyRange) : KeyRanges :=
  ranges.foldl add empty

-- Where a binary search for the end of a run of ranges with `p` arrives. On a list that does not begin with
-- all its ranges with `p`, it still arrives at one place.
def boundary (p : KeyRange → Bool) (ranges : List KeyRange) : Nat :=
  match ranges with
  | [] => 0
  | _ :: _ => close (go 0 ranges.length)
where
  holdsAt (i : Nat) : Bool := (ranges[i]?).any p
  close (start : Nat) : Nat := if holdsAt start then start + 1 else start
  go (start size : Nat) : Nat :=
    if 1 < size then
      let half := size / 2
      go (if holdsAt (start + half) then start + half else start) (size - half)
    else start
  termination_by size
  decreasing_by omega

def containing? (set : KeyRanges) (key : Bytes) : Option KeyRange :=
  match boundary (·.min ≤ key) set.ranges with
  | 0 => none
  | i + 1 => set.ranges[i]?.filter (·.contains key)

def contains (set : KeyRanges) (key : Bytes) : Bool :=
  (set.containing? key).isSome

def intersects (set : KeyRanges) (range : KeyRange) : Bool :=
  set.ranges.any (·.overlaps range)

def meets (set other : KeyRanges) : Bool :=
  other.ranges.any set.intersects

end KeyRanges

end ReplicatedStore
