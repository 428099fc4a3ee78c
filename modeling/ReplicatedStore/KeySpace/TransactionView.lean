import ReplicatedStore.Error
import ReplicatedStore.KeySpace.WriteSet

/-!
What one transaction sees: the map it began on under its own writes. Every read is noted as the range
of keys whose change could change its answer.
-/

namespace ReplicatedStore

inductive Operation where
  | get (key : Bytes)
  | atLeast (min : Bytes) (max : Option Bytes)
  | atMost (max : Bytes) (min : Option Bytes)
  | range (range : KeyRange) (reverse : Bool)
  | put (key value : Bytes)
  | remove (key : Bytes)
  | removeRange (range : KeyRange)
  deriving DecidableEq, Repr

inductive Answer where
  | value (value : Option Bytes)
  | pair (pair : Option Pair)
  | pairs (pairs : List Pair)
  | done
  deriving DecidableEq, Repr

structure TransactionView where
  base : KeyMap
  writes : WriteSet := {}
  reads : KeyRanges := {}
  readOnly : Bool := false
  closed : Bool := false
  deriving DecidableEq, Repr, Inhabited

namespace TransactionView

def close (view : TransactionView) : TransactionView :=
  { view with closed := true }

def take (view : TransactionView) : (KeyRanges × WriteSet) × TransactionView :=
  ((view.reads, view.writes), { view with reads := {}, writes := {}, closed := true })

/-- The first of ascending pairs that no removal hides. Past a hidden pair the search goes on at the
end of the removed range. -/
def seekUp (removes : KeyRanges) (pairs : List Pair) : Option Pair :=
  match pairs with
  | [] => none
  | (key, value) :: rest =>
    match removes.containing? key with
    | none => some (key, value)
    | some removed =>
      match removed.max with
      | none => none
      | some stop => seekUp removes (rest.dropWhile (·.1 < stop))
termination_by pairs.length
decreasing_by
  have := (List.dropWhile_sublist (fun p : Pair => decide (p.1 < stop)) (l := rest)).length_le
  simp only [List.length_cons]
  omega

def seekDown (removes : KeyRanges) (pairs : List Pair) : Option Pair :=
  match pairs with
  | [] => none
  | (key, value) :: rest =>
    match removes.containing? key with
    | none => some (key, value)
    | some removed => seekDown removes (rest.dropWhile (removed.min ≤ ·.1))
termination_by pairs.length
decreasing_by
  have := (List.dropWhile_sublist (fun p : Pair => decide (removed.min ≤ p.1)) (l := rest)).length_le
  simp only [List.length_cons]
  omega

def lookup (view : TransactionView) (key : Bytes) : Option Bytes :=
  match view.writes.fate key with
  | .put value => some value
  | .removed => none
  | .untouched => view.base.get? key

def lookupFirst (view : TransactionView) (range : KeyRange) : Option Pair :=
  if range.isEmpty then none
  else
    match seekUp view.writes.removes (view.base.within range), (view.writes.puts.within range).head? with
    | some below, some put => if below.1 < put.1 then some below else some put
    | _, some put => some put
    | below, none => below

def lookupLast (view : TransactionView) (range : KeyRange) : Option Pair :=
  if range.isEmpty then none
  else
    match seekDown view.writes.removes (view.base.within range).reverse,
      (view.writes.puts.within range).getLast? with
    | some below, some put => if put.1 < below.1 then some below else some put
    | _, some put => some put
    | below, none => below

def lookupRange (view : TransactionView) (range : KeyRange) : List Pair :=
  let kept := (view.base.filter range.contains).filter (fun key => !view.writes.removes.contains key)
  (kept.insertAll (view.writes.puts.within range)).pairs

def readUpTo (min : Bytes) (max : Option Bytes) (found : Option Pair) : KeyRange :=
  ⟨min, match found with
    | some pair => some (KeyRange.successor pair.1)
    | none => max⟩

def readDownTo (max : Bytes) (min : Option Bytes) (found : Option Pair) : KeyRange :=
  ⟨match found with
    | some pair => pair.1
    | none => min.getD [], some max⟩

def noting (view : TransactionView) (range : KeyRange) : TransactionView :=
  { view with reads := view.reads.add range }

def ensureOpen (view : TransactionView) : Except Error Unit :=
  if view.closed then .error .transactionClosed else .ok ()

def ensureWritable (view : TransactionView) : Except Error Unit := do
  view.ensureOpen
  if view.readOnly then throw .readOnly

def perform (view : TransactionView) : Operation → Except Error (Answer × TransactionView)
  | .get key => do
    view.ensureOpen
    return (.value (view.lookup key), view.noting (.single key))
  | .atLeast min max => do
    view.ensureOpen
    let found := view.lookupFirst ⟨min, max⟩
    return (.pair found, view.noting (readUpTo min max found))
  | .atMost max min => do
    view.ensureOpen
    let found := view.lookupLast ⟨min.getD [], some max⟩
    return (.pair found, view.noting (readDownTo max min found))
  | .range range reverse => do
    view.ensureOpen
    let pairs := if range.isEmpty then [] else view.lookupRange range
    return (.pairs (if reverse then pairs.reverse else pairs), view.noting range)
  | .put key value => do
    view.ensureWritable
    return (.done, { view with writes := view.writes.put key value })
  | .remove key => do
    view.ensureWritable
    return (.done, { view with writes := view.writes.remove key })
  | .removeRange range => do
    view.ensureWritable
    return (.done, { view with writes := view.writes.removeRange range })

end TransactionView

end ReplicatedStore
