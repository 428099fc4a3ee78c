import ReplicatedStore.Encoding.VarInt
import ReplicatedStore.KeySpace.KeyRange

/-!
Maps from keys to values, in the order of the keys, and their stored form: the number of pairs, then
each key and value behind its length.
-/

namespace ReplicatedStore

abbrev Pair := Bytes × Bytes

structure KeyMap where
  pairs : List Pair
  sorted : pairs.Pairwise (fun a b => a.1 < b.1)
  deriving DecidableEq, Repr

namespace KeyMap

def empty : KeyMap := ⟨[], .nil⟩

instance : Inhabited KeyMap := ⟨empty⟩

def isEmpty (map : KeyMap) : Bool := map.pairs.isEmpty

def size (map : KeyMap) : Nat := map.pairs.length

def keys (map : KeyMap) : List Bytes := map.pairs.map (·.1)

def get? (map : KeyMap) (key : Bytes) : Option Bytes :=
  map.pairs.lookup key

def place (key value : Bytes) : List Pair → List Pair
  | [] => [(key, value)]
  | (k, v) :: rest =>
    if key < k then (key, value) :: (k, v) :: rest
    else if key = k then (key, value) :: rest
    else (k, v) :: place key value rest

theorem mem_place {key value : Bytes} {pairs : List Pair} {p : Pair}
    (h : p ∈ place key value pairs) : p = (key, value) ∨ p ∈ pairs := by
  induction pairs with
  | nil => simpa [place] using h
  | cons q rest ih =>
    obtain ⟨k, v⟩ := q
    simp only [place] at h
    split at h
    · simpa using h
    · split at h
      · rcases List.mem_cons.1 h with h | h
        · exact .inl h
        · exact .inr (List.mem_cons_of_mem _ h)
      · rcases List.mem_cons.1 h with h | h
        · exact .inr (h ▸ List.mem_cons_self)
        · exact (ih h).imp_right (List.mem_cons_of_mem _)

theorem place_sorted {key value : Bytes} {pairs : List Pair}
    (h : pairs.Pairwise (fun a b => a.1 < b.1)) :
    (place key value pairs).Pairwise (fun a b => a.1 < b.1) := by
  induction pairs with
  | nil => simp [place]
  | cons q rest ih =>
    obtain ⟨k, v⟩ := q
    obtain ⟨hk, hrest⟩ := List.pairwise_cons.1 h
    simp only [place]
    split
    · next hlt =>
      refine List.pairwise_cons.2 ⟨fun p hp => ?_, h⟩
      rcases List.mem_cons.1 hp with rfl | hp
      · exact hlt
      · exact List.lt_trans hlt (hk p hp)
    · split
      · next heq =>
        exact List.pairwise_cons.2 ⟨fun p hp => heq ▸ hk p hp, hrest⟩
      · next hlt hne =>
        refine List.pairwise_cons.2 ⟨fun p hp => ?_, ih hrest⟩
        rcases mem_place hp with rfl | hp
        · exact Std.lt_of_le_of_ne hlt (Ne.symm hne)
        · exact hk p hp

def insert (map : KeyMap) (key value : Bytes) : KeyMap :=
  ⟨place key value map.pairs, place_sorted map.sorted⟩

def filter (map : KeyMap) (p : Bytes → Bool) : KeyMap :=
  ⟨map.pairs.filter (fun pair => p pair.1), map.sorted.filter _⟩

def insertAll (map : KeyMap) (pairs : List Pair) : KeyMap :=
  pairs.foldl (fun map pair => map.insert pair.1 pair.2) map

def ofList (pairs : List Pair) : KeyMap :=
  empty.insertAll pairs

def within (map : KeyMap) (range : KeyRange) : List Pair :=
  map.pairs.filter (fun pair => range.contains pair.1)

def atLeast? (map : KeyMap) (min : Bytes) (max : Option Bytes) : Option Pair :=
  (map.within ⟨min, max⟩).head?

def atMost? (map : KeyMap) (max : Bytes) (min : Option Bytes) : Option Pair :=
  (map.within ⟨min.getD [], some max⟩).getLast?

def range (map : KeyMap) (range : KeyRange) (reverse : Bool) : List Pair :=
  if reverse then (map.within range).reverse else map.within range

def writePairs (pairs : List Pair) : Bytes :=
  VarInt.writeUnsigned (UInt64.ofNat pairs.length) ++
    pairs.flatMap fun (key, value) => VarInt.writeChunk key ++ VarInt.writeChunk value

def readPair : Reader Pair := do
  let key ← VarInt.readChunk
  let value ← VarInt.readChunk
  return (key, value)

def readAscending : Nat → Option Bytes → Reader (List Pair)
  | 0, _ => pure []
  | n + 1, last => do
    let (key, value) ← readPair
    if last.any (key ≤ ·) then
      throw (.malformed "snapshot keys out of order")
    let rest ← readAscending n (some key)
    return (key, value) :: rest

def encode (map : KeyMap) : Bytes :=
  writePairs map.pairs

def decode (input : Bytes) : Except EncodingError KeyMap :=
  if input.isEmpty then .ok empty
  else ofList <$> Reader.decode (do readAscending (← VarInt.readLength) none) input

end KeyMap

end ReplicatedStore
