import ReplicatedStore.KeySpace.KeyMap
import ReplicatedStore.Proofs.Encoding.VarInt

/-!
The stored form of a map: each map has one, as long as every length in it is a 64-bit number, and no other bytes
are read as the map.
-/

namespace ReplicatedStore

namespace KeyMap

def writePair (pair : Pair) : Bytes :=
  VarInt.writeChunk pair.1 ++ VarInt.writeChunk pair.2

def PairFits (pair : Pair) : Prop :=
  pair.1.length < 2 ^ 64 ∧ pair.2.length < 2 ^ 64

def Fits (map : KeyMap) : Prop :=
  VarInt.Counted PairFits map.pairs

theorem encode_eq (map : KeyMap) : map.encode = VarInt.writeCounted writePair map.pairs := by
  rfl

theorem place_of_forall_lt {key value : Bytes} {pairs : List Pair} (h : ∀ p ∈ pairs, p.1 < key)
    : place key value pairs = pairs ++ [(key, value)] := by
  induction pairs with
  | nil => rfl
  | cons p rest ih =>
    obtain ⟨k, v⟩ := p
    have hlt : k < key := h (k, v) (List.mem_cons_self)
    have hnot : ¬ key < k := Std.not_lt.2 (Std.le_of_lt hlt)
    have hne : key ≠ k := by
      rintro rfl
      exact absurd hlt (Std.lt_irrefl)
    unfold place
    rw [if_neg hnot, if_neg hne]
    rw [ih]
    . rfl
    . intro p hp
      exact h p (List.mem_cons_of_mem _ hp)

theorem insertAll_pairs {map : KeyMap} {pairs : List Pair}
    (h : (map.pairs ++ pairs).Pairwise (fun a b => a.1 < b.1))
    : (map.insertAll pairs).pairs = map.pairs ++ pairs := by
  induction pairs generalizing map with
  | nil => simp [insertAll]
  | cons p rest ih =>
    have hplace : (map.insert p.1 p.2).pairs = map.pairs ++ [p] := by
      unfold insert
      apply place_of_forall_lt
      intro q hq
      exact (List.pairwise_append.1 h).2.2 q hq p List.mem_cons_self
    unfold insertAll at ih ⊢
    rw [List.foldl_cons, ih]
    . rw [hplace]
      simp
    . rw [hplace]
      simpa using h

theorem ofList_pairs (map : KeyMap) : ofList map.pairs = map := by
  have h : (ofList map.pairs).pairs = map.pairs := by
    unfold ofList
    rw [insertAll_pairs]
    . rfl
    . exact map.sorted
  cases map
  cases hof : ofList _
  simp only [hof] at h
  simp [h]

theorem readPair_inverts : EStateM.Inverts readPair writePair PairFits := by
  intro input pair rest
  unfold readPair writePair PairFits
  simp only [EStateM.bind_eq_ok_iff, EStateM.pure_eq_ok_iff, VarInt.readChunk_inverts _ _ _, List.append_assoc]
  constructor
  . rintro ⟨key, _, ⟨rfl, hkey⟩, value, _, ⟨rfl, hvalue⟩, rfl, rfl⟩
    exact ⟨rfl, hkey, hvalue⟩
  . rintro ⟨rfl, hkey, hvalue⟩
    exact ⟨pair.1, _, ⟨rfl, hkey⟩, pair.2, rest, ⟨rfl, hvalue⟩, rfl, rfl⟩

structure Ascends (last : Option Bytes) (pairs : List Pair) : Prop where
  behind : ∀ key ∈ last, ∀ pair ∈ pairs, key < pair.1
  sorted : pairs.Pairwise (fun a b => a.1 < b.1)

theorem ascends_cons_iff {last : Option Bytes} {pair : Pair} {pairs : List Pair}
    : Ascends last (pair :: pairs) ↔ ¬ last.any (pair.1 ≤ ·) = true ∧ Ascends (some pair.1) pairs := by
  have hany : ¬ last.any (pair.1 ≤ ·) = true ↔ ∀ key ∈ last, key < pair.1 := by
    cases last <;> simp
  rw [hany]
  constructor
  . rintro ⟨hbehind, hsorted⟩
    obtain ⟨hfirst, hrest⟩ := List.pairwise_cons.1 hsorted
    refine ⟨fun key hkey => hbehind key hkey pair List.mem_cons_self, ?_, hrest⟩
    intro key hkey
    cases hkey
    exact hfirst
  . rintro ⟨hlast, hbehind, hsorted⟩
    have hfirst := hbehind pair.1 rfl
    refine ⟨?_, List.pairwise_cons.2 ⟨hfirst, hsorted⟩⟩
    intro key hkey
    have hlt := hlast key hkey
    exact List.forall_mem_cons.2 ⟨hlt, fun p hp => Std.lt_trans hlt (hfirst p hp)⟩

theorem readAscending_iff {count : Nat} {last : Option Bytes} {pairs : List Pair} {input rest : Bytes}
    : readAscending count last input = .ok pairs rest
        ↔
      Reader.many readPair count input = .ok pairs rest ∧ Ascends last pairs := by
  induction count generalizing last pairs input rest with
  | zero =>
    unfold readAscending Reader.many
    rw [EStateM.pure_eq_ok_iff]
    constructor
    . rintro ⟨rfl, rfl⟩
      exact ⟨⟨rfl, rfl⟩, fun _ _ _ hp => (List.not_mem_nil hp).elim, .nil⟩
    . exact And.left
  | succ count ih =>
    unfold readAscending Reader.many
    simp only [EStateM.bind_eq_ok_iff, EStateM.pure_eq_ok_iff]
    constructor
    . rintro ⟨⟨key, value⟩, left, hpair, h⟩
      dsimp only at h
      split at h
      . cases h
      . next hlast =>
        obtain ⟨after, _, hafter, hpure⟩ := EStateM.of_bind h
        cases hpure
        obtain ⟨hmany, hascends⟩ := ih.1 hafter
        exact ⟨⟨_, left, hpair, after, rest, hmany, rfl, rfl⟩, ascends_cons_iff.2 ⟨hlast, hascends⟩⟩
    . rintro ⟨⟨⟨key, value⟩, left, hpair, after, _, hmany, rfl, rfl⟩, hascends⟩
      obtain ⟨hlast, hafter⟩ := ascends_cons_iff.1 hascends
      refine ⟨_, left, hpair, ?_⟩
      dsimp only
      rw [if_neg hlast, EStateM.bind_of_ok (ih.2 ⟨hmany, hafter⟩)]
      rfl

theorem length_le_writePair (pair : Pair)
    : pair.1.length + pair.2.length ≤ (writePair pair).length := by
  unfold writePair
  rw [List.length_append]
  exact Nat.add_le_add (VarInt.length_le_writeChunk pair.1) (VarInt.length_le_writeChunk pair.2)

theorem writePair_ne_nil (pair : Pair) : writePair pair ≠ [] := by
  unfold writePair VarInt.writeChunk
  simp [VarInt.writeUnsigned_ne_nil]

theorem pairFits_of_length {pair : Pair} (h : (writePair pair).length < 2 ^ 64) : PairFits pair := by
  have := length_le_writePair pair
  unfold PairFits
  omega

theorem fits_of_length {map : KeyMap} (h : map.encode.length < 2 ^ 64) : map.Fits :=
  VarInt.counted_of_length writePair_ne_nil (fun _ => pairFits_of_length) h

theorem readPairs_iff {pairs : List Pair} {input rest : Bytes}
    : (do readAscending (← VarInt.readLength) none : Reader (List Pair)) input = .ok pairs rest
        ↔
      (input = VarInt.writeCounted writePair pairs ++ rest ∧ VarInt.Counted PairFits pairs) ∧
        Ascends none pairs := by
  rw [← VarInt.readCounted_inverts readPair_inverts]
  unfold VarInt.readCounted
  simp only [EStateM.bind_eq_ok_iff, readAscending_iff, ← and_assoc, exists_and_right]

theorem decode_iff {map : KeyMap} {input : Bytes}
    : decode input = .ok map ↔ (input = [] ∧ map = empty) ∨ (input = map.encode ∧ map.Fits) := by
  unfold decode
  cases input with
  | nil =>
    have hencode : [] ≠ map.encode := (VarInt.writeCounted_ne_nil writePair map.pairs).symm
    simp [hencode, eq_comm]
  | cons first tail =>
    rw [List.isEmpty_cons, if_neg Bool.false_ne_true]
    constructor
    . intro h
      obtain ⟨pairs, hread, hmap⟩ := Except.of_map h
      obtain ⟨⟨hinput, hfits⟩, hascends⟩ := readPairs_iff.1 (Reader.decode_eq_ok hread)
      have hpairs := ofList_pairs ⟨pairs, hascends.sorted⟩
      rw [hpairs] at hmap
      cases hmap
      rw [List.append_nil] at hinput
      exact .inr ⟨hinput, hfits⟩
    . rintro (⟨hnil, -⟩ | ⟨hinput, hfits⟩)
      . cases hnil
      . have hread := readPairs_iff.2 ⟨⟨(List.append_nil _).symm, hfits⟩, ?_, map.sorted⟩
        . rw [hinput, encode_eq, Reader.decode_of_ok hread]
          exact congrArg Except.ok (ofList_pairs map)
        . intro key hkey
          cases hkey

theorem decode_encode {map : KeyMap} (h : map.Fits) : decode map.encode = .ok map :=
  decode_iff.2 (.inr ⟨rfl, h⟩)

end KeyMap

end ReplicatedStore
