import ReplicatedStore.Encoding.Binary
import ReplicatedStore.Proofs.Encoding.VarInt

/-!
The fixed-width layout of numbers, texts, optional values and lists: what was written reads back, whatever
follows it, and nothing else reads.
-/

namespace ReplicatedStore

namespace Bytes

theorem ofLittleEndian_of_lt {k n : Nat} (hn : n < 256 ^ k)
    : ofLittleEndian (littleEndian k n) = n := by
  rw [ofLittleEndian_littleEndian]
  exact Nat.mod_eq_of_lt hn

theorem ofLittleEndian_lt (bytes : Bytes) : ofLittleEndian bytes < 256 ^ bytes.length := by
  induction bytes with
  | nil => exact Nat.one_pos
  | cons b rest ih =>
    have hb := b.toNat_lt
    rw [ofLittleEndian, List.length_cons, Nat.pow_succ]
    omega

theorem littleEndian_ofLittleEndian (bytes : Bytes)
    : littleEndian bytes.length (ofLittleEndian bytes) = bytes := by
  induction bytes with
  | nil => rfl
  | cons b rest ih =>
    have hb := b.toNat_lt
    have hlow : UInt8.ofNat (b.toNat + 256 * ofLittleEndian rest) = b := by
      apply UInt8.toNat_inj.1
      simp
    have hhigh : (b.toNat + 256 * ofLittleEndian rest) / 256 = ofLittleEndian rest := by
      omega
    rw [List.length_cons, ofLittleEndian, littleEndian, hlow, hhigh, ih]

theorem toList_loop (bytes : ByteArray) (i : Nat) (acc : List UInt8)
    : ByteArray.toList.loop bytes i acc = acc.reverse ++ bytes.data.toList.drop i := by
  fun_induction ByteArray.toList.loop bytes i acc with
  | case1 i acc hlt ih =>
    have hget : i < bytes.data.toList.length := hlt
    rw [ih, List.drop_eq_getElem_cons hget]
    simp [ByteArray.get!, hlt]
  | case2 i acc hge =>
    rw [List.drop_eq_nil_of_le]
    . simp
    . exact Nat.le_of_not_lt hge

theorem ofText_eq (text : String) : ofText text = text.toByteArray.data.toList := by
  unfold ofText
  rw [show text.toUTF8.toList = ByteArray.toList.loop text.toByteArray 0 [] from rfl]
  rw [toList_loop]
  rfl

theorem fromUTF8?_ofText (text : String) : String.fromUTF8? ⟨(ofText text).toArray⟩ = some text := by
  have harray : (⟨(ofText text).toArray⟩ : ByteArray) = text.toByteArray := by
    rw [ofText_eq]
  rw [harray]
  unfold String.fromUTF8?
  rw [dif_pos text.isValidUTF8]
  rfl

end Bytes

namespace Utf8

theorem decode_ofText (text : String) : decode (Bytes.ofText text) = .ok text := by
  unfold decode
  rw [Bytes.fromUTF8?_ofText]

theorem ofText_of_decode {bytes : Bytes} {text : String} (h : decode bytes = .ok text)
    : Bytes.ofText text = bytes := by
  unfold decode at h
  split at h
  . next found hfound =>
    unfold String.fromUTF8? at hfound
    split at hfound
    . next hvalid =>
      simp only [Option.some.injEq] at hfound
      simp only [Except.ok.injEq] at h
      rw [← h, ← hfound, Bytes.ofText_eq]
      rfl
    . simp at hfound
  . simp at h

end Utf8

namespace Binary

variable {α : Type} {write : α → Bytes} {read : BinaryReader α} {fits : α → Prop}

theorem takeOr_eq_ok_iff {short : BinaryError} {count : Nat} {input chunk rest : Bytes}
    : takeOr short count input = .ok chunk rest ↔ input = chunk ++ rest ∧ chunk.length = count := by
  unfold takeOr
  constructor
  . intro h
    split at h
    . cases h
    . next hge =>
      cases h
      rw [List.take_append_drop, List.length_take]
      exact ⟨rfl, Nat.min_eq_left (Nat.not_lt.1 hge)⟩
  . rintro ⟨rfl, rfl⟩
    simp

theorem number_inverts (width : Nat)
    : EStateM.Inverts (Bytes.ofLittleEndian <$> take width) (Bytes.littleEndian width) (· < 256 ^ width) := by
  intro input n rest
  unfold take
  rw [← bind_pure_comp]
  simp only [EStateM.bind_eq_ok_iff, EStateM.pure_eq_ok_iff, takeOr_eq_ok_iff]
  constructor
  . rintro ⟨chunk, _, ⟨rfl, rfl⟩, rfl, rfl⟩
    rw [Bytes.littleEndian_ofLittleEndian]
    exact ⟨rfl, Bytes.ofLittleEndian_lt chunk⟩
  . rintro ⟨rfl, hn⟩
    exact ⟨_, rest, ⟨rfl, Bytes.littleEndian_length width n⟩, Bytes.ofLittleEndian_of_lt hn, rfl⟩

theorem readWord_inverts : EStateM.Inverts readWord writeWord (· < 2 ^ 64) :=
  number_inverts 8

theorem readByte_inverts : EStateM.Inverts readByte (Bytes.littleEndian 1) (· < 256) :=
  number_inverts 1

theorem readCase_inverts {cases : Nat} (hcases : cases ≤ 2 ^ 32)
    : EStateM.Inverts (readCase cases) writeCase (· < cases) := by
  intro input n rest
  unfold readCase writeCase
  constructor
  . intro h
    obtain ⟨chunk, _, hchunk, hfound⟩ := EStateM.of_bind h
    obtain ⟨rfl, hwidth⟩ := takeOr_eq_ok_iff.1 hchunk
    dsimp only at hfound
    split at hfound
    . next hlt =>
      cases hfound
      rw [← hwidth, Bytes.littleEndian_ofLittleEndian]
      exact ⟨rfl, hlt⟩
    . cases hfound
  . rintro ⟨rfl, hn⟩
    have htake : take 4 (Bytes.littleEndian 4 n ++ rest) = .ok (Bytes.littleEndian 4 n) rest :=
      takeOr_eq_ok_iff.2 ⟨rfl, Bytes.littleEndian_length 4 n⟩
    rw [EStateM.bind_of_ok htake, Bytes.ofLittleEndian_of_lt (Nat.lt_of_lt_of_le hn hcases), if_pos hn]
    rfl

theorem readBool_inverts : EStateM.Inverts readBool writeBool fun _ => True := by
  intro input b rest
  unfold readBool writeBool
  constructor
  . intro h
    obtain ⟨found, _, hfound, hb⟩ := EStateM.of_bind h
    obtain ⟨rfl, -⟩ := (readByte_inverts _ _ _).1 hfound
    split at hb
    . cases hb
      exact ⟨rfl, trivial⟩
    . cases hb
      exact ⟨rfl, trivial⟩
    . cases hb
  . rintro ⟨rfl, -⟩
    cases b with
    | false => exact EStateM.bind_of_ok ((readByte_inverts _ 0 _).2 ⟨rfl, by decide⟩)
    | true => exact EStateM.bind_of_ok ((readByte_inverts _ 1 _).2 ⟨rfl, by decide⟩)

theorem readBytes_inverts : EStateM.Inverts readBytes writeBytes (·.length < 2 ^ 64) := by
  intro input chunk rest
  unfold readBytes writeBytes take
  simp only [EStateM.bind_eq_ok_iff, readWord_inverts _ _ _, takeOr_eq_ok_iff, List.append_assoc]
  constructor
  . rintro ⟨_, _, ⟨rfl, hn⟩, rfl, rfl⟩
    exact ⟨rfl, hn⟩
  . rintro ⟨rfl, hn⟩
    exact ⟨chunk.length, _, ⟨rfl, hn⟩, rfl, rfl⟩

def TextFits (text : String) : Prop :=
  (Bytes.ofText text).length < 2 ^ 64

theorem readText_inverts : EStateM.Inverts readText writeText TextFits := by
  intro input text rest
  unfold readText writeText writeBytes TextFits
  constructor
  . intro h
    obtain ⟨n, _, hlength, htext⟩ := EStateM.of_bind h
    obtain ⟨rfl, hn⟩ := (readWord_inverts _ _ _).1 hlength
    obtain ⟨chunk, _, hchunk, hdecode⟩ := EStateM.of_bind htext
    obtain ⟨rfl, rfl⟩ := takeOr_eq_ok_iff.1 hchunk
    cases hfound : Utf8.decode chunk with
    | ok found =>
      rw [hfound] at hdecode
      cases hdecode
      rw [Utf8.ofText_of_decode hfound, List.append_assoc]
      exact ⟨rfl, hn⟩
    | error fault =>
      rw [hfound] at hdecode
      cases hdecode
  . rintro ⟨rfl, hn⟩
    rw [List.append_assoc]
    rw [EStateM.bind_of_ok ((readWord_inverts _ _ _).2 ⟨rfl, hn⟩)]
    rw [EStateM.bind_of_ok (takeOr_eq_ok_iff.2 ⟨rfl, rfl⟩)]
    rw [Utf8.decode_ofText]
    rfl

theorem readOption_inverts (h : EStateM.Inverts read write fits)
    : EStateM.Inverts (readOption read) (writeOption write) fun value => ∀ a ∈ value, fits a := by
  intro input value rest
  unfold readOption
  constructor
  . intro hread
    obtain ⟨found, _, hfound, hvalue⟩ := EStateM.of_bind hread
    obtain ⟨rfl, -⟩ := (readByte_inverts _ _ _).1 hfound
    match found, hvalue with
    | 0, hvalue =>
      cases hvalue
      exact ⟨rfl, nofun⟩
    | 1, hvalue =>
      obtain ⟨a, _, ha, hpure⟩ := EStateM.of_bind hvalue
      obtain ⟨rfl, hfits⟩ := (h _ _ _).1 ha
      cases hpure
      refine ⟨rfl, ?_⟩
      rintro _ ⟨⟩
      exact hfits
    | _ + 2, hvalue => cases hvalue
  . rintro ⟨rfl, hfits⟩
    cases value with
    | none => exact EStateM.bind_of_ok ((readByte_inverts _ 0 _).2 ⟨rfl, by decide⟩)
    | some a =>
      have htag : readByte (writeOption write (some a) ++ rest) = .ok 1 (write a ++ rest) :=
        (readByte_inverts _ 1 _).2 ⟨rfl, by decide⟩
      rw [EStateM.bind_of_ok htag]
      exact EStateM.bind_of_ok ((h _ a _).2 ⟨rfl, hfits a rfl⟩)

theorem readList_inverts (h : EStateM.Inverts read write fits)
    : EStateM.Inverts (readList read) (writeList write) (VarInt.Counted fits) := by
  intro input items rest
  have hitems : ∀ count input rest, readList.go read count input = .ok items rest ↔ _ :=
    fun _ _ _ => h.repeated_iff rfl fun _ => rfl
  unfold readList writeList
  simp only [EStateM.bind_eq_ok_iff, readWord_inverts _ _ _, hitems, List.append_assoc]
  constructor
  . rintro ⟨_, _, ⟨rfl, hcount⟩, rfl, rfl, heach⟩
    exact ⟨rfl, hcount, heach⟩
  . rintro ⟨rfl, hcount, heach⟩
    exact ⟨items.length, _, ⟨rfl, hcount⟩, rfl, rfl, heach⟩

theorem decode_eq_ok_iff (h : EStateM.Inverts read write fits) {input : Bytes} {a : α}
    : decode read input = .ok a ↔ fits a ∧ ∃ rest, input = write a ++ rest := by
  unfold decode
  constructor
  . intro hdecode
    cases hread : read input with
    | error e left =>
      rw [hread] at hdecode
      cases hdecode
    | ok a' rest =>
      rw [hread] at hdecode
      cases hdecode
      obtain ⟨hinput, hfits⟩ := (h _ _ _).1 hread
      exact ⟨hfits, rest, hinput⟩
  . rintro ⟨hfits, rest, hinput⟩
    rw [(h _ _ _).2 ⟨hinput, hfits⟩]

end Binary

end ReplicatedStore
