import ReplicatedStore.Proofs.Storage.Directory

/-!
What scanning gives for any file: its whole records, and where they end. A file that was cut loses the
record in which the cut falls, and those behind it.
-/

namespace ReplicatedStore

namespace Bytes

theorem littleEndian_of_length {part : Bytes} {k : Nat} (h : part.length = k)
    : littleEndian k (ofLittleEndian part) = part := by
  rw [← h]
  exact littleEndian_ofLittleEndian part

theorem ofLittleEndian_lt_of_length {part : Bytes} {k : Nat} (h : part.length = k)
    : ofLittleEndian part < 256 ^ k := by
  rw [← h]
  exact ofLittleEndian_lt part

end Bytes

namespace LogRecord

variable {input : Bytes} {entry : LogEntry} {entries : List LogEntry}

def ofBody (bytes : Bytes) : LogEntry where
  term := Bytes.ofLittleEndian (bytes.take 8)
  index := Bytes.ofLittleEndian ((bytes.drop 8).take 8)
  command := bytes.drop 20

theorem fits_ofBody {bytes : Bytes} {length : Nat} (hsize : bytes.length = 20 + length)
    (hlength : Bytes.ofLittleEndian ((bytes.drop 16).take 4) = length)
    : (ofBody bytes).Fits where
  term := Bytes.ofLittleEndian_lt_of_length (k := 8) (by simp; omega)
  index := Bytes.ofLittleEndian_lt_of_length (k := 8) (by simp; omega)
  command := by
    have hfield : ((bytes.drop 16).take 4).length = 4 := by
      simp
      omega
    have hlt := Bytes.ofLittleEndian_lt_of_length hfield
    rw [hlength] at hlt
    unfold ofBody
    rw [List.length_drop]
    unfold LogStore.greatestCommand
    omega

theorem body_ofBody {bytes : Bytes} {length : Nat} (hsize : bytes.length = 20 + length)
    (hlength : Bytes.ofLittleEndian ((bytes.drop 16).take 4) = length)
    : body (ofBody bytes) = bytes := by
  have hcommand : (bytes.drop 20).length = length := by
    rw [List.length_drop]
    omega
  unfold body ofBody
  dsimp only
  rw [hcommand, ← hlength]
  rw [Bytes.littleEndian_of_length (by simp; omega)]
  rw [Bytes.littleEndian_of_length (by simp; omega)]
  rw [Bytes.littleEndian_of_length (by simp; omega)]
  rw [← List.take_add, ← List.take_add, List.take_append_drop]

theorem eq_encode_of_read? (h : read? input = some entry)
    : entry.Fits ∧ ∃ rest, input = encode entry ++ rest := by
  unfold read? at h
  dsimp only at h
  split at h
  . cases h
  . next hhead =>
    simp only [Bool.or_eq_true, decide_eq_true_eq, not_or, Nat.not_lt, ne_eq, Decidable.not_not]
      at hhead
    obtain ⟨⟨hlong, hmark⟩, hwhole⟩ := hhead
    unfold overhead at hwhole
    generalize hlength : Bytes.ofLittleEndian ((input.drop 20).take 4) = length at h hwhole
    have hsize : ((input.drop 4).take (20 + length)).length = 20 + length := by
      rw [List.length_take, List.length_drop]
      omega
    have hfield : (((input.drop 4).take (20 + length)).drop 16).take 4 = (input.drop 20).take 4 := by
      rw [List.drop_take, List.drop_drop, List.take_take]
      congr 1
      omega
    rw [← hfield] at hlength
    split at h
    . cases h
    . next hchecksum =>
      have hentry : ofBody ((input.drop 4).take (20 + length)) = entry := Option.some.inj h
      have hbody := body_ofBody hsize hlength
      have hfits := fits_ofBody hsize hlength
      rw [hentry] at hbody hfits
      refine ⟨hfits, input.drop (28 + length), ?_⟩
      unfold encode
      rw [hbody, Decidable.not_not.1 hchecksum]
      rw [Bytes.littleEndian_of_length (by simp; omega)]
      rw [← hmark, ← List.take_add]
      rw [show 24 + length = 4 + (20 + length) by omega, ← List.take_add]
      rw [show 28 + length = 4 + (20 + length) + 4 by omega, List.take_append_drop]

theorem read?_take (h : entry.Fits) {k : Nat} (hk : k < size entry) (rest : Bytes)
    : read? ((encode entry ++ rest).take k) = none := by
  have hsize := size_eq entry
  cases hread : read? ((encode entry ++ rest).take k) with
  | none => rfl
  | some found =>
    -- what reads is as long as its record, and that would be this one
    obtain ⟨hfound, tail, heq⟩ := eq_encode_of_read? hread
    have hwhole : encode found ++ (tail ++ (encode entry ++ rest).drop k) = encode entry ++ rest := by
      rw [← List.append_assoc, ← heq, List.take_append_drop]
    have hsame := read?_encode hfound (tail ++ (encode entry ++ rest).drop k)
    rw [hwhole, read?_encode h rest] at hsame
    cases hsame
    have hlength := congrArg List.length heq
    rw [List.length_take, List.length_append, List.length_append, hsize] at hlength
    omega

theorem layout_cons (start : Nat) (entry : LogEntry) (entries : List LogEntry)
    : layout start (entry :: entries) = (start, entry) :: layout (start + size entry) entries :=
  rfl

theorem length_layout (start : Nat) (entries : List LogEntry)
    : (layout start entries).length = entries.length := by
  unfold layout
  rw [List.length_zip, LogStore.length_offsetsOf, Nat.min_self]

theorem layout_append (start : Nat) (as bs : List LogEntry)
    : layout start (as ++ bs) = layout start as ++ layout (start + (as.flatMap encode).length) bs := by
  unfold layout
  rw [LogStore.offsetsOf_append, List.zip_append (LogStore.length_offsetsOf start as)]

theorem layout_take (start : Nat) (entries : List LogEntry) (n : Nat)
    : (layout start entries).take n = layout start (entries.take n) := by
  unfold layout List.zip
  rw [List.take_zipWith, LogStore.take_offsetsOf]

theorem scan_of_read?_none (start : Nat) (h : read? input = none) : scan start input = ([], start) := by
  unfold scan
  cases input with
  | nil => rfl
  | cons b rest =>
    dsimp only
    rw [h]

theorem scan_of_read? {start : Nat} {rest : Bytes} (h : entry.Fits)
    : scan start (encode entry ++ rest)
        =
      ((start, entry) :: (scan (start + size entry) rest).1, (scan (start + size entry) rest).2) := by
  have hread := read?_encode h rest
  have hdrop : (encode entry ++ rest).drop (size entry) = rest := List.drop_left' (size_eq entry)
  cases hbytes : encode entry ++ rest with
  | nil =>
    rw [hbytes] at hread
    cases hread
  | cons b bytes =>
    rw [hbytes] at hread hdrop
    have htail : bytes.drop (size entry - 1) = rest := by
      rw [show size entry = size entry - 1 + 1 by unfold size overhead; omega] at hdrop
      exact hdrop
    conv =>
      lhs
      unfold scan
    dsimp only
    rw [hread]
    dsimp only
    rw [htail]

theorem scan_records (start : Nat) (h : ∀ e ∈ entries, e.Fits) {rest : Bytes} (hrest : read? rest = none)
    : scan start (entries.flatMap encode ++ rest)
        =
      (layout start entries, start + (entries.flatMap encode).length) := by
  induction entries generalizing start with
  | nil => exact scan_of_read?_none start hrest
  | cons e es ih =>
    have he : e.Fits := h e List.mem_cons_self
    rw [List.flatMap_cons, List.append_assoc, scan_of_read? he]
    rw [ih _ (fun e' he' => h e' (List.mem_cons_of_mem _ he'))]
    rw [layout_cons, List.length_append, size_eq, Nat.add_assoc]

theorem exists_records (input : Bytes)
    : ∃ entries : List LogEntry, ∃ rest, input = entries.flatMap encode ++ rest ∧
        (∀ e ∈ entries, e.Fits) ∧ read? rest = none := by
  induction hn : input.length using Nat.strongRecOn generalizing input with
  | ind n ih =>
    cases hread : read? input with
    | none => exact ⟨[], input, rfl, by simp, hread⟩
    | some entry =>
      obtain ⟨hfits, rest, rfl⟩ := eq_encode_of_read? hread
      have hsize := size_eq entry
      have hshorter : rest.length < n := by
        rw [← hn, List.length_append, hsize]
        unfold size overhead
        omega
      obtain ⟨entries, tail, rfl, hall, htail⟩ := ih _ hshorter rest rfl
      refine ⟨entry :: entries, tail, ?_, ?_, htail⟩
      . rw [List.flatMap_cons, List.append_assoc]
      . exact List.forall_mem_cons.2 ⟨hfits, hall⟩

def stop (r : Nat × LogEntry) : Nat := r.1 + size r.2

theorem le_of_mem_layout {start : Nat} {r : Nat × LogEntry} (h : r ∈ layout start entries) : start ≤ r.1 := by
  induction entries generalizing start with
  | nil => cases h
  | cons e es ih =>
    rw [layout_cons] at h
    rcases List.mem_cons.1 h with rfl | h
    . exact Nat.le_refl _
    . exact Nat.le_trans (Nat.le_add_right _ _) (ih h)

theorem stop_le_of_mem_layout {start : Nat} {r : Nat × LogEntry} (h : r ∈ layout start entries)
    : stop r ≤ start + (entries.flatMap encode).length := by
  induction entries generalizing start with
  | nil => cases h
  | cons e es ih =>
    rw [List.flatMap_cons, List.length_append, size_eq, ← Nat.add_assoc]
    rw [layout_cons] at h
    rcases List.mem_cons.1 h with rfl | h
    . exact Nat.le_add_right _ _
    . exact ih h

theorem exists_take (h : ∀ e ∈ entries, e.Fits) (k : Nat)
    : ∃ n rest, (entries.flatMap encode).take k = (entries.take n).flatMap encode ++ rest ∧
        read? rest = none ∧
        ∀ start, layout start (entries.take n) = (layout start entries).filter (stop · ≤ start + k) := by
  induction entries generalizing k with
  | nil => exact ⟨0, [], by simp, rfl, fun _ => rfl⟩
  | cons e es ih =>
    have he : e.Fits := h e List.mem_cons_self
    have hsize := size_eq e
    rw [List.flatMap_cons]
    -- the cut falls within the first record or behind it
    by_cases hk : k < size e
    . refine ⟨0, (encode e ++ es.flatMap encode).take k, by simp, read?_take he hk _, fun start => ?_⟩
      symm
      rw [List.take_zero, layout_cons]
      apply List.filter_eq_nil_iff.2
      intro r hr hle
      have hle : stop r ≤ start + k := of_decide_eq_true hle
      unfold stop at hle
      rcases List.mem_cons.1 hr with rfl | hr
      . dsimp only at hle
        omega
      . have := le_of_mem_layout hr
        omega
    . obtain ⟨n, rest, htake, hrest, hwhole⟩ :=
        ih (fun e' he' => h e' (List.mem_cons_of_mem _ he')) (k - size e)
      refine ⟨n + 1, rest, ?_, hrest, fun start => ?_⟩
      . rw [List.take_append, List.take_of_length_le (by omega), hsize, htake]
        rw [List.take_succ_cons, List.flatMap_cons, List.append_assoc]
      . have hfirst : stop (start, e) ≤ start + k := Nat.add_le_add_left (Nat.not_lt.1 hk) start
        have hwhole := hwhole (start + size e)
        rw [Nat.add_assoc, Nat.add_sub_cancel' (Nat.not_lt.1 hk)] at hwhole
        rw [List.take_succ_cons, layout_cons, layout_cons, hwhole]
        exact (List.filter_cons_of_pos (by simpa using hfirst)).symm

theorem filter_layout_of_length_le {k : Nat} (h : (entries.flatMap encode).length ≤ k)
    : (layout 0 entries).filter (stop · ≤ 0 + k) = layout 0 entries := by
  apply List.filter_eq_self.2
  intro r hr
  have := stop_le_of_mem_layout hr
  exact decide_eq_true (by omega)

end LogRecord

end ReplicatedStore
