import ReplicatedStore.Consensus.Message
import ReplicatedStore.Proofs.KeySpace.WriteSet
import ReplicatedStore.Proofs.Storage.Opening
import ReplicatedStore.Proofs.Storage.Replacing

/-!
What a node writes for another node, or for itself to read after a restart: every message is read as what it was,
whatever follows it, and a hard state that was saved is the one that is loaded.
-/

namespace ReplicatedStore

open Binary
open VarInt (Counted)
open WriteSet (RangeFits)

-- The numbers of a message are 64-bit numbers, and so are the lengths of its texts, byte strings and lists.

structure LogEntry.Sendable (entry : LogEntry) : Prop where
  term : entry.term < 2 ^ 64
  index : entry.index < 2 ^ 64
  command : entry.command.length < 2 ^ 64

structure VoteRequest.Fits (m : VoteRequest) : Prop where
  term : m.term < 2 ^ 64
  candidate : TextFits m.candidate
  lastIndex : m.lastIndex < 2 ^ 64
  lastTerm : m.lastTerm < 2 ^ 64

structure VoteResponse.Fits (m : VoteResponse) : Prop where
  term : m.term < 2 ^ 64

structure AppendRequest.Fits (m : AppendRequest) : Prop where
  term : m.term < 2 ^ 64
  leader : TextFits m.leader
  prevIndex : m.prevIndex < 2 ^ 64
  prevTerm : m.prevTerm < 2 ^ 64
  entries : Counted LogEntry.Sendable m.entries
  commit : m.commit < 2 ^ 64

structure AppendResponse.Fits (m : AppendResponse) : Prop where
  term : m.term < 2 ^ 64
  agreesThrough : m.agreesThrough < 2 ^ 64
  resumeAt : m.resumeAt < 2 ^ 64

structure SnapshotRequest.Fits (m : SnapshotRequest) : Prop where
  term : m.term < 2 ^ 64
  leader : TextFits m.leader
  index : m.index < 2 ^ 64
  indexTerm : m.indexTerm < 2 ^ 64
  data : m.data.length < 2 ^ 64

structure SnapshotResponse.Fits (m : SnapshotResponse) : Prop where
  term : m.term < 2 ^ 64

structure CommitRequest.Fits (m : CommitRequest) : Prop where
  baseTerm : m.baseTerm < 2 ^ 64
  baseIndex : m.baseIndex < 2 ^ 64
  reads : Counted RangeFits m.reads.ranges
  mutations : m.mutations.length < 2 ^ 64

def CommitOutcome.Fits : CommitOutcome → Prop
  | .committed term index => term < 2 ^ 64 ∧ index < 2 ^ 64
  | .conflict what => TextFits what
  | .notLeader leader => ∀ name ∈ leader, TextFits name
  | .indeterminate what => TextFits what
  | .failed what => TextFits what

namespace Wire

theorem entry_inverts : EStateM.Inverts (read : BinaryReader LogEntry) write LogEntry.Sendable := by
  intro input entry rest
  simp only [read, write, EStateM.bind_eq_ok_iff, EStateM.pure_eq_ok_iff, readWord_inverts _ _ _,
    readBytes_inverts _ _ _, List.append_assoc]
  constructor
  . rintro ⟨_, _, ⟨rfl, hterm⟩, _, _, ⟨rfl, hindex⟩, _, _, ⟨rfl, hcommand⟩, rfl, rfl⟩
    exact ⟨rfl, hterm, hindex, hcommand⟩
  . rintro ⟨rfl, h⟩
    exact ⟨_, _, ⟨rfl, h.term⟩, _, _, ⟨rfl, h.index⟩, _, _, ⟨rfl, h.command⟩, rfl, rfl⟩

theorem range_inverts : EStateM.Inverts (read : BinaryReader KeyRange) write RangeFits := by
  intro input range rest
  simp only [read, write, EStateM.bind_eq_ok_iff, EStateM.pure_eq_ok_iff, readBytes_inverts _ _ _,
    readOption_inverts readBytes_inverts _ _ _, List.append_assoc]
  constructor
  . rintro ⟨_, _, ⟨rfl, hmin⟩, _, _, ⟨rfl, hmax⟩, rfl, rfl⟩
    exact ⟨rfl, hmin, hmax⟩
  . rintro ⟨rfl, hmin, hmax⟩
    exact ⟨_, _, ⟨rfl, hmin⟩, _, _, ⟨rfl, hmax⟩, rfl, rfl⟩

theorem voteRequest_inverts : EStateM.Inverts (read : BinaryReader VoteRequest) write VoteRequest.Fits := by
  intro input m rest
  simp only [read, write, EStateM.bind_eq_ok_iff, EStateM.pure_eq_ok_iff, readWord_inverts _ _ _,
    readText_inverts _ _ _, List.append_assoc]
  constructor
  . rintro ⟨_, _, ⟨rfl, hterm⟩, _, _, ⟨rfl, hcandidate⟩, _, _, ⟨rfl, hindex⟩, _, _, ⟨rfl, hlast⟩, rfl, rfl⟩
    exact ⟨rfl, hterm, hcandidate, hindex, hlast⟩
  . rintro ⟨rfl, h⟩
    exact ⟨_, _, ⟨rfl, h.term⟩, _, _, ⟨rfl, h.candidate⟩, _, _, ⟨rfl, h.lastIndex⟩, _, _, ⟨rfl, h.lastTerm⟩,
      rfl, rfl⟩

theorem voteResponse_inverts : EStateM.Inverts (read : BinaryReader VoteResponse) write VoteResponse.Fits := by
  intro input m rest
  simp only [read, write, EStateM.bind_eq_ok_iff, EStateM.pure_eq_ok_iff, readWord_inverts _ _ _,
    readBool_inverts _ _ _, List.append_assoc]
  constructor
  . rintro ⟨_, _, ⟨rfl, hterm⟩, _, _, ⟨rfl, -⟩, rfl, rfl⟩
    exact ⟨rfl, ⟨hterm⟩⟩
  . rintro ⟨rfl, h⟩
    exact ⟨_, _, ⟨rfl, h.term⟩, _, _, ⟨rfl, trivial⟩, rfl, rfl⟩

theorem appendRequest_inverts : EStateM.Inverts (read : BinaryReader AppendRequest) write AppendRequest.Fits := by
  intro input m rest
  unfold read write instAppendRequest
  simp only [EStateM.bind_eq_ok_iff, EStateM.pure_eq_ok_iff, readWord_inverts _ _ _,
    readText_inverts _ _ _, readList_inverts entry_inverts _ _ _, List.append_assoc]
  constructor
  . rintro ⟨_, _, ⟨rfl, hterm⟩, _, _, ⟨rfl, hleader⟩, _, _, ⟨rfl, hindex⟩, _, _, ⟨rfl, hprev⟩,
      _, _, ⟨rfl, hentries⟩, _, _, ⟨rfl, hcommit⟩, rfl, rfl⟩
    exact ⟨rfl, hterm, hleader, hindex, hprev, hentries, hcommit⟩
  . rintro ⟨rfl, h⟩
    exact ⟨_, _, ⟨rfl, h.term⟩, _, _, ⟨rfl, h.leader⟩, _, _, ⟨rfl, h.prevIndex⟩, _, _, ⟨rfl, h.prevTerm⟩,
      _, _, ⟨rfl, h.entries⟩, _, _, ⟨rfl, h.commit⟩, rfl, rfl⟩

theorem appendResponse_inverts : EStateM.Inverts (read : BinaryReader AppendResponse) write AppendResponse.Fits := by
  intro input m rest
  simp only [read, write, EStateM.bind_eq_ok_iff, EStateM.pure_eq_ok_iff, readWord_inverts _ _ _,
    readBool_inverts _ _ _, List.append_assoc]
  constructor
  . rintro ⟨_, _, ⟨rfl, hterm⟩, _, _, ⟨rfl, -⟩, _, _, ⟨rfl, hagrees⟩, _, _, ⟨rfl, hresume⟩, rfl, rfl⟩
    exact ⟨rfl, hterm, hagrees, hresume⟩
  . rintro ⟨rfl, h⟩
    exact ⟨_, _, ⟨rfl, h.term⟩, _, _, ⟨rfl, trivial⟩, _, _, ⟨rfl, h.agreesThrough⟩, _, _, ⟨rfl, h.resumeAt⟩,
      rfl, rfl⟩

theorem snapshotRequest_inverts
    : EStateM.Inverts (read : BinaryReader SnapshotRequest) write SnapshotRequest.Fits := by
  intro input m rest
  simp only [read, write, EStateM.bind_eq_ok_iff, EStateM.pure_eq_ok_iff, readWord_inverts _ _ _,
    readText_inverts _ _ _, readBytes_inverts _ _ _, List.append_assoc]
  constructor
  . rintro ⟨_, _, ⟨rfl, hterm⟩, _, _, ⟨rfl, hleader⟩, _, _, ⟨rfl, hindex⟩, _, _, ⟨rfl, hindexTerm⟩,
      _, _, ⟨rfl, hdata⟩, rfl, rfl⟩
    exact ⟨rfl, hterm, hleader, hindex, hindexTerm, hdata⟩
  . rintro ⟨rfl, h⟩
    exact ⟨_, _, ⟨rfl, h.term⟩, _, _, ⟨rfl, h.leader⟩, _, _, ⟨rfl, h.index⟩, _, _, ⟨rfl, h.indexTerm⟩,
      _, _, ⟨rfl, h.data⟩, rfl, rfl⟩

theorem snapshotResponse_inverts
    : EStateM.Inverts (read : BinaryReader SnapshotResponse) write SnapshotResponse.Fits := by
  intro input m rest
  simp only [read, write, EStateM.bind_eq_ok_iff, EStateM.pure_eq_ok_iff, readWord_inverts _ _ _]
  constructor
  . rintro ⟨_, _, ⟨rfl, hterm⟩, rfl, rfl⟩
    exact ⟨rfl, ⟨hterm⟩⟩
  . rintro ⟨rfl, h⟩
    exact ⟨_, _, ⟨rfl, h.term⟩, rfl, rfl⟩

theorem commitRequest_inverts : EStateM.Inverts (read : BinaryReader CommitRequest) write CommitRequest.Fits := by
  intro input m rest
  unfold read write instCommitRequest
  simp only [EStateM.bind_eq_ok_iff, EStateM.pure_eq_ok_iff, readWord_inverts _ _ _,
    readBytes_inverts _ _ _, readList_inverts range_inverts _ _ _, List.append_assoc]
  constructor
  . rintro ⟨_, _, ⟨rfl, hterm⟩, _, _, ⟨rfl, hindex⟩, _, _, ⟨rfl, hreads⟩, _, _, ⟨rfl, hmutations⟩, rfl, rfl⟩
    exact ⟨rfl, hterm, hindex, hreads, hmutations⟩
  . rintro ⟨rfl, h⟩
    exact ⟨_, _, ⟨rfl, h.baseTerm⟩, _, _, ⟨rfl, h.baseIndex⟩, _, _, ⟨rfl, h.reads⟩, _, _, ⟨rfl, h.mutations⟩,
      rfl, rfl⟩

theorem commitOutcome_inverts : EStateM.Inverts (read : BinaryReader CommitOutcome) write CommitOutcome.Fits := by
  intro input outcome rest
  unfold read write instCommitOutcome
  simp only [EStateM.bind_eq_ok_iff, readCase_inverts (show 5 ≤ 2 ^ 32 by decide) _ _ _]
  constructor
  . rintro ⟨found, _, ⟨rfl, hlt⟩, h⟩
    match found, hlt, h with
    | 0, _, h =>
      simp only [EStateM.bind_eq_ok_iff, EStateM.pure_eq_ok_iff, readWord_inverts _ _ _] at h
      obtain ⟨_, _, ⟨rfl, hterm⟩, _, _, ⟨rfl, hindex⟩, rfl, rfl⟩ := h
      refine ⟨?_, hterm, hindex⟩
      rw [List.append_assoc, List.append_assoc]
    | 1, _, h =>
      obtain ⟨what, rfl, hwhat, rfl⟩ := readText_inverts.bind_pure_iff.1 h
      exact ⟨(List.append_assoc _ _ _).symm, hwhat⟩
    | 2, _, h =>
      obtain ⟨leader, rfl, hleader, rfl⟩ := (readOption_inverts readText_inverts).bind_pure_iff.1 h
      exact ⟨(List.append_assoc _ _ _).symm, hleader⟩
    | 3, _, h =>
      obtain ⟨what, rfl, hwhat, rfl⟩ := readText_inverts.bind_pure_iff.1 h
      exact ⟨(List.append_assoc _ _ _).symm, hwhat⟩
    | 4, _, h =>
      obtain ⟨what, rfl, hwhat, rfl⟩ := readText_inverts.bind_pure_iff.1 h
      exact ⟨(List.append_assoc _ _ _).symm, hwhat⟩
    | _ + 5, hlt, _ => exact absurd hlt (by omega)
  . rintro ⟨rfl, h⟩
    cases outcome with
    | committed term index =>
      refine ⟨0, writeWord term ++ (writeWord index ++ rest), ⟨?_, by decide⟩, ?_⟩
      . rw [List.append_assoc, List.append_assoc]
      . simp only [EStateM.bind_eq_ok_iff, EStateM.pure_eq_ok_iff, readWord_inverts _ _ _]
        exact ⟨term, _, ⟨rfl, h.1⟩, index, rest, ⟨rfl, h.2⟩, rfl, rfl⟩
    | conflict what =>
      exact ⟨1, _, ⟨List.append_assoc _ _ _, by decide⟩, readText_inverts.bind_pure_iff.2 ⟨what, rfl, h, rfl⟩⟩
    | notLeader leader =>
      exact ⟨2, _, ⟨List.append_assoc _ _ _, by decide⟩,
        (readOption_inverts readText_inverts).bind_pure_iff.2 ⟨leader, rfl, h, rfl⟩⟩
    | indeterminate what =>
      exact ⟨3, _, ⟨List.append_assoc _ _ _, by decide⟩, readText_inverts.bind_pure_iff.2 ⟨what, rfl, h, rfl⟩⟩
    | failed what =>
      exact ⟨4, _, ⟨List.append_assoc _ _ _, by decide⟩, readText_inverts.bind_pure_iff.2 ⟨what, rfl, h, rfl⟩⟩

def ReadsBack {α : Type} [Wire α] (fits : α → Prop) : Prop :=
  ∀ (m : α) (input : Bytes), decode α input = .ok m ↔ fits m ∧ ∃ rest, input = write m ++ rest

theorem readsBack_of_inverts {α : Type} [Wire α] {fits : α → Prop} (h : EStateM.Inverts read write fits)
    : ReadsBack fits :=
  fun _ _ => decode_eq_ok_iff h

end Wire

namespace HardState

variable {state : HardState} {v v' : Volume}

theorem load_of_save (hfits : state.Fits) (hv : v.Separate) (hsave : save state v = .ok () v')
    : load v' = .ok state v' := by
  have hreplaced := Disk.leaves_replace hv fileName state.encode
  rw [show Disk.replace fileName state.encode v = .ok () v' from hsave] at hreplaced
  exact load_ok hfits (.inl hreplaced.2)

theorem exists_save (hfits : state.Fits) (hv : v.Sound)
    : ∃ v', save state v = .ok () v' ∧ load v' = .ok state v' := by
  obtain ⟨v', hsave, -, hholds, -⟩ := Disk.replace_sound hv fileName state.encode
  exact ⟨v', hsave, load_ok hfits (.inl hholds)⟩

end HardState

/-- Every kind of message is read as what was written, whatever follows it, and from no other bytes. Saving a hard
state succeeds where no step of the disk fails, and wherever it succeeded, what is loaded is what was saved. -/
theorem messages_and_hard_state_read_back
    : Wire.ReadsBack VoteRequest.Fits ∧ Wire.ReadsBack VoteResponse.Fits ∧
        Wire.ReadsBack AppendRequest.Fits ∧ Wire.ReadsBack AppendResponse.Fits ∧
        Wire.ReadsBack SnapshotRequest.Fits ∧ Wire.ReadsBack SnapshotResponse.Fits ∧
        Wire.ReadsBack CommitRequest.Fits ∧ Wire.ReadsBack CommitOutcome.Fits ∧
        ∀ state : HardState, state.Fits →
          (∀ v : Volume, v.Sound → ∃ v', HardState.save state v = .ok () v' ∧ HardState.load v' = .ok state v') ∧
          ∀ v v' : Volume, v.Separate → HardState.save state v = .ok () v' → HardState.load v' = .ok state v' := by
  refine ⟨?_, ?_, ?_, ?_, ?_, ?_, ?_, ?_, ?_⟩
  . exact Wire.readsBack_of_inverts Wire.voteRequest_inverts
  . exact Wire.readsBack_of_inverts Wire.voteResponse_inverts
  . exact Wire.readsBack_of_inverts Wire.appendRequest_inverts
  . exact Wire.readsBack_of_inverts Wire.appendResponse_inverts
  . exact Wire.readsBack_of_inverts Wire.snapshotRequest_inverts
  . exact Wire.readsBack_of_inverts Wire.snapshotResponse_inverts
  . exact Wire.readsBack_of_inverts Wire.commitRequest_inverts
  . exact Wire.readsBack_of_inverts Wire.commitOutcome_inverts
  . intro state hfits
    exact ⟨fun v => HardState.exists_save hfits, fun v v' => HardState.load_of_save hfits⟩

namespace Sent

def append : AppendRequest where
  term := 3
  leader := "n1"
  prevIndex := 4
  prevTerm := 2
  entries := [⟨3, 5, [7, 8]⟩, ⟨3, 6, []⟩]
  commit := 2 ^ 64 - 1

def commit : CommitRequest where
  baseTerm := 3
  baseIndex := 6
  reads := ⟨[⟨[0xff], none⟩, ⟨[0x61], some [0x62]⟩]⟩
  mutations := [0, 1]

def outcome : CommitOutcome :=
  .notLeader (some "naïve")

def state : HardState where
  term := 9
  votedFor := some "n2"

theorem append_fits : append.Fits where
  term := by decide
  leader := show (Bytes.ofText "n1").length < 2 ^ 64 by decide +kernel
  prevIndex := by decide
  prevTerm := by decide
  entries := {
    count := by decide
    each := List.forall_mem_cons.2
      ⟨⟨by decide, by decide, by decide⟩, List.forall_mem_singleton.2 ⟨by decide, by decide, by decide⟩⟩ }
  commit := by decide

theorem commit_fits : commit.Fits where
  baseTerm := by decide
  baseIndex := by decide
  reads := {
    count := by decide
    each := List.forall_mem_cons.2
      ⟨⟨by decide, nofun⟩, List.forall_mem_singleton.2 ⟨by decide, by rintro _ ⟨⟩; decide⟩⟩ }
  mutations := by decide

theorem outcome_fits : outcome.Fits := by
  rintro _ ⟨⟩
  show (Bytes.ofText "naïve").length < 2 ^ 64
  decide +kernel

theorem state_fits : state.Fits where
  term := by decide
  voter := by
    rintro _ ⟨⟩
    decide +kernel

end Sent

theorem messages_and_hard_state_read_back_trailing
    : Wire.decode AppendRequest (Wire.write Sent.append ++ [0, 1]) = .ok Sent.append ∧
        Wire.decode CommitRequest (Wire.write Sent.commit ++ Wire.write Sent.commit) = .ok Sent.commit ∧
        Wire.decode CommitOutcome (Wire.write Sent.outcome ++ [0xff]) = .ok Sent.outcome ∧
        ∃ v, HardState.save Sent.state {} = .ok () v ∧ HardState.load v = .ok Sent.state v := by
  obtain ⟨-, -, happend, -, -, -, hcommit, houtcome, hstate⟩ := messages_and_hard_state_read_back
  refine ⟨?_, ?_, ?_, ?_⟩
  . exact (happend _ _).2 ⟨Sent.append_fits, _, rfl⟩
  . exact (hcommit _ _).2 ⟨Sent.commit_fits, _, rfl⟩
  . exact (houtcome _ _).2 ⟨Sent.outcome_fits, _, rfl⟩
  . obtain ⟨hsaves, hloads⟩ := hstate Sent.state Sent.state_fits
    obtain ⟨v, hsave, -⟩ := hsaves {} Volume.sound_empty
    exact ⟨v, hsave, hloads {} v Volume.separate_empty hsave⟩

end ReplicatedStore
