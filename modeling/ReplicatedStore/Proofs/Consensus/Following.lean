import ReplicatedStore.Consensus.Replication
import ReplicatedStore.Proofs.Consensus.Entries
import ReplicatedStore.Proofs.Consensus.Terms

/-!
What a member makes of the entries of its leader.
-/

namespace ReplicatedStore

namespace History

theorem next_of_isPrefix {h rest : History} {e : LogEntry} {i : Nat} (hi : i ≤ h.length)
    (hp : h.take i ++ e :: rest <+: h)
    : h[i]? = some e ∧ h.take (i + 1) ++ rest <+: h := by
  have hlength := hp.length_le
  rw [List.length_append, List.length_take, List.length_cons] at hlength
  have hlt : i < h.length := by omega
  have hget : h[i]? = some e := by
    rw [List.prefix_iff_getElem?.1 hp i (by simp; omega)]
    simp [List.getElem_append_right, Nat.min_eq_left hi]
  refine ⟨hget, ?_⟩
  rw [List.take_add_one, hget]
  simpa using hp

theorem Numbered.lt_index {h rest : History} {e : LogEntry} {i : Nat} (hn : Numbered h)
    (hi : i ≤ h.length) (hp : h.take i ++ rest <+: h) (he : e ∈ rest)
    : i < e.index := by
  obtain ⟨k, hk, rfl⟩ := List.getElem_of_mem he
  have hlength : (h.take i).length = i := by simp [hi]
  have hget := (hn.of_isPrefix hp) (i + k) (by simp [hi, hk])
  rw [List.getElem_append_right (by omega)] at hget
  simp only [hlength, Nat.add_sub_cancel_left] at hget
  omega

theorem take_append_of_isPrefix {h rest : History} {i : Nat} (hi : i ≤ h.length)
    (hp : h.take i ++ rest <+: h)
    : h.take i ++ rest = h.take (i + rest.length) := by
  have := List.prefix_iff_eq_take.1 hp
  rwa [List.length_append, List.length_take, Nat.min_eq_left hi] at this

end History

def AppendRequest.Conflicts (q : AppendRequest) (log : LogStore) (i : Nat) : Prop :=
  ∃ e ∈ q.entries, e.index ≤ i ∧ ∃ t, log.termAt? e.index = some t ∧ t ≠ e.term

namespace Chronicle

structure Agrees (c : Chronicle) (n : NodeId) (i : Nat) : Prop where
  le : i ≤ (c.held n).length
  isPrefix : (c.held n).take i <+: c.log (c.term n)

variable {K : Cluster} {c c' : Chronicle} {n : NodeId} {node : Node} {clock : Clock}
  {excepted : Nat → Prop} {i j t : Nat} {e : LogEntry}

theorem Agrees.length_take (ha : Agrees c n i) : ((c.held n).take i).length = i := by
  have := ha.le
  rw [List.length_take]
  omega

theorem Agrees.le_log (ha : Agrees c n i) : i ≤ (c.log (c.term n)).length := by
  have := ha.isPrefix.length_le
  rwa [ha.length_take] at this

theorem Agrees.take_eq (ha : Agrees c n i) : (c.log (c.term n)).take i = (c.held n).take i := by
  have := List.prefix_iff_eq_take.1 ha.isPrefix
  rw [ha.length_take] at this
  exact this.symm

theorem Agrees.of_le (ha : Agrees c n i) (hle : j ≤ i) : Agrees c n j where
  le := Nat.le_trans hle ha.le
  isPrefix := (List.take_prefix_take_left hle).trans ha.isPrefix

theorem Agrees.of_take_eq (hle : i ≤ (c.held n).length)
    (h : (c.held n).take i = (c.log (c.term n)).take i)
    : Agrees c n i where
  le := hle
  isPrefix := by
    rw [h]
    exact List.take_prefix _ _

theorem Mirror.agrees (hm : Mirror K c n node) (hl : c.leader (c.term n) ≠ none)
    : Agrees c n node.commitIndex where
  le := hm.committed
  isPrefix := hm.take_isPrefix_log (Nat.le_refl _) (Nat.le_refl _) hl

theorem Mirror.agrees_of_termAt (hm : Mirror K c n node) (hi : i ≤ (c.log (c.term n)).length)
    (ht : node.log.termAt? i = some ((c.log (c.term n)).termAt i))
    : Agrees c n i := by
  obtain ⟨hle, hterm⟩ := hm.shows.of_termAt? ht
  apply Agrees.of_take_eq hle
  exact (hm.lawful.held_sound n).take_eq (hm.lawful.log_sound _) hle hi hterm

theorem Mirror.confirmed (hm : Mirror K c n node) (hl : c.leader (c.term n) ≠ none)
    (ha : Agrees c n i)
    : Step K.ids n c (c.confirm n i) ∧ Mirror K (c.confirm n i) n node ∧
        i ≤ (c.confirm n i).acked n (c.term n) := by
  have htake : (c.log (c.term n)).take i <+: c.held n := by
    rw [ha.take_eq]
    exact List.take_prefix _ _
  obtain ⟨hstep, hm'⟩ := hm.confirm hl ha.le_log htake
  refine ⟨hstep, hm', ?_⟩
  simp only [Chronicle.confirm, Function.update_self]
  exact Nat.le_max_right _ _

theorem Mirror.truncated (hm : Mirror K c n node) (hrole : node.role = .follower)
    (hl : c.leader (c.term n) ≠ none) (ha : Agrees c n i) (hcommit : node.commitIndex ≤ i)
    (ht : node.log.termAt? (i + 1) = some t) (hne : t ≠ (c.log (c.term n)).termAt (i + 1))
    : ∃ log, LogStore.discardFrom (i + 1) node.log = .ok () log ∧
        Step K.ids n c (c.accept n ((c.held n).take i)) ∧
        Mirror K (c.accept n ((c.held n).take i)) n { node with log } := by
  obtain ⟨hle, hterm⟩ := hm.shows.of_termAt? ht
  have hstep : Step K.ids n c (c.accept n ((c.held n).take i)) := by
    apply Step.accept _ hl
    refine .inr ⟨ha.isPrefix, ?_⟩
    intro p hheld hlog
    -- a longer common part would have the entry in which the two differ
    have hshort : p.length ≤ i := by
      by_contra hlong
      apply hne
      rw [← hterm, History.termAt_of_isPrefix hheld (by omega)]
      rw [History.termAt_of_isPrefix hlog (by omega)]
    apply List.prefix_of_prefix_length_le hheld (List.take_prefix _ _)
    rw [ha.length_take]
    exact hshort
  obtain ⟨log, hdiscard, hm'⟩ := hm.discarded hcommit (by omega)
  refine ⟨log, hdiscard, hstep, ?_⟩
  have hplays : Plays K (c.accept n ((c.held n).take i)) n node.role := by
    rw [hrole]
    trivial
  apply hm' _ _ (hstep.lawful hm.lawful) (hstep.extends hm.lawful) rfl rfl _ hplays
  simp [Chronicle.accept]

structure Missing (c : Chronicle) (n : NodeId) (upTo : Nat) (missing : List LogEntry) : Prop where
  agrees : missing = [] → Agrees c n upTo
  continues : missing ≠ [] → c.held n ++ missing = (c.log (c.term n)).take upTo

structure Reconciled (c c' : Chronicle) (n : NodeId) (upTo : Nat) (entries missing : List LogEntry)
    (node : Node) : Prop where
  role : node.role = .follower
  term : c'.term n = c.term n
  subset : missing ⊆ entries
  missing : Missing c' n upTo missing

theorem Reconciled.cons {upTo : Nat} {entries missing : List LogEntry}
    (h : Reconciled c c' n upTo entries missing node)
    : Reconciled c c' n upTo (e :: entries) missing node :=
  { h with subset := List.subset_cons_of_subset _ h.subset }

theorem Mirror.missing_of_termAt_eq_none {rest : List LogEntry} (hm : Mirror K c n node)
    (ha : Agrees c n i) (hi : node.log.snapshotIndex ≤ i) (ht : node.log.termAt? (i + 1) = none)
    (hp : (c.log (c.term n)).take i ++ e :: rest = (c.log (c.term n)).take j)
    : Missing c n j (e :: rest) := by
  refine ⟨by simp, ?_⟩
  intro _
  have hend : (c.held n).length ≤ i := by
    by_contra hlong
    rw [hm.shows.termAt? (by omega) (by omega)] at ht
    cases ht
  rw [← hp, ha.take_eq, List.take_of_length_le hend]

theorem Mirror.makesRoom (hm : Mirror K c n node) (hrole : node.role = .follower)
    (hl : c.leader (c.term n) ≠ none) (ha : Agrees c n i) (hcommit : node.commitIndex ≤ i)
    (ht : node.log.termAt? (i + 1) = some t) (hne : t ≠ (c.log (c.term n)).termAt (i + 1))
    (hexcepted : ∀ j, i + 1 ≤ j → excepted j)
    : Reaches K n c (Told K excepted node)
        (fun _ node' c' => node'.role = .follower ∧ c' = c.accept n ((c.held n).take i))
        ((do
          NodeM.onLog (LogStore.discardFrom (i + 1))
          NodeM.rejectFrom (i + 1)) clock node) := by
  obtain ⟨log, hdiscard, hstep, hm'⟩ := hm.truncated hrole hl ha hcommit ht hne
  have hdrop : NodeM.onLog (LogStore.discardFrom (i + 1)) clock node = .ok () { node with log } :=
    NodeM.onLog_ok hdiscard
  rw [NodeM.bind_of_ok hdrop, NodeM.rejectFrom_eq (i + 1)]
  apply Reaches.before (.single hstep)
  refine .of_mirror { hm' with } ?_ ⟨hrole, rfl⟩
  refine ⟨rfl, List.filter_subset_self _, ?_, ?_, Nat.le_refl _, fun h => h⟩
  . intro o ho _
    rcases List.mem_append.1 ho with ho | ho
    . exact .inl ho
    . obtain ⟨w, hw, rfl⟩ := List.mem_map.1 ho
      obtain ⟨hw, hindex⟩ := List.mem_filter.1 hw
      refine .inr ⟨w, hw, rfl, .inl ?_⟩
      apply hexcepted
      simpa using hindex
  . intro o ho hok
    rcases List.mem_append.1 ho with ho | ho
    . exact .inl ho
    . exact absurd hok (NodeM.ne_ok_of_mem_outcomes ho)

theorem Mirror.reconcile {s : Nat} {entries : List LogEntry} (hm : Mirror K c n node)
    (hrole : node.role = .follower) (hl : c.leader (c.term n) ≠ none)
    (hs : node.log.snapshotIndex = s) (hi : i ≤ (c.log (c.term n)).length)
    (ha : Agrees c n (max i s)) (hp : (c.log (c.term n)).take i ++ entries <+: c.log (c.term n))
    (hexcepted : ∀ e ∈ entries, ∀ j t, e.index ≤ j → node.log.termAt? e.index = some t →
      t ≠ e.term → excepted j)
    : Reaches K n c (Told K excepted node)
        (fun missing node' c' => Reconciled c c' n (max (i + entries.length) s) entries missing node')
        (NodeM.reconcile s entries clock node) := by
  induction entries generalizing i with
  | nil =>
    refine .of_mirror hm (.of_eq rfl) ⟨hrole, rfl, List.Subset.refl _, fun _ => ha, ?_⟩
    intro hne
    contradiction
  | cons e rest ih =>
    obtain ⟨hget, hrest⟩ := History.next_of_isPrefix hi hp
    obtain ⟨hlt, heq⟩ := List.getElem?_eq_some_iff.1 hget
    have hindex : e.index = i + 1 := by
      rw [← heq]
      exact (hm.lawful.log_sound _).numbered i hlt
    have hterm : (c.log (c.term n)).termAt (i + 1) = e.term := by
      rw [History.termAt_succ hlt, heq]
    have hlength : i + (e :: rest).length = i + 1 + rest.length := by
      rw [List.length_cons]
      omega
    have hfill := History.take_append_of_isPrefix hi hp
    rw [hlength] at hfill ⊢
    -- where the member has the entry already, it goes on with the rest
    have hskip : Agrees c n (max (i + 1) s) → Reaches K n c (Told K excepted node)
        (fun missing node' c' =>
          Reconciled c c' n (max (i + 1 + rest.length) s) (e :: rest) missing node')
        (NodeM.reconcile s rest clock node) := by
      intro ha'
      apply (ih hlt ha' hrest fun e' he' => hexcepted e' (List.mem_cons_of_mem _ he')).imp
      . intro _ _ _ htold
        exact htold
      . intro _ _ _ _ _ hreconciled
        exact hreconciled.cons
    unfold NodeM.reconcile
    rw [hindex]
    split
    . next hcovered =>
      apply hskip
      rw [show max (i + 1) s = max i s by omega]
      exact ha
    . next huncovered =>
      rw [show max i s = i by omega] at ha
      have hall : rest.filter (s < ·.index) = rest := by
        rw [List.filter_eq_self]
        intro e' he'
        have := (hm.lawful.log_sound _).numbered.lt_index hlt hrest he'
        simp only [decide_eq_true_eq]
        omega
      rw [NodeM.bind_get, hall]
      cases ht : node.log.termAt? (i + 1) with
      | none =>
        refine .of_mirror hm (.of_eq rfl) ⟨hrole, rfl, List.Subset.refl _, ?_⟩
        apply hm.missing_of_termAt_eq_none ha (by omega) ht
        rw [hfill, show max (i + 1 + rest.length) s = i + 1 + rest.length by omega]
      | some t =>
        dsimp only
        split
        . next heq =>
          apply hskip
          rw [show max (i + 1) s = i + 1 by omega]
          apply hm.agrees_of_termAt hlt
          rw [ht, hterm, heq]
        . next hne =>
          rw [NodeM.bind_get]
          split
          . exact .of_error hm (.of_eq rfl)
          . next huncommitted =>
            have hexcepted' : ∀ j, i + 1 ≤ j → excepted j := by
              intro j hj
              rw [← hindex] at hj ht
              exact hexcepted e List.mem_cons_self j t hj ht hne
            rw [← hterm] at hne
            rw [← bind_assoc]
            apply (hm.makesRoom hrole hl ha (by omega) ht hne hexcepted').bind
            rintro _ node' c' _ hm' htold ⟨hrole', rfl⟩
            refine .of_mirror hm' htold ⟨hrole', rfl, List.Subset.refl _, by simp, ?_⟩
            intro _
            simp only [Chronicle.accept, Function.update_self]
            rw [← ha.take_eq, hfill, show max (i + 1 + rest.length) s = i + 1 + rest.length by omega]

theorem Mirror.filled {upTo : Nat} {missing : List LogEntry} (hm : Mirror K c n node)
    (hrole : node.role = .follower) (hl : c.leader (c.term n) ≠ none)
    (hmissing : Missing c n upTo missing) (hupTo : upTo ≤ (c.log (c.term n)).length)
    (hfit : ∀ e ∈ missing, e.Fits)
    : ∃ log c', LogStore.append missing node.log = .ok () log ∧ Evolves K.ids n c c' ∧
        Mirror K c' n { node with log } ∧ c'.term n = c.term n ∧ Agrees c' n upTo := by
  by_cases hnil : missing = []
  . rw [hnil]
    exact ⟨node.log, c, rfl, .refl, hm, rfl, hmissing.agrees hnil⟩
  . have heq := hmissing.continues hnil
    have hstep : Step K.ids n c (c.accept n (c.held n ++ missing)) := by
      apply Step.accept _ hl
      refine .inr ⟨?_, ?_⟩
      . rw [heq]
        exact List.take_prefix _ _
      . intro p hheld _
        exact hheld.trans (List.prefix_append _ _)
    have hfollows : Follows (c.held n).length missing := by
      have hn := (hm.lawful.log_sound (c.term n)).numbered.take upTo
      rw [← heq] at hn
      have := hn.follows (i := (c.held n).length)
      rwa [List.drop_left] at this
    obtain ⟨log, happend, hm'⟩ := hm.appended hfollows hfit
    have hplays : Plays K (c.accept n (c.held n ++ missing)) n node.role := by
      rw [hrole]
      trivial
    have hheld : (c.accept n (c.held n ++ missing)).held n = c.held n ++ missing := by
      simp [Chronicle.accept]
    refine ⟨log, _, happend, .single hstep, ?_, rfl, ?_⟩
    . exact hm' _ _ (hstep.lawful hm.lawful) (hstep.extends hm.lawful) rfl rfl hheld hplays
    . constructor
      . rw [hheld, heq, List.length_take]
        omega
      . rw [hheld, heq]
        exact (List.take_prefix _ _).trans (List.take_prefix _ _)

theorem Mirror.follow {term : Nat} (hm : Mirror K c n node) (hlt : term < 2 ^ 64)
    (hle : c.term n ≤ term) (leader : NodeId)
    : Reaches K n c (Told K excepted node)
        (fun _ node' c' => c'.term n = term ∧ node'.role = .follower ∧
          ∃ disk, node'.log = { node.log with disk })
        (NodeM.follow term leader clock node) := by
  unfold NodeM.follow
  apply (hm.adoptTerm hlt (some leader)).bind
  rintro _ node' c' _ hm' htold ⟨hterm, hrole, disk, hlog⟩
  rw [NodeM.bind_read]
  refine .of_mirror { hm' with } { htold with } ⟨?_, hrole, disk, hlog⟩
  omega

theorem Mirror.agrees_prev {source : NodeId} {q : AppendRequest} (hm : Mirror K c n node)
    (hq : Offers K c source q) (hterm : c.term n = q.term)
    (hprev : ¬ (node.log.snapshotIndex ≤ q.prevIndex ∧
      node.log.termAt? q.prevIndex ≠ some q.prevTerm))
    : Agrees c n (max q.prevIndex node.log.snapshotIndex) := by
  have hl : c.leader (c.term n) ≠ none := by
    rw [hterm, hq.leader]
    simp
  have hcovered := hm.covered
  have happlied := hm.applied
  by_cases hlow : node.log.snapshotIndex ≤ q.prevIndex
  . rw [Nat.max_eq_left hlow]
    apply hm.agrees_of_termAt
    . rw [hterm]
      exact hq.prev_le
    . rw [hterm, ← hq.prevTerm]
      by_contra hne
      exact hprev ⟨hlow, hne⟩
  . rw [Nat.max_eq_right (by omega)]
    exact (hm.agrees hl).of_le (by omega)

theorem Mirror.commitOffered {source : NodeId} {q : AppendRequest} (hm : Mirror K c n node)
    (hq : Offers K c source q) (hterm : c.term n = q.term) (ha : Agrees c n i)
    : Reaches K n c (Told K excepted node) (fun _ _ _ => True)
        (NodeM.commitThrough (min q.commit i) clock node) := by
  have ha' : Agrees c n (min q.commit i) := ha.of_le (Nat.min_le_right _ _)
  apply hm.commitThrough _ ha'.le
  have hs := hq.settled.of_isPrefix (List.take_prefix_take_left (Nat.min_le_left q.commit i))
  rw [← hterm, ha'.take_eq] at hs
  exact hs

theorem Mirror.store {source : NodeId} {q : AppendRequest} {missing : List LogEntry} {s term : Nat}
    (hm : Mirror K c n node) (hrole : node.role = .follower) (hq : Offers K c source q)
    (hterm : c.term n = q.term) (hlt : term < 2 ^ 64) (hsub : missing ⊆ q.entries)
    (hmissing : Missing c n (max (q.prevIndex + q.entries.length) s) missing)
    (hupTo : max (q.prevIndex + q.entries.length) s ≤ (c.log (c.term n)).length)
    : Reaches K n c (Told K excepted node)
        (fun r _ c' => r.term < 2 ^ 64 ∧ (r.success → r.agreesThrough ≤ c'.acked n q.term))
        ((do
          NodeM.onLog (LogStore.append missing)
          NodeM.commitThrough (min q.commit (q.prevIndex + q.entries.length))
          return {
            term
            success := true
            agreesThrough := max (q.prevIndex + q.entries.length) s
            resumeAt := 0 } : NodeM AppendResponse) clock node) := by
  have hl : c.leader (c.term n) ≠ none := by
    rw [hterm, hq.leader]
    simp
  -- three steps: the entries are taken in, acknowledged, and committed as far as the leader has
  obtain ⟨log, c₁, happend, hev₁, hm₁, hterm₁, ha₁⟩ := hm.filled hrole hl hmissing hupTo
    (fun e he => hq.fits e (hsub he))
  have hstored : NodeM.onLog (LogStore.append missing) clock node = .ok () { node with log } :=
    NodeM.onLog_ok happend
  have he₁ := hev₁.extends hm.lawful
  have hl₁ : c₁.leader (c₁.term n) ≠ none := by
    rw [hterm₁]
    exact he₁.leader_ne hl
  obtain ⟨hstep, hm₂, hacked⟩ := hm₁.confirmed hl₁ ha₁
  rw [hterm₁, hterm] at hacked
  have he₂ := hstep.extends hm₁.lawful
  have ha₂ := ha₁.of_le (Nat.le_max_left _ _)
  let c₂ := c₁.confirm n (max (q.prevIndex + q.entries.length) s)
  have hcommit : Reaches K n c₂ (Told K excepted node) (fun _ _ _ => True)
      (NodeM.commitThrough (min q.commit (q.prevIndex + q.entries.length)) clock
        { node with log }) := by
    apply (hm₂.commitOffered ((hq.mono hm.lawful he₁).mono hm₁.lawful he₂) (hterm₁.trans hterm)
      ⟨ha₂.le, ha₂.isPrefix⟩).since
    . exact .of_eq rfl
    . exact hm₂.lawful
  rw [NodeM.bind_of_ok hstored]
  apply Reaches.before (hev₁.tail hstep)
  apply hcommit.bind
  intro _ node₃ c₃ hev₃ hm₃ htold₃ _
  refine .of_mirror hm₃ htold₃ ⟨hlt, ?_⟩
  intro _
  exact Nat.le_trans hacked ((hev₃.extends hm₂.lawful).acked _ _)

theorem Mirror.takeIn {source : NodeId} {q : AppendRequest} (hm : Mirror K c n node)
    (hrole : node.role = .follower) (hq : Offers K c source q) (hterm : c.term n = q.term)
    (ha : Agrees c n (max q.prevIndex node.log.snapshotIndex))
    : Reaches K n c (Told K (q.Conflicts node.log) node)
        (fun r _ c' => r.term < 2 ^ 64 ∧ (r.success → r.agreesThrough ≤ c'.acked n q.term))
        ((do
          NodeM.onLog (LogStore.append (← NodeM.reconcile node.log.snapshotIndex q.entries))
          NodeM.commitThrough (min q.commit (q.prevIndex + q.entries.length))
          return {
            term := node.term
            success := true
            agreesThrough := max (q.prevIndex + q.entries.length) node.log.snapshotIndex
            resumeAt := 0 } : NodeM AppendResponse) clock node) := by
  have hl : c.leader (c.term n) ≠ none := by
    rw [hterm, hq.leader]
    simp
  have hprev : q.prevIndex ≤ (c.log (c.term n)).length := by
    rw [hterm]
    exact hq.prev_le
  have hentries : (c.log (c.term n)).take q.prevIndex ++ q.entries <+: c.log (c.term n) := by
    rw [hterm]
    exact hq.entries
  have hupTo : max (q.prevIndex + q.entries.length) node.log.snapshotIndex
      ≤ (c.log (c.term n)).length := by
    have := hentries.length_le
    have := ha.le_log
    rw [List.length_append, List.length_take] at *
    omega
  apply (hm.reconcile hrole hl rfl hprev ha hentries _).bind
  . rintro missing node₁ c₁ hev₁ hm₁ htold₁ ⟨hrole₁, hterm₁, hsub, hmissing⟩
    have he₁ := hev₁.extends hm.lawful
    have hlog := (he₁.log (c.term n)).length_le
    apply Reaches.since _ htold₁ hm₁.lawful
    apply hm₁.store hrole₁ (hq.mono hm.lawful he₁) (hterm₁.trans hterm) hm.term_lt hsub hmissing
    rw [hterm₁]
    omega
  . intro e he j t hle ht hne
    exact ⟨e, he, hle, t, ht, hne⟩

theorem Mirror.onAppendRequest {source : NodeId} {q : AppendRequest} (hm : Mirror K c n node)
    (hq : Offers K c source q)
    : Reaches K n c (Told K (q.Conflicts node.log) node)
        (fun r _ c' => r.term < 2 ^ 64 ∧ (r.success → r.agreesThrough ≤ c'.acked n q.term))
        (NodeM.onAppendRequest q clock node) := by
  unfold NodeM.onAppendRequest
  apply hm.ensureRunning.bind
  rintro _ _ _ - - - ⟨rfl, rfl⟩
  rw [NodeM.bind_get]
  split
  . exact .of_mirror hm (.of_eq rfl) ⟨hm.term_lt, by simp⟩
  . next hcurrent =>
    have hterm : node.term = c.term n := hm.term
    apply (hm.follow hq.term_lt (by omega) q.leader).bind
    rintro _ node₁ c₁ hev₁ hm₁ htold₁ ⟨hterm₁, hrole₁, disk, hlog⟩
    have hq₁ := hq.mono hm.lawful (hev₁.extends hm.lawful)
    rw [NodeM.bind_get]
    dsimp only
    split
    . exact .of_mirror hm₁ htold₁ ⟨hm₁.term_lt, by simp⟩
    . next hprev =>
      have hsame : q.Conflicts node₁.log = q.Conflicts node.log := by
        rw [hlog]
        rfl
      apply Reaches.since _ htold₁ hm₁.lawful
      rw [← hsame]
      exact hm₁.takeIn hrole₁ hq₁ hterm₁ (hm₁.agrees_prev hq₁ hterm₁ hprev)

end Chronicle

end ReplicatedStore
