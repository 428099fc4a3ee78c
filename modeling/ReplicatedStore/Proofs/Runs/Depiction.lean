import ReplicatedStore.Proofs.Runs.Moves

/-!
Every run has a chronicle that its nodes, its files and its messages tell of, and that only goes on.
-/

namespace ReplicatedStore

def Event.Drops (e : Event) (d : Deployment) (n : NodeId) (node : Node) (i : Nat) : Prop :=
  ∃ clock source q, e = .act n clock (.handle source (.append q)) ∧
    .request source n (.append q) ∈ d.packets ∧ q.Conflicts node.log i

namespace Chronicle

def Portrays (K : Cluster) (c : Chronicle) (n : NodeId) : Host → Prop
  | .running node => Mirror K c n node ∧ Ticketed node
  | .stopped disk => n ∈ K.ids → Stored K c n disk

structure Depicts (K : Cluster) (c : Chronicle) (d : Deployment) : Prop where
  lawful : c.Lawful K.ids
  hosts : ∀ n, Portrays K c n (d.hosts n)
  packets : ∀ p ∈ d.packets, Tells K c p

def Admits (K : Cluster) (d : Deployment) (e : Event) (c c' : Chronicle) : Prop :=
  ∀ n clock proposal x y term index ticket, e = .act n clock (.propose proposal) →
    d.hosts n = .running x → x.hasRoom = true →
    NodeM.propose proposal clock x = .ok (.appended term index ticket) y →
    (d.perform K e).hosts n = .running y ∧ ticket = x.nextTicket ∧
      (term = c.term n ∧ index = (c.held n).length + 1 ∧
        c.held n ++ [{ term, index, command := proposal.writes.encode }] <+: c'.log term) ∧
      ∃ z, Enlists x z index term ∧ Told K (e.Drops d n x) z y c'

structure Continues (K : Cluster) (d : Deployment) (e : Event) (c c' : Chronicle) : Prop where
  goesOn : c.Extends c'
  depicts : Depicts K c' (d.perform K e)
  clients : ∀ n x y, d.hosts n = .running x → (d.perform K e).hosts n = .running y →
    Serves K c' (e.Drops d n x) x y
  created : Admits K d e c c'

variable {K : Cluster} {c c' : Chronicle} {d : Deployment} {e : Event} {n m : NodeId} {x y : Node}
  {host : Host} {sent : List Packet}

theorem blank_depicts (K : Cluster) : Depicts K blank {} where
  lawful := blank_lawful K.ids
  hosts n _ := {
    files := ⟨none, [], Volume.stores_empty, {
      covered := Nat.le_refl _
      entries := rfl
      captures := by
        intro s hs
        cases hs
      settled := settled_nil _ _ _ }⟩ }
  packets p hp := by
    cases hp

theorem Portrays.mono (hp : Portrays K c m host) (hc : c.Lawful K.ids)
    (hev : Evolves K.ids n c c') (hne : m ≠ n)
    : Portrays K c' m host := by
  cases host with
  | running node => exact ⟨hp.1.mono hev hne, hp.2⟩
  | stopped disk =>
    intro hm
    exact (hp hm).mono hc (hev.extends hc) hev.leaves hne

theorem Depicts.setHost (hd : Depicts K c d) (hev : Evolves K.ids n c c')
    (hhost : Portrays K c' n host) (hsent : ∀ p ∈ sent, Tells K c' p)
    : Depicts K c' { d.setHost n host with packets := d.packets ++ sent } where
  lawful := hev.lawful hd.lawful
  hosts m := by
    by_cases hm : m = n
    . rw [hm]
      simpa [Deployment.setHost] using hhost
    . have := (hd.hosts m).mono hd.lawful hev hm
      simpa [Deployment.setHost, hm] using this
  packets p hp := by
    rcases List.mem_append.1 hp with hp | hp
    . exact (hd.packets p hp).mono hd.lawful (hev.extends hd.lawful)
    . exact hsent p hp

theorem Continues.idle (hd : Depicts K c d) (hperform : d.perform K e = d)
    (hpropose : ∀ n clock proposal x, e = .act n clock (.propose proposal) →
      d.hosts n = .running x → ¬ x.hasRoom = true)
    : Continues K d e c c where
  goesOn := .refl c
  depicts := by
    rw [hperform]
    exact hd
  clients := by
    intro n x y hx hy
    rw [hperform, hx] at hy
    cases hy
    exact .inl (.of_eq rfl)
  created := by
    intro n clock proposal x y term index ticket he hx hroom
    exact absurd hroom (hpropose n clock proposal x he hx)

theorem Continues.of_host (hd : Depicts K c d) (hev : Evolves K.ids n c c')
    (hperform : d.perform K e = { d.setHost n host with packets := d.packets ++ sent })
    (hhost : Portrays K c' n host) (hsent : ∀ p ∈ sent, Tells K c' p)
    (hclients : ∀ x y, d.hosts n = .running x → host = .running y → Serves K c' (e.Drops d n x) x y)
    (hcreated : Admits K d e c c')
    : Continues K d e c c' where
  goesOn := hev.extends hd.lawful
  depicts := by
    rw [hperform]
    exact hd.setHost hev hhost hsent
  clients := by
    intro m x y hx hy
    rw [hperform] at hy
    by_cases hm : m = n
    . rw [hm] at hx hy ⊢
      apply hclients x y hx
      simpa [Deployment.setHost] using hy
    . have hsame : d.hosts m = .running y := by simpa [Deployment.setHost, hm] using hy
      rw [hx] at hsame
      cases hsame
      exact .inl (.of_eq rfl)
  created := hcreated

theorem Continues.of_running (hd : Depicts K c d) (hev : Evolves K.ids n c c')
    (hrunning : d.hosts n = .running x)
    (hperform : d.perform K e = { d.setHost n (.running y) with packets := d.packets ++ sent })
    (hm : Mirror K c' n y) (hy : Ticketed y) (hsent : ∀ p ∈ sent, Tells K c' p)
    (hserves : Serves K c' (e.Drops d n x) x y) (hcreated : Admits K d e c c')
    : Continues K d e c c' := by
  apply Continues.of_host hd hev hperform ⟨hm, hy⟩ hsent _ hcreated
  intro x' y' hx' hy'
  rw [hrunning] at hx'
  cases hx'
  cases hy'
  exact hserves

variable {clock : Clock} {move : Move}

theorem drops_act {x : Node} {i : Nat} (clock : Clock) (h : move.Drops x i)
    (hpossible : move.possible n d.packets x = true)
    : (Event.act n clock move).Drops d n x i := by
  obtain ⟨source, q, rfl, hconflicts⟩ := h
  refine ⟨clock, source, q, rfl, ?_, hconflicts⟩
  simpa [Move.possible] using hpossible

theorem Depicts.act (hd : Depicts K c d) (hhost : d.hosts n = .running x)
    (hpossible : move.possible n d.packets x = true) (hmove : ∀ p, move ≠ .propose p)
    : ∃ c', Continues K d (.act n clock move) c c' := by
  have hx := hd.hosts n
  rw [hhost] at hx
  obtain ⟨hm, hticketed⟩ := hx
  have hcreated : ∀ c', Admits K d (.act n clock move) c c' := by
    intro c' m clock' proposal x y term index ticket he
    injection he with _ _ hpropose
    exact absurd hpropose (hmove proposal)
  have hreaches := hm.act clock hd.packets hpossible hmove
  cases haction : move.action n clock x with
  | ok sent y =>
    rw [haction] at hreaches
    obtain ⟨c', hev, hm', htold, hsent⟩ := hreaches
    exact ⟨c', .of_running hd hev hhost (Deployment.act_ok hhost hpossible haction) hm'
      (hticketed.told htold) hsent (.inl (htold.weaken fun i hi => drops_act clock hi hpossible))
      (hcreated c')⟩
  | error fault y =>
    rw [haction] at hreaches
    obtain ⟨c', hev, hm', htold⟩ := hreaches
    exact ⟨c', .of_running hd hev hhost (Deployment.act_error hhost hpossible haction) hm'
      (hticketed.told htold) (by simp)
      (.inl (htold.weaken fun i hi => drops_act clock hi hpossible)) (hcreated c')⟩

theorem Admits.of_propose {proposal : Proposal} (hhost : d.hosts n = .running x)
    (h : ∀ term index ticket y,
      NodeM.propose proposal clock x = .ok (.appended term index ticket) y →
      (d.perform K (.act n clock (.propose proposal))).hosts n = .running y ∧
        ticket = x.nextTicket ∧
        (term = c.term n ∧ index = (c.held n).length + 1 ∧
          c.held n ++ [{ term, index, command := proposal.writes.encode }] <+: c'.log term) ∧
        ∃ z, Enlists x z index term ∧
          Told K ((Event.act n clock (.propose proposal)).Drops d n x) z y c')
    : Admits K d (.act n clock (.propose proposal)) c c' := by
  intro m clock' proposal' x' y term index ticket he hx' _ hok
  cases he
  rw [hhost] at hx'
  cases hx'
  exact h term index ticket y hok

theorem Depicts.propose {proposal : Proposal} (hd : Depicts K c d) (hhost : d.hosts n = .running x)
    (hroom : x.hasRoom = true)
    : ∃ c', Continues K d (.act n clock (.propose proposal)) c c' := by
  have hx := hd.hosts n
  rw [hhost] at hx
  obtain ⟨hm, hticketed⟩ := hx
  have hpossible : (Move.propose proposal).possible n d.packets x = true := hroom
  have hproposed : Proposed K ((Event.act n clock (.propose proposal)).Drops d n x) n c x proposal
      (NodeM.propose proposal clock x) := hm.propose (Node.hasRoom_iff.1 hroom).2
  cases hresult : NodeM.propose proposal clock x with
  | error fault y =>
    rw [hresult] at hproposed
    obtain ⟨hm', -, htold⟩ := hproposed
    have haction : (Move.propose proposal).action n clock x = .error fault y :=
      NodeM.bind_of_error hresult
    refine ⟨c, .of_running hd .refl hhost (Deployment.act_error hhost hpossible haction) hm'
      (hticketed.told htold) (by simp) (.inl htold) (.of_propose hhost ?_)⟩
    intro term index ticket y' hok
    rw [hresult] at hok
    cases hok
  | ok accepted y =>
    rw [hresult] at hproposed
    have haction : (Move.propose proposal).action n clock x = .ok [] y :=
      NodeM.bind_of_ok hresult
    have hperform := Deployment.act_ok hhost hpossible haction
    cases accepted with
    | readOnly =>
      cases hproposed
      refine ⟨c, .of_running hd .refl hhost hperform hm hticketed (by simp)
        (.inl (.of_eq rfl)) (.of_propose hhost ?_)⟩
      intro term index ticket y' hok
      rw [hresult] at hok
      cases hok
    | appended term index ticket =>
      obtain ⟨c', z, hev, hm', hterm, hindex, hgrown, hticket, henlists, htold⟩ := hproposed
      refine ⟨c', .of_running hd hev hhost hperform hm' ((hticketed.enlists henlists).told htold)
        (by simp) (.inr ⟨z, index, term, henlists, htold⟩) (.of_propose hhost ?_)⟩
      intro term' index' ticket' y' hok
      rw [hresult] at hok
      cases hok
      have hrunning : (d.perform K (.act n clock (.propose proposal))).hosts n = .running y := by
        change (d.act n clock (.propose proposal)).hosts n = _
        rw [hperform]
        simp [Deployment.setHost]
      exact ⟨hrunning, hticket, ⟨hterm, hindex, hgrown⟩, z, henlists, htold⟩

theorem Depicts.restart (hd : Depicts K c d) (n : NodeId) (host : Host)
    (hperform : d.perform K e = { d.setHost n host with packets := d.packets ++ [] })
    (hhost : Portrays K c n host) (hclients : ∀ x y, d.hosts n = .running x → host ≠ .running y)
    (hpropose : ∀ m clock proposal, e ≠ .act m clock (.propose proposal))
    : Continues K d e c c := by
  apply Continues.of_host hd .refl hperform hhost (by simp)
  . intro x y hx hy
    exact absurd hy (hclients x y hx)
  . intro m clock proposal x y term index ticket he
    exact absurd he (hpropose m clock proposal)

theorem Depicts.disk (hd : Depicts K c d) (hn : n ∈ K.ids) : Stored K c n (d.hosts n).disk := by
  have hx := hd.hosts n
  cases hhost : d.hosts n with
  | running node =>
    rw [hhost] at hx
    exact hx.1.stored
  | stopped disk =>
    rw [hhost] at hx
    exact hx hn

theorem Depicts.crash (hd : Depicts K c d) (n : NodeId) (powerLost : Bool)
    : Continues K d (.crash n powerLost) c c := by
  apply hd.restart n (.stopped (if powerLost then (d.hosts n).disk.crash else (d.hosts n).disk))
  . unfold Deployment.perform Deployment.crash
    simp [Deployment.setHost]
  . intro hn
    cases powerLost with
    | true => exact (hd.disk hn).crash
    | false => exact hd.disk hn
  . intro x y _ hy
    cases hy
  . intro m clock proposal he
    cases he

theorem Depicts.open {config : ConsensusConfig} (hd : Depicts K c d) (n : NodeId) (clock : Clock)
    : Continues K d (.open n config clock) c c := by
  have hnever : ∀ m clock' proposal,
      Event.open n config clock ≠ .act m clock' (.propose proposal) := by
    intro m clock' proposal he
    cases he
  have hidle : d.perform K (.open n config clock) = d → Continues K d (.open n config clock) c c := by
    intro hperform
    apply Continues.idle hd hperform
    intro m clock' proposal x he
    exact absurd he (hnever m clock' proposal)
  have hx := hd.hosts n
  cases hhost : d.hosts n with
  | running node =>
    apply hidle
    unfold Deployment.perform Deployment.reopen
    simp [hhost]
  | stopped disk =>
    rw [hhost] at hx
    by_cases hmay : n ∈ K.ids ∧ config.policy = .always
    . have hopened : Reopened K c n (Node.open n K.ids config clock disk) :=
        (hx hmay.1).reopen hd.lawful hmay.1 hmay.2
      cases hopen : Node.open n K.ids config clock disk with
      | ok node disk' =>
        rw [hopen] at hopened
        obtain ⟨hm, -, hpending, hsettled, hannounced⟩ := hopened
        apply hd.restart n (.running node) _ _ _ hnever
        . unfold Deployment.perform Deployment.reopen
          simp [hhost, hmay, hopen, Deployment.setHost]
        . refine ⟨hm, ?_, ?_, ?_, Nat.le_of_eq hannounced⟩
          . simp [hpending]
          . simp [hsettled]
          . simp [hsettled]
        . intro x y hx'
          rw [hhost] at hx'
          cases hx'
      | error fault disk' =>
        rw [hopen] at hopened
        apply hd.restart n (.stopped disk') _ (fun _ => hopened) _ hnever
        . unfold Deployment.perform Deployment.reopen
          simp [hhost, hmay, hopen, Deployment.setHost]
        . intro x y hx'
          rw [hhost] at hx'
          cases hx'
    . apply hidle
      unfold Deployment.perform Deployment.reopen
      simp [hhost, hmay]

theorem Depicts.perform (hd : Depicts K c d) (e : Event) : ∃ c', Continues K d e c c' := by
  cases e with
  | crash n powerLost => exact ⟨c, hd.crash n powerLost⟩
  | «open» n config clock => exact ⟨c, hd.open n clock⟩
  | act n clock move =>
    cases hhost : d.hosts n with
    | stopped disk =>
      refine ⟨c, .idle hd (Deployment.act_stopped hhost) ?_⟩
      intro m clock' proposal x he hx
      cases he
      rw [hhost] at hx
      cases hx
    | running x =>
      by_cases hpossible : move.possible n d.packets x = true
      . by_cases hpropose : ∃ proposal, move = .propose proposal
        . obtain ⟨proposal, rfl⟩ := hpropose
          exact hd.propose hhost hpossible
        . exact hd.act hhost hpossible (not_exists.1 hpropose)
      . refine ⟨c, .idle hd (Deployment.act_impossible hhost hpossible) ?_⟩
        intro m clock' proposal x' he hx'
        cases he
        rw [hhost] at hx'
        cases hx'
        exact hpossible

/-- A chronicle for every moment of a run. -/
structure Chronicled (K : Cluster) (events : List Event) (chronicle : Nat → Chronicle) : Prop where
  depicts : ∀ k, Depicts K (chronicle k) (K.moment events k)
  goesOn : ∀ k, (chronicle k).Extends (chronicle (k + 1))
  continues : ∀ k e, events[k]? = some e →
    Continues K (K.moment events k) e (chronicle k) (chronicle (k + 1))

variable {events : List Event} {chronicle : Nat → Chronicle} {j k : Nat}

theorem moment_succ (h : events[k]? = some e)
    : K.moment events (k + 1) = (K.moment events k).perform K e := by
  unfold Cluster.moment Cluster.run
  rw [List.take_add_one, h, Option.toList_some, List.foldl_concat]

theorem moment_end (h : events[k]? = none) : K.moment events (k + 1) = K.moment events k := by
  unfold Cluster.moment
  rw [List.take_add_one, h, Option.toList_none, List.append_nil]

theorem Depicts.next (hd : Depicts K c (K.moment events k))
    : ∃ c', Depicts K c' (K.moment events (k + 1)) ∧ c.Extends c' ∧
        ∀ e, events[k]? = some e → Continues K (K.moment events k) e c c' := by
  cases he : events[k]? with
  | none =>
    refine ⟨c, ?_, .refl c, by simp⟩
    rw [moment_end he]
    exact hd
  | some e =>
    obtain ⟨c', hcontinues⟩ := hd.perform e
    refine ⟨c', ?_, hcontinues.goesOn, ?_⟩
    . rw [moment_succ he]
      exact hcontinues.depicts
    . intro e' he'
      cases he'
      exact hcontinues

theorem exists_chronicled (K : Cluster) (events : List Event)
    : ∃ chronicle, Chronicled K events chronicle := by
  have hnext : ∀ k (c : { c // Depicts K c (K.moment events k) }),
      ∃ c' : { c' // Depicts K c' (K.moment events (k + 1)) }, c.1.Extends c'.1 ∧
        ∀ e, events[k]? = some e → Continues K (K.moment events k) e c.1 c'.1 := by
    intro k c
    obtain ⟨c', hd, he, hcontinues⟩ := c.2.next
    exact ⟨⟨c', hd⟩, he, hcontinues⟩
  choose next hgoesOn hcontinues using hnext
  let chronicle (k : Nat) : { c // Depicts K c (K.moment events k) } :=
    k.rec ⟨blank, blank_depicts K⟩ next
  exact ⟨fun k => (chronicle k).1, {
    depicts := fun k => (chronicle k).2
    goesOn := fun k => hgoesOn k (chronicle k)
    continues := fun k => hcontinues k (chronicle k) }⟩

namespace Chronicled

theorem lawful (hc : Chronicled K events chronicle) (k : Nat) : (chronicle k).Lawful K.ids :=
  (hc.depicts k).lawful

theorem later (hc : Chronicled K events chronicle) (hle : j ≤ k)
    : (chronicle j).Extends (chronicle k) := by
  induction hle with
  | refl => exact .refl _
  | step _ ih => exact ih.trans (hc.goesOn _)

theorem mirror (hc : Chronicled K events chronicle) (hx : (K.moment events k).node? n = some x)
    : Mirror K (chronicle k) n x := by
  have hhost := (hc.depicts k).hosts n
  unfold Deployment.node? at hx
  split at hx
  . next node hrunning =>
    rw [hrunning] at hhost
    cases hx
    exact hhost.1
  . cases hx

end Chronicled

end Chronicle

end ReplicatedStore
