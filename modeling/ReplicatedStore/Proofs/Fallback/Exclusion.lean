import ReplicatedStore.Proofs.Fallback.Conduct
import ReplicatedStore.Proofs.Fallback.Passing

/-!
Transactions of clients and switches exclude each other, and a switch that fails is as good as none.
-/

namespace ReplicatedStore

namespace Process

variable {home : Handle} {call : FallbackCall} {h : Holding} {hs : List Holding}
  {timers : List (Timer FallbackAnswer)}

theorem Obeys.isOver {process : Process FallbackAnswer} (hobeys : process.Obeys home call h hs)
    (hwaits : process.waits = true)
    : h.isOver = false := by
  cases process with
  | step effect next => exact hobeys.2.1.isOver
  | round needed members next =>
    have hroams := hobeys.2.1
    cases h <;> first | rfl | cases hroams
  | join => cases hobeys
  | _ => cases hwaits

theorem Obeys.timers_eq {process : Process FallbackAnswer} (hobeys : process.Obeys home call h hs)
    (hwaits : process.waits = true)
    : ∀ other ∈ hs, other = h := by
  cases process with
  | step effect next => exact hobeys.1
  | round needed members next => exact hobeys.1
  | join => cases hobeys
  | _ => cases hwaits

theorem obeys_settle {process : Process FallbackAnswer} (now : Nat) (hobeys : process.Obeys home call h hs)
    (harmed : Armed home call timers hs)
    : ∃ process' timers', process.settle now timers = (process', timers') ∧
        ((∃ answer, process' = .answer answer ∧ call.Finishes h answer) ∨
          process'.waits = true ∧ ∃ hs', process'.Obeys home call h hs' ∧ Armed home call timers' hs') := by
  induction timers, process using Process.settle.induct now generalizing hs with
  | case1 timers millis late next ih =>
    rw [settle]
    exact ih hobeys.2 ⟨hobeys.1, harmed⟩
  | case2 timers next ih =>
    obtain ⟨other, rest, rfl, hnext⟩ := hobeys
    cases timers with
    | nil => cases harmed
    | cons timer timers =>
      rw [settle]
      exact ih hnext harmed.2
  | case3 timers process hset hclear =>
    cases process with
    | step effect next => exact ⟨_, timers, rfl, .inr ⟨rfl, hs, hobeys, harmed⟩⟩
    | round needed members next => exact ⟨_, timers, rfl, .inr ⟨rfl, hs, hobeys, harmed⟩⟩
    | answer result => exact ⟨_, timers, rfl, .inl ⟨result, rfl, hobeys⟩⟩
    | setTimer millis late next => exact absurd rfl (hset millis late next)
    | clearTimer next => exact absurd rfl (hclear next)
    | _ => cases hobeys

end Process

theorem Traffic.conclude_rest (t : Traffic) (me : Nat) (underway : Underway) (answer : FallbackAnswer)
    : (t.conclude me underway answer).world = { t.world with strands := t.world.strands.filter (·.1 ≠ me) } ∧
        (t.conclude me underway answer).calls = Function.update t.calls me none ∧
        (t.conclude me underway answer).ended = (underway, answer) :: t.ended := by
  unfold conclude
  dsimp only
  split
  . exact ⟨rfl, rfl, rfl⟩
  . exact ⟨rfl, rfl, rfl⟩
  . exact ⟨rfl, rfl, rfl⟩
  . exact ⟨rfl, rfl, rfl⟩
  . exact ⟨rfl, rfl, rfl⟩

theorem FallbackCall.Finishes.ends {call : FallbackCall} {h : Holding} {answer : FallbackAnswer}
    (hfinishes : call.Finishes h answer) (t : Traffic) (me : Nat) {underway : Underway} (hcall : underway.call = call)
    : (t.conclude me underway answer).owned = h.owns t.owned ∧
        (t.conclude me underway answer).opened = h.opens t.opened ∧
        (answer.isFailedSwitch = true → h.isQuiet = true) := by
  unfold Traffic.conclude
  dsimp only
  rw [hcall]
  cases call with
  | begin =>
    cases h with
    | begun id =>
      cases hfinishes
      exact ⟨rfl, rfl, nofun⟩
    | _ => cases hfinishes
  | operate id operation =>
    cases h with
    | within other closed =>
      cases answer with
      | done result => exact ⟨rfl, rfl, nofun⟩
      | _ => cases hfinishes
    | _ => cases hfinishes
  | commit id =>
    cases h with
    | released other =>
      cases answer with
      | committed result =>
        cases hfinishes
        exact ⟨rfl, rfl, nofun⟩
      | _ => cases hfinishes
    | _ => cases hfinishes
  | rollback id =>
    cases h with
    | released other =>
      cases answer with
      | closed =>
        cases hfinishes
        exact ⟨rfl, rfl, nofun⟩
      | _ => cases hfinishes
    | _ => cases hfinishes
  | drop id =>
    cases h with
    | dropped other =>
      cases answer with
      | closed =>
        cases hfinishes
        exact ⟨rfl, rfl, nofun⟩
      | _ => cases hfinishes
    | _ => cases hfinishes
  | switch target =>
    cases answer with
    | switched result =>
      rcases hfinishes with rfl | ⟨rfl, transition, rfl⟩
      . exact ⟨rfl, rfl, fun _ => rfl⟩
      . exact ⟨rfl, rfl, nofun⟩
    | _ => cases h <;> cases hfinishes
  | check =>
    cases answer with
    | checked result =>
      rcases hfinishes with rfl | ⟨rfl, transition, rfl⟩
      . exact ⟨rfl, rfl, fun _ => rfl⟩
      . exact ⟨rfl, rfl, nofun⟩
    | _ => cases h <;> cases hfinishes

namespace Ledger

variable {l : Ledger} {world : World FallbackAnswer} {calls : Nat → Option Underway} {me : Nat} {underway : Underway}
  {strand : Strand FallbackAnswer}

theorem Sound.poised (hs : l.Sound world calls) (hcall : calls me = some underway)
    (hstrand : world.strand? me = some strand)
    : ∃ h timers, l.Poised world me underway h strand ∧ strand.process.waits = true ∧
        strand.process.Obeys world.coordinated underway.call h timers ∧
        Armed world.coordinated underway.call strand.timers timers := by
  obtain ⟨h, strand', hrests⟩ := hs.rests me underway hcall
  cases hrests.found.symm.trans hstrand
  obtain ⟨timers, hobeys, harmed⟩ := hrests.obeys
  exact ⟨h, timers, ⟨hs.fits, hrests.serves, hrests.found, hrests.round, hrests.alone⟩, hrests.waits, hobeys, harmed⟩

theorem Sound.queued (hs : l.Sound world calls) (hstrand : world.strand? me = some strand) {alone : Bool}
    (hmem : (me, alone) ∈ world.known)
    : strand.wait = .gate ∧ ∃ next, strand.process = .step (.enterGate alone) next := by
  obtain ⟨_, strand', next, -, hfound, hwait, hprocess⟩ := hs.known me alone hmem
  cases hfound.symm.trans hstrand
  exact ⟨hwait, next, hprocess⟩

theorem Sound.absent (hs : l.Sound world calls) (hstrand : world.strand? me = some strand)
    (helse : strand.wait ≠ .gate ∨ ∀ alone next, strand.process ≠ .step (.enterGate alone) next)
    : ∀ entry ∈ world.known, entry.1 ≠ me := by
  rintro ⟨who, alone⟩ hmem rfl
  obtain ⟨hwait, next, hprocess⟩ := hs.queued hstrand hmem
  rcases helse with hwaits | hasks
  . exact hwaits hwait
  . exact hasks alone next hprocess

theorem Sound.asks (hs : l.Sound world calls) (hstrand : world.strand? me = some strand) {effect : Effect}
    {next : effect.Reply → Process FallbackAnswer} (hprocess : strand.process = .step effect next)
    : ∀ alone, (me, alone) ∈ world.known → strand.wait = .gate ∧ effect = .enterGate alone := by
  intro alone hmem
  obtain ⟨hwait, next', hprocess'⟩ := hs.queued hstrand hmem
  cases hprocess.symm.trans hprocess'
  exact ⟨hwait, rfl⟩

end Ledger

namespace Traffic

variable {t t' : Traffic} {l l' : Ledger} {world : World FallbackAnswer} {me : Nat} {underway underway' : Underway}
  {h h' : Holding} {strand : Strand FallbackAnswer} {process : Process FallbackAnswer} {hs : List Holding}

def ledger (t : Traffic) (insiders alones : Finset Nat) : Ledger :=
  { owned := t.owned, opened := t.opened, insiders, alones }

structure Sound (t : Traffic) : Prop where
  ledger : ∃ insiders alones, (t.ledger insiders alones).Sound t.world t.calls
  ended : ∀ entry ∈ t.ended, entry.2.isFailedSwitch = true → ¬ entry.1.altered

theorem resume_of_answer {timers : List (Timer FallbackAnswer)} {answer : FallbackAnswer}
    (hstrand : t.world.strand? me = some strand)
    (hsettle : process.settle t.world.now strand.timers = (.answer answer, timers))
    : t.resume me underway process = t.conclude me underway answer := by
  unfold resume
  rw [hstrand]
  dsimp only
  rw [hsettle]

theorem resume_of_waits {process' : Process FallbackAnswer} {timers : List (Timer FallbackAnswer)}
    (hstrand : t.world.strand? me = some strand)
    (hsettle : process.settle t.world.now strand.timers = (process', timers)) (hwaits : process'.waits = true)
    : t.resume me underway process = { t with
        world := t.world.modifyStrand me fun strand => { strand with process := process', timers, wait := .nothing }
        calls := Function.update t.calls me (some underway) } := by
  unfold resume
  rw [hstrand]
  dsimp only
  rw [hsettle]
  cases process' <;> first | rfl | cases hwaits

theorem sound_resume {insiders alones : Finset Nat} (hsound : (t.ledger insiders alones).Sound t.world t.calls)
    (hended : ∀ entry ∈ t.ended, entry.2.isFailedSwitch = true → ¬ entry.1.altered)
    (hcall : t.calls me = some underway) (hserves : (t.ledger insiders alones).Serves t.world me underway h)
    (hadvances : (t.ledger insiders alones).Advances t.world me h strand l' world underway' h')
    (hsame : underway'.call = underway.call) (hround : strand.round = none)
    (hobeys : process.Obeys t.world.coordinated underway.call h' hs)
    (harmed : Armed t.world.coordinated underway.call strand.timers hs)
    : ({ t with world }.resume me underway' process).Sound := by
  obtain ⟨hturns, hledger, hactive, hfits, hserves', ⟨queued, wait, hstrand⟩, howned, hopened, hknown⟩ := hadvances
  have hapart : ∀ who underway h', who ≠ me → t.calls who = some underway →
      (t.ledger insiders alones).Serves t.world who underway h' → ∀ id, h'.Has id → ¬ h.Has id :=
    fun who underway h' hne hcall' hserves' => hsound.apart hcall hserves hne hcall' hserves'
  have hturns' : t.world.Turns (fun who => (t.calls who).isSome) me h world :=
    ⟨hturns.coordinated, hturns.nextTransaction, hturns.transaction,
      fun who strand hne _ => hturns.strand who strand hne trivial, hturns.known⟩
  have hactive : world.active? = t.world.active? ∨ ∀ who ∈ alones, who = me :=
    hactive.imp_right fun halone who hwho =>
      hsound.fits.eq_of_mem_alones hwho (hserves.grants.mem_alones halone)
  -- the process goes on until it answers, which ends the call, or waits for the world
  obtain ⟨process', timers', hsettle, hend⟩ := Process.obeys_settle world.now hobeys harmed
  rcases hend with ⟨answer, rfl, hfinishes⟩ | ⟨hwaits, hs', hobeys', harmed'⟩
  . rw [resume_of_answer hstrand hsettle]
    rw [← hsame] at hfinishes
    obtain ⟨hworldEnd, hcallsEnd, hendedEnd⟩ := conclude_rest { t with world } me underway' answer
    obtain ⟨hownedEnd, hopenedEnd, hfailed⟩ := hfinishes.ends { t with world } me rfl
    have hspares := world.spares_filter me world.queue world.deferred
    constructor
    . refine ⟨l'.insiders, l'.alones, ?_⟩
      have hl : ledger (conclude { t with world } me underway' answer) l'.insiders l'.alones = l' := by
        unfold ledger
        rw [hownedEnd, hopenedEnd]
        show Ledger.mk (h'.owns t.owned) (h'.opens t.opened) _ _ = l'
        obtain ⟨_, _, _, _⟩ := l'
        cases howned
        cases hopened
        rfl
      rw [hl, hworldEnd, hcallsEnd]
      apply hsound.turn_last (hturns'.spares hspares hfits.isSome fun _ hne _ => hne) hledger (hfits.spares hspares) _ hapart
      . rw [hspares.known hfits.isSome]
        exact hknown
      . exact hactive
    . rw [hendedEnd]
      intro entry hmem
      rcases List.mem_cons.1 hmem with rfl | hmem
      . exact fun hfailure => hserves'.quiet (hfailed hfailure)
      . exact hended entry hmem
  . have hover := hobeys'.isOver hwaits
    rw [resume_of_waits hstrand hsettle hwaits]
    have hspares := world.spares_modifyStrand me fun strand =>
      { strand with process := process', timers := timers', wait := .nothing }
    refine ⟨⟨l'.insiders, l'.alones, ?_⟩, hended⟩
    have hl : t.ledger l'.insiders l'.alones = l' := by
      unfold ledger
      rw [← (howned.trans (Holding.owns_of_isOver hover _) : l'.owned = t.owned),
        ← (hopened.trans (Holding.opens_of_isOver hover _) : l'.opened = t.opened)]
    show Ledger.Sound (t.ledger l'.insiders l'.alones) _ _
    rw [hl]
    apply hsound.turn (hturns'.spares hspares hfits.isSome fun _ hne _ => hne) hledger (hfits.spares hspares) _ hapart
    . rintro _ ⟨⟩
      refine ⟨h', { strand with process := process', timers := timers', queued, wait := .nothing, alone := h'.isAlone }, ?_⟩
      refine ⟨⟨hserves'.transaction, hserves'.merging, hserves'.quiet, hserves'.grants.spares hfits hspares⟩, ?_, hround,
        rfl, hwaits, hs', ?_, ?_⟩
      . rw [World.strand?_modifyStrand, hstrand, Option.map_some, if_pos rfl]
      . rw [hspares.coordinated, hturns.coordinated, hsame]
        exact hobeys'
      . rw [hspares.coordinated, hturns.coordinated, hsame]
        exact harmed'
    . rintro _ id ⟨⟩ hid who other hne hother hid'
      rw [hsame] at hid
      exact hne (hsound.single who me other underway id hother hcall hid' hid)
    . intro alone hmem
      rw [hspares.known hfits.isSome] at hmem
      exact absurd rfl (hknown _ hmem)
    . exact hactive

theorem after_call (underway : Underway) (effect : Effect) (reply : effect.Reply)
    : (underway.after effect reply).call = underway.call := by
  cases effect with
  | begin origin => cases origin <;> rfl
  | _ => rfl

theorem Sound.act (hsound : t.Sound) {effect : Effect} {next : effect.Reply → Process FallbackAnswer}
    {reply : effect.Reply} (hcall : t.calls me = some underway) (hstrand : t.world.strand? me = some strand)
    (hprocess : strand.process = .step effect next) (hperform : t.world.perform me effect = (some reply, world))
    : ({ t with world }.resume me ((underway.sees t.world world).after effect reply) (next reply)).Sound := by
  obtain ⟨insiders, alones, hs⟩ := hsound.ledger
  obtain ⟨h, timers, hpoised, -, hobeys, harmed⟩ := hs.poised hcall hstrand
  rw [hprocess] at hobeys
  obtain ⟨-, hpermits, hnext⟩ := hobeys
  obtain ⟨h', l', hleads, hadvances⟩ := hpoised.advances (hs.asks hstrand hprocess) hpermits hperform
  exact sound_resume hs hsound.ended hcall hpoised.serves hadvances (after_call _ _ _) hpoised.round
    (hnext reply h' hleads) harmed

theorem sound_stay {insiders alones : Finset Nat} {timers : List Holding} {queued : Bool} {wait : Wait}
    (hs : (t.ledger insiders alones).Sound t.world t.calls)
    (hended : ∀ entry ∈ t.ended, entry.2.isFailedSwitch = true → ¬ entry.1.altered)
    (hcall : t.calls me = some underway) (hpoised : (t.ledger insiders alones).Poised t.world me underway h strand)
    (hwaits : strand.process.waits = true) (hobeys : strand.process.Obeys t.world.coordinated underway.call h timers)
    (harmed : Armed t.world.coordinated underway.call strand.timers timers)
    (hturns : t.world.Turns (fun who => (t.calls who).isSome) me h world)
    (hactive : world.active? = t.world.active?) (hfits : (t.ledger insiders alones).Fits world)
    (hserves : (t.ledger insiders alones).Serves world me (underway.sees t.world world) h)
    (hstrand : world.strand? me = some { strand with queued, wait })
    (hknown : ∀ alone, (me, alone) ∈ world.known →
      wait = .gate ∧ ∃ next, strand.process = .step (.enterGate alone) next)
    : ({ t with world, calls := Function.update t.calls me (some (underway.sees t.world world)) } : Traffic).Sound := by
  refine ⟨⟨insiders, alones, ?_⟩, hended⟩
  apply hs.turn hturns (.refl _ _ _ _) hfits (.inl hactive)
  . exact fun who underway h' hne hcall' hserves' => hs.apart hcall hpoised.serves hne hcall' hserves'
  . rintro _ ⟨⟩
    refine ⟨h, _, hserves, hstrand, hpoised.round, hpoised.alone, hwaits, timers, ?_⟩
    rw [hturns.coordinated]
    exact ⟨hobeys, harmed⟩
  . rintro _ id ⟨⟩ hid who other hne hother hid'
    exact hne (hs.single who me other underway id hother hcall hid' hid)
  . intro alone hmem
    obtain ⟨hwait, next, hprocess⟩ := hknown alone hmem
    exact ⟨_, _, next, Function.update_self .., hstrand, hwait, hprocess⟩

theorem Sound.wait (hsound : t.Sound) {effect : Effect} {next : effect.Reply → Process FallbackAnswer}
    (hcall : t.calls me = some underway) (hstrand : t.world.strand? me = some strand)
    (hprocess : strand.process = .step effect next) (hperform : t.world.perform me effect = (none, world))
    : ({ t with world, calls := Function.update t.calls me (some (underway.sees t.world world)) } : Traffic).Sound := by
  obtain ⟨insiders, alones, hs⟩ := hsound.ledger
  obtain ⟨h, timers, hpoised, hwaits, hobeys, harmed⟩ := hs.poised hcall hstrand
  have hpermits : h.Permits t.world.coordinated effect := by
    rw [hprocess] at hobeys
    exact hobeys.2.1
  obtain ⟨hturns, hactive, hfits, hserves, queued, wait, hstrand', hknown⟩ := hpoised.waits (hs.asks hstrand hprocess) hpermits hperform
  apply sound_stay hs hsound.ended hcall hpoised hwaits hobeys harmed _ hactive hfits hserves hstrand'
  . intro alone hmem
    obtain ⟨hwait, rfl⟩ := hknown alone hmem
    exact ⟨hwait, next, hprocess⟩
  . exact ⟨hturns.coordinated, hturns.nextTransaction, hturns.transaction,
      fun who strand hne _ => hturns.strand who strand hne trivial, hturns.known⟩

theorem Sound.member (hsound : t.Sound) {needed : Nat} {members : List (Process FallbackAnswer)}
    {next : Bool → Process FallbackAnswer} {member : Process FallbackAnswer} {effect : Effect} {who : Nat}
    {reply : Option effect.Reply} (hcall : t.calls me = some underway) (hstrand : t.world.strand? me = some strand)
    (hprocess : strand.process = .round needed members next) (hmember : member ∈ members)
    (heffect : member.Mentions effect) (hwho : t.calls who = none)
    (hperform : t.world.perform who effect = (reply, world))
    : ({ t with world, calls := Function.update t.calls me (some (underway.sees t.world world)) } : Traffic).Sound := by
  obtain ⟨insiders, alones, hs⟩ := hsound.ledger
  obtain ⟨h, timers, hpoised, hwaits, hobeys, harmed⟩ := hs.poised hcall hstrand
  have hround := hobeys
  rw [hprocess] at hround
  obtain ⟨-, hroams, hnodal, -⟩ := hround
  have hstep := t.world.nodal_perform (hnodal member hmember effect heffect) who
  rw [hperform] at hstep
  have hspares := hstep.spares
  have hne : ∀ other, (t.calls other).isSome → other ≠ who := by
    rintro other hother rfl
    rw [hwho] at hother
    cases hother
  obtain ⟨queued, hstrand'⟩ := hspares.strand me strand (hne me (Option.isSome_of_eq_some hcall)) hstrand hpoised.round
  apply sound_stay hs hsound.ended hcall hpoised hwaits hobeys harmed _ (hspares.active? hs.fits.isSome)
    (hs.fits.spares hspares) _ hstrand'
  . intro alone hmem
    rw [hspares.known hs.fits.isSome] at hmem
    obtain ⟨-, next', hprocess'⟩ := hs.queued hstrand hmem
    cases hprocess.symm.trans hprocess'
  . exact (World.Turns.refl t.world _ me h).spares hspares hs.fits.isSome fun other _ => hne other
  . apply hpoised.serves.sees rfl rfl _ (hpoised.serves.grants.spares hs.fits hspares)
    exact fun hquiet => ⟨hquiet, hpoised.serves.grants.face_eq hroams hquiet hstep⟩

theorem Sound.reach (hsound : t.Sound) {needed : Nat} {members : List (Process FallbackAnswer)}
    {next : Bool → Process FallbackAnswer} (hcall : t.calls me = some underway)
    (hstrand : t.world.strand? me = some strand) (hprocess : strand.process = .round needed members next)
    (reached : Bool)
    : (t.resume me underway (next reached)).Sound := by
  obtain ⟨insiders, alones, hs⟩ := hsound.ledger
  obtain ⟨h, timers, hpoised, hwaits, hobeys, harmed⟩ := hs.poised hcall hstrand
  have hover := hobeys.isOver hwaits
  rw [hprocess] at hobeys
  obtain ⟨-, -, -, hnext⟩ := hobeys
  have hknown : ∀ entry ∈ t.world.known, entry.1 ≠ me := by
    apply hs.absent hstrand (.inr _)
    intro alone next' hasks
    cases hprocess.symm.trans hasks
  have hadvances := hpoised.advances_of_spares (World.Nodal.refl me t.world).spares ⟨_, _, hpoised.found⟩ rfl hover
    hpoised.serves hknown
  exact sound_resume hs hsound.ended hcall hpoised.serves hadvances rfl hpoised.round (hnext reached) harmed

theorem armed_split {home : Handle} {call : FallbackCall} {inner outer : List (Timer FallbackAnswer)}
    {timer : Timer FallbackAnswer} (harmed : Armed home call (inner ++ timer :: outer) hs)
    : ∃ other ∈ hs, ∃ hs', (timer.late ()).Obeys home call other hs' ∧ Armed home call outer hs' := by
  induction inner generalizing hs with
  | nil =>
    cases hs with
    | nil => cases harmed
    | cons other hs => exact ⟨other, List.mem_cons_self, hs, harmed⟩
  | cons first inner ih =>
    cases hs with
    | nil => cases harmed
    | cons other hs =>
      obtain ⟨found, hmem, hrest⟩ := ih harmed.2
      exact ⟨found, List.mem_cons_of_mem _ hmem, hrest⟩

theorem Sound.late (hsound : t.Sound) {inner outer : List (Timer FallbackAnswer)} {timer : Timer FallbackAnswer}
    (hcall : t.calls me = some underway) (hstrand : t.world.strand? me = some strand)
    (htimers : strand.timers = inner ++ timer :: outer)
    : (t.expire me underway timer outer).Sound := by
  obtain ⟨insiders, alones, hs⟩ := hsound.ledger
  obtain ⟨h, timers, hpoised, hwaits, hobeys, harmed⟩ := hs.poised hcall hstrand
  have hover := hobeys.isOver hwaits
  rw [htimers] at harmed
  obtain ⟨other, hmem, timers', hlate, harmed'⟩ := armed_split harmed
  cases hobeys.timers_eq hwaits other hmem
  have hgives := hpoised.gives_up fun hwait => hs.absent hstrand (.inl hwait)
  have htimed : (t.ledger insiders alones).GivesUp t.world me { strand with timers := outer }
      (((t.world.dropRound me).giveUp me).modifyStrand me fun strand => { strand with timers := outer }) :=
    hgives.modify _ fun queued wait => ⟨queued, wait, rfl⟩
  unfold expire
  dsimp only
  generalize ((t.world.dropRound me).giveUp me).modifyStrand me (fun strand => { strand with timers := outer })
    = world at htimed ⊢
  have hgrants := htimed.grants hs.fits hpoised.serves.grants
  obtain ⟨hfits, hturns, hactive, hface, ⟨queued, wait, hfound⟩, hleft⟩ := htimed
  have hadvances : (t.ledger insiders alones).Advances t.world me h { strand with timers := outer }
      (t.ledger insiders alones) world (underway.sees t.world world) h := by
    refine ⟨hturns.imp fun _ h => h, .refl _ _ _ _, .inl hactive, hfits, ?_, ⟨queued, wait, ?_⟩,
      (Holding.owns_of_isOver hover _).symm, (Holding.opens_of_isOver hover _).symm, hleft⟩
    . exact hpoised.serves.sees rfl rfl (fun hquiet => ⟨hquiet, hface⟩) hgrants
    . rw [hfound, ← hpoised.alone]
  exact sound_resume hs hsound.ended hcall hpoised.serves hadvances rfl hpoised.round hlate harmed'

theorem Sound.abort (hsound : t.Sound) (hcall : t.calls me = some underway)
    : ({ t with world := t.world.abort me, calls := Function.update t.calls me none } : Traffic).Sound := by
  obtain ⟨insiders, alones, hs⟩ := hsound.ledger
  obtain ⟨_, strand, hrests⟩ := hs.rests me underway hcall
  obtain ⟨h, timers, hpoised, -⟩ := hs.poised hcall hrests.found
  have hgives := hpoised.gives_up fun hwait => hs.absent hrests.found (.inl hwait)
  have hgoes : ∀ {l' : Ledger} {world : World FallbackAnswer},
      t.world.Turns (fun who => (t.calls who).isSome) me .outside world →
      (t.ledger insiders alones).Turns t.world me .outside l' → l'.owned = t.owned → l'.opened = t.opened →
      l'.Fits world → world.active? = t.world.active? → (∀ entry ∈ world.known, entry.1 ≠ me) →
      ({ t with
        world := { world with
          strands := world.strands.filter (·.1 ≠ me)
          queue := world.queue.filter (· ≠ me)
          deferred := world.deferred.filter (· ≠ me) }
        calls := Function.update t.calls me none } : Traffic).Sound := by
    rintro ⟨_, _, insiders', alones'⟩ world hturns hledger rfl rfl hfits hactive hknown
    have hspares := world.spares_filter me (world.queue.filter (· ≠ me)) (world.deferred.filter (· ≠ me))
    refine ⟨⟨insiders', alones', ?_⟩, hsound.ended⟩
    apply hs.turn_last (hturns.spares hspares hfits.isSome fun _ hne _ => hne) hledger (hfits.spares hspares)
      (.inl ((hspares.active? hfits.isSome).trans hactive)) fun _ _ _ _ _ _ _ _ => id
    rw [hspares.known hfits.isSome]
    exact hknown
  have halone : ((((t.world.dropRound me).giveUp me).strand? me).map (·.alone)) = some h.isAlone := by
    obtain ⟨queued, wait, hstrand⟩ := hgives.strand
    rw [hstrand]
    exact congrArg some hpoised.alone
  have hturns : t.world.Turns (fun who => (t.calls who).isSome) me .outside ((t.world.dropRound me).giveUp me) :=
    hgives.turns.imp fun _ _ => trivial
  unfold World.abort
  dsimp only
  rw [halone]
  generalize (t.world.dropRound me).giveUp me = world at hgives hturns ⊢
  -- only a call that was alone in the gate has a place to give back
  cases hhas : h.isAlone with
  | false => exact hgoes hturns (.refl _ _ _ _) rfl rfl hgives.fits hgives.active hgives.known
  | true =>
    obtain ⟨gate, hwakes, hsub, hleft⟩ := hgives.fits.leave (hpoised.serves.grants.mem_alones hhas)
    have hgate := hturns.withGate hgives.fits.isSome fun entry hmem => hgives.turns.known entry (hsub entry hmem)
    apply hgoes (hgate.spares hwakes.spares hleft.isSome fun _ _ _ => trivial) (.erase_alones _ _ _ _) rfl rfl
      (hleft.spares hwakes.spares)
    . exact ((hwakes.spares.active? hleft.isSome).trans (World.active?_withGate _ _)).trans hgives.active
    . rw [hwakes.spares.known hleft.isSome, World.known_withGate hgives.fits.isSome]
      exact fun entry hmem => hgives.known entry (hsub entry hmem)

theorem calls_nextStrand {l : Ledger} (hs : l.Sound t.world t.calls) : t.calls t.world.nextStrand = none := by
  cases hcall : t.calls t.world.nextStrand with
  | none => rfl
  | some underway =>
    obtain ⟨h, strand, hrests⟩ := hs.rests _ underway hcall
    exact absurd ((World.strand?_nextStrand hs.fits.numbered).symm.trans hrests.found) nofun

theorem Sound.elsewhere (hsound : t.Sound) (hspares : t.world.Spares (fun me => (t.calls me).isSome) world)
    : ({ t with world } : Traffic).Sound := by
  obtain ⟨insiders, alones, hs⟩ := hsound.ledger
  have hfresh := calls_nextStrand hs
  refine ⟨⟨insiders, alones, ?_⟩, hsound.ended⟩
  have hworld := (World.Turns.refl t.world (fun who => (t.calls who).isSome) t.world.nextStrand .outside).spares hspares
    hs.fits.isSome fun _ _ hcalled => hcalled
  have hnone : Function.update t.calls t.world.nextStrand none = t.calls := by
    rw [← hfresh]
    exact Function.update_eq_self _ _
  have hknown : ∀ entry ∈ world.known, entry.1 ≠ t.world.nextStrand := by
    rw [hspares.known hs.fits.isSome]
    rintro ⟨who, alone⟩ hmem rfl
    obtain ⟨underway, -, -, hcall, -⟩ := hs.known _ alone hmem
    exact absurd (hfresh.symm.trans hcall) nofun
  rw [← hnone]
  exact hs.turn_last hworld (.refl _ _ _ _) (hs.fits.spares hspares) (.inl (hspares.active? hs.fits.isSome))
    (fun _ _ _ _ _ _ _ _ => id) hknown

theorem exists_begins {l : Ledger} (hs : l.Sound t.world t.calls) (me : Nat) {call : FallbackCall}
    (howned : ∀ id, call.transaction? = some id → id ∈ l.owned)
    : ∃ h, call.Begins h ∧ h.isAlone = false ∧ l.Serves t.world me { call } h := by
  have hwithin : ∀ id, call.transaction? = some id → ∃ closed,
      l.Serves t.world me { call } (.within id closed) := by
    intro id hid
    obtain ⟨-, transaction, htransaction, -, hsettled⟩ := hs.fits.owned id (howned id hid)
    refine ⟨decide (id ∉ l.opened), hid, rfl, nofun, howned id hid, decide_eq_true, ?_⟩
    intro found hfound hclosed
    cases htransaction.symm.trans hfound
    exact (hsettled (of_decide_eq_true hclosed)).1
  cases call with
  | begin => exact ⟨.outside, rfl, rfl, rfl, rfl, fun _ h => h, trivial⟩
  | switch target => exact ⟨.outside, rfl, rfl, rfl, rfl, fun _ h => h, trivial⟩
  | check => exact ⟨.probing, rfl, rfl, rfl, rfl, nofun, trivial⟩
  | operate id operation =>
    obtain ⟨closed, hserves⟩ := hwithin id rfl
    exact ⟨_, ⟨closed, rfl⟩, rfl, hserves⟩
  | commit id =>
    obtain ⟨closed, hserves⟩ := hwithin id rfl
    exact ⟨_, ⟨closed, rfl⟩, rfl, hserves⟩
  | rollback id =>
    obtain ⟨closed, hserves⟩ := hwithin id rfl
    exact ⟨_, ⟨closed, rfl⟩, rfl, hserves⟩
  | drop id =>
    obtain ⟨closed, hserves⟩ := hwithin id rfl
    exact ⟨_, ⟨closed, rfl⟩, rfl, hserves⟩

theorem Sound.start (hsound : t.Sound) {call : FallbackCall} (hadmits : t.Admits call) : (t.start call).Sound := by
  obtain ⟨insiders, alones, hs⟩ := hsound.ledger
  have hfresh := calls_nextStrand hs
  obtain ⟨h, hbegins, halone, hserves⟩ := exists_begins hs t.world.nextStrand fun id hid => (hadmits id hid).1
  have hnodal : t.world.Nodal t.world.nextStrand (t.world.spawn { process := call.script.toProcess }).2 :=
    World.nodal_spawn _ _
  have hspares := hnodal.spares
  have hfound : (t.world.spawn { process := call.script.toProcess }).2.strand? t.world.nextStrand
      = some { process := call.script.toProcess, queued := true } :=
    World.strand?_spawn hs.fits.numbered _
  refine ⟨⟨insiders, alones, ?_⟩, hsound.ended⟩
  show (t.ledger insiders alones).Sound (t.world.spawn { process := call.script.toProcess }).2
    (Function.update t.calls t.world.nextStrand (some { call }))
  apply hs.turn ((World.Turns.refl t.world _ t.world.nextStrand .outside).spares hspares hs.fits.isSome
    fun _ hne _ => hne) (.refl _ _ _ _) (hs.fits.spares hspares) (.inl (hspares.active? hs.fits.isSome))
    (fun _ _ _ _ _ _ _ _ => id)
  . rintro _ ⟨⟩
    refine ⟨h, _, ⟨hserves.transaction, hserves.merging, hserves.quiet, hserves.grants.spares hs.fits hspares⟩, hfound,
      rfl, halone.symm, ?_, [], call.obeys hbegins, trivial⟩
    cases call <;> rfl
  . rintro _ id ⟨⟩ hid who underway hne hcall
    exact (hadmits id hid).2 who underway hcall
  . intro alone hmem
    rw [hspares.known hs.fits.isSome] at hmem
    obtain ⟨underway, -, -, hcall, -⟩ := hs.known _ alone hmem
    exact absurd (hfresh.symm.trans hcall) nofun

theorem Fresh.sound (hfresh : Fresh t) : t.Sound := by
  obtain ⟨config, volume, coordinator, hseparate, hopen, hcoordinator⟩ := hfresh.coordinator
  obtain ⟨-, -, hgate, hdisk, hsaved⟩ := Coordinator.open_cases hopen
  have hnone : ∀ me, t.calls me = none := by
    rw [hfresh.calls]
    exact fun _ => rfl
  constructor
  . refine ⟨∅, ∅, ?_, ?_, ?_, ?_⟩
    . unfold ledger
      rw [hfresh.owned, hfresh.opened]
      refine ⟨⟨coordinator, hcoordinator, hgate ▸ Gate.fits_empty, hdisk ▸ hseparate, hdisk ▸ hsaved⟩, hfresh.node,
        hfresh.numbered, Finset.Subset.refl _, ?_⟩
      intro id hid
      cases hid
    . intro me underway hcall
      exact absurd ((hnone me).symm.trans hcall) nofun
    . intro me _ underway _ _ hcall
      exact absurd ((hnone me).symm.trans hcall) nofun
    . rw [World.known_of_coordinator hcoordinator, hgate]
      exact fun _ _ hmem => absurd hmem List.not_mem_nil
  . rw [hfresh.ended]
    exact fun _ hmem => absurd hmem List.not_mem_nil

theorem Sound.step (hsound : t.Sound) (hstep : Step t t') : t'.Sound := by
  cases hstep with
  | start hadmits => exact hsound.start hadmits
  | act hcall hstrand hprocess hperform => exact hsound.act hcall hstrand hprocess hperform
  | wait hcall hstrand hprocess hperform => exact hsound.wait hcall hstrand hprocess hperform
  | member hcall hstrand hprocess hmember heffect hwho hperform =>
    exact hsound.member hcall hstrand hprocess hmember heffect hwho hperform
  | reach hcall hstrand hprocess reached => exact hsound.reach hcall hstrand hprocess reached
  | late hcall hstrand _ htimers => exact hsound.late hcall hstrand htimers
  | abort hcall _ => exact hsound.abort hcall
  | elsewhere hspares => exact hsound.elsewhere hspares

theorem sound_of_reachable (hreachable : t.Reachable) : t.Sound := by
  obtain ⟨t₀, hfresh, hsteps⟩ := hreachable
  induction hsteps with
  | refl => exact hfresh.sound
  | tail _ hstep ih => exact ih.step hstep

theorem active?_resume (t : Traffic) (me : Nat) (underway : Underway) (process : Process FallbackAnswer)
    : (t.resume me underway process).world.active? = t.world.active? := by
  unfold resume
  split
  . rfl
  . split
    . next answer _ _ =>
      rw [(conclude_rest t me underway answer).1]
      rfl
    . rfl

theorem Sound.active?_step (hsound : t.Sound) (hstep : Step t t')
    : t'.world.active? = t.world.active? ∨ ∃ me underway strand, t.calls me = some underway ∧
        t.world.strand? me = some strand ∧ strand.alone = true := by
  cases hstep with
  | start hadmits => exact .inl rfl
  | @act me underway strand effect next reply world hcall hstrand hprocess hperform =>
    obtain ⟨insiders, alones, hs⟩ := hsound.ledger
    obtain ⟨h, timers, hpoised, -, hobeys, -⟩ := hs.poised hcall hstrand
    rw [hprocess] at hobeys
    obtain ⟨h', l', -, hadvances⟩ := hpoised.advances (hs.asks hstrand hprocess) hobeys.2.1 hperform
    rw [active?_resume]
    exact hadvances.active.imp_right fun halone =>
      ⟨me, underway, strand, hcall, hstrand, hpoised.alone.trans halone⟩
  | @wait me underway strand effect next world hcall hstrand hprocess hperform =>
    obtain ⟨insiders, alones, hs⟩ := hsound.ledger
    obtain ⟨h, timers, hpoised, -, hobeys, -⟩ := hs.poised hcall hstrand
    rw [hprocess] at hobeys
    exact .inl (hpoised.waits (hs.asks hstrand hprocess) hobeys.2.1 hperform).active
  | @member me underway strand needed members next member effect who reply world hcall hstrand hprocess hmember heffect
      hwho hperform =>
    obtain ⟨insiders, alones, hs⟩ := hsound.ledger
    obtain ⟨h, timers, hpoised, -, hobeys, -⟩ := hs.poised hcall hstrand
    rw [hprocess] at hobeys
    have hnodal := t.world.nodal_perform (hobeys.2.2.1 member hmember effect heffect) who
    rw [hperform] at hnodal
    exact .inl (hnodal.spares.active? hs.fits.isSome)
  | reach hcall hstrand hprocess reached => exact .inl (active?_resume ..)
  | late hcall hstrand hwaits htimers =>
    left
    unfold expire
    exact (active?_resume ..).trans ((World.active?_giveUp _ _).trans (World.active?_dropRound _ _))
  | abort hcall habortable => exact .inl (World.active?_abort _ _)
  | elsewhere hspares =>
    obtain ⟨insiders, alones, hs⟩ := hsound.ledger
    exact .inl (hspares.active? hs.fits.isSome)

theorem Sound.shared (hsound : t.Sound) {id : TransactionId} (hopened : id ∈ t.opened)
    (hcall : t.calls me = some underway) (hstrand : t.world.strand? me = some strand)
    : strand.alone = false ∧ underway.merging = [] := by
  obtain ⟨insiders, alones, hs⟩ := hsound.ledger
  obtain ⟨h, timers, hpoised, -⟩ := hs.poised hcall hstrand
  have halone : h.isAlone = false := by
    rw [← Bool.not_eq_true]
    intro halone
    have hempty := hs.fits.opened_eq_empty (hpoised.serves.grants.mem_alones halone)
    change t.opened = ∅ at hempty
    rw [hempty] at hopened
    cases hopened
  refine ⟨hpoised.alone.trans halone, hpoised.serves.merging.trans ?_⟩
  cases h <;> first | rfl | cases halone

/-- From its beginning to the end of its commit, rollback or drop, the store that a transaction is committed to is the
active one: no call merges stores or has the gate alone, and no step changes the active store. A commit under way is
one of such a transaction, or its view is closed and nothing is left to commit. -/
theorem transactions_exclude_switches (hreachable : t.Reachable)
    : (∀ id ∈ t.opened,
        (∃ transaction, t.world.transaction? id = some transaction ∧
          t.world.storeOf transaction.base = t.world.active?) ∧
        (∀ me underway strand, t.calls me = some underway → t.world.strand? me = some strand →
          strand.alone = false ∧ underway.merging = []) ∧
        ∀ t', Step t t' → t'.world.active? = t.world.active?) ∧
      ∀ me underway id, t.calls me = some underway → underway.call = .commit id →
        id ∈ t.opened ∨ ∃ transaction, t.world.transaction? id = some transaction ∧ transaction.view.closed = true := by
  have hsound := sound_of_reachable hreachable
  obtain ⟨insiders, alones, hs⟩ := hsound.ledger
  constructor
  . intro id hopened
    obtain ⟨-, transaction, htransaction, hstore, -⟩ := hs.fits.owned id (hs.fits.subset hopened)
    refine ⟨⟨transaction, htransaction, hstore hopened⟩, fun me underway strand => hsound.shared hopened, ?_⟩
    intro t' hstep
    rcases hsound.active?_step hstep with hactive | ⟨me, underway, strand, hcall, hstrand, halone⟩
    . exact hactive
    . exact absurd ((hsound.shared hopened hcall hstrand).1.symm.trans halone) nofun
  . intro me underway id hcall hcommit
    obtain ⟨h, strand, hrests⟩ := hs.rests me underway hcall
    have hid := hrests.serves.transaction
    rw [hcommit] at hid
    obtain ⟨timers, hobeys, -⟩ := hrests.obeys
    have hover := hobeys.isOver hrests.waits
    have howned : id ∈ t.owned := by
      cases h with
      | within other closed =>
        cases hid
        exact hrests.serves.grants.1
      | released => cases hover
      | dropped => cases hover
      | _ => cases hid
    obtain ⟨-, transaction, htransaction, -, hsettled⟩ := hs.fits.owned id howned
    by_cases hopened : id ∈ t.opened
    . exact .inl hopened
    . exact .inr ⟨transaction, htransaction, (hsettled hopened).1⟩

def idle : Traffic where
  world := {
    members := []
    network := .unconnected
    nodes := [(0, { id := "", peers := [], config := {}, log := default })]
    coordinator := some {
      config := {}
      unavailableStrategy := .overwrite
      rejoinStrategy := .overwrite
      state := {}
      disk := {} } }

theorem fresh_idle : Fresh idle where
  coordinator := ⟨{}, {}, _, Volume.separate_empty, rfl, rfl⟩
  node := rfl
  numbered := fun _ hmem => absurd hmem List.not_mem_nil
  transactions := nofun
  calls := rfl
  owned := rfl
  opened := rfl
  ended := rfl

theorem begun_excludes_switches
    : ∃ t : Traffic, t.Reachable ∧ 0 ∈ t.opened ∧ ∀ t', Step t t' → t'.world.active? = t.world.active? := by
  have hstart : Step idle (idle.start .begin) := .start nofun
  have henter := @Step.act (idle.start .begin) 1 _ _ _ _ _ _ rfl rfl rfl rfl
  have hbegun : ∃ t : Traffic, t.Reachable ∧ 0 ∈ t.opened :=
    ⟨_, ⟨idle, fresh_idle, ((Relation.ReflTransGen.single hstart).tail henter).tail
      (@Step.act _ 1 _ _ _ _ _ _ rfl rfl rfl rfl)⟩, Finset.mem_insert_self _ _⟩
  obtain ⟨t, hreachable, hopened⟩ := hbegun
  exact ⟨t, hreachable, hopened, ((transactions_exclude_switches hreachable).1 0 hopened).2.2⟩

/-- A switch that fails has changed nothing that clients see: not the active store, not which one is active after a
restart, and nothing in it. Whatever happens, the active store is the one that would be active after a restart. -/
theorem failed_switches_change_nothing (hreachable : t.Reachable)
    : (∀ entry ∈ t.ended, entry.2.isFailedSwitch = true → ¬ entry.1.altered) ∧
      ∃ coordinator, t.world.coordinator = some coordinator ∧
        FallbackState.saved? coordinator.disk = some coordinator.state.active := by
  have hsound := sound_of_reachable hreachable
  obtain ⟨insiders, alones, hs⟩ := hsound.ledger
  obtain ⟨coordinator, hcoordinator, -, -, hsaved⟩ := hs.fits.coordinator
  exact ⟨hsound.ended, coordinator, hcoordinator, hsaved⟩

theorem late_switch_changes_nothing
    : ∃ t : Traffic, t.Reachable ∧ ∃ entry ∈ t.ended, entry.2.isFailedSwitch = true ∧ ¬ entry.1.altered := by
  have hstart : Step idle (idle.start (.switch .standalone)) := .start nofun
  have hask := @Step.act (idle.start (.switch .standalone)) 1 _ _ _ _ _ _ rfl rfl rfl rfl
  have hlate : ∃ t : Traffic, t.Reachable ∧ ∃ entry ∈ t.ended, entry.2.isFailedSwitch = true :=
    ⟨_, ⟨idle, fresh_idle, ((Relation.ReflTransGen.single hstart).tail hask).tail
      (@Step.late _ 1 _ _ [] _ _ rfl rfl rfl rfl)⟩, _, List.mem_cons_self, rfl⟩
  obtain ⟨t, hreachable, entry, hmem, hfailed⟩ := hlate
  exact ⟨t, hreachable, entry, hmem, hfailed, (failed_switches_change_nothing hreachable).1 entry hmem hfailed⟩

end Traffic

end ReplicatedStore
