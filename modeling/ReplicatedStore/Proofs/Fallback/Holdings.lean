import ReplicatedStore.Proofs.Fallback.Traffic
import ReplicatedStore.Proofs.Runs.Confined

/-!
What a call has of the coordinator at each of its steps, and what it may do then. Scripts that work on nodes
alone leave the call what it has.
-/

namespace ReplicatedStore

def Origin.settles : Origin → Bool
  | .standalone | .member _ true => true
  | .member _ false | .active => false

/-- What a call has of a coordinator. -/
inductive Holding where
  | probing
  | outside
  | entered
  | begun (transaction : TransactionId)
  | within (transaction : TransactionId) (closed : Bool)
  | released (transaction : TransactionId)
  | dropped (transaction : TransactionId)
  | alone (active : ActiveStore) (merging : List (TransactionId × Origin))
  | switched (merging : List (TransactionId × Origin))
  | finished

namespace Holding

def isAlone : Holding → Bool
  | .alone .. | .switched _ => true
  | _ => false

def merging : Holding → List (TransactionId × Origin)
  | .alone _ merging | .switched merging => merging
  | _ => []

def transaction? : Holding → Option TransactionId
  | .within id _ | .released id | .dropped id => some id
  | _ => none

def Has : Holding → TransactionId → Prop
  | .within other _, id => id = other
  | .alone _ merging, id | .switched merging, id => id ∈ merging.map Prod.fst
  | _, _ => False

def Roams : Holding → Prop
  | .probing | .within .. | .alone .standalone _ => True
  | _ => False

def isQuiet : Holding → Bool
  | .outside | .alone .. => true
  | _ => false

def isOver : Holding → Bool
  | .begun _ | .released _ | .dropped _ | .finished => true
  | _ => false

def Shows : Holding → TransactionId → TransactionView → Prop
  | .within _ closed, _, view => closed = true → view.closed = true
  | .alone .standalone merging, id, view => (id, .standalone) ∈ merging → view.writes.isEmpty = true
  | _, _, _ => True

def Settles (h : Holding) (id : TransactionId) : Prop :=
  ∃ origin, (id, origin) ∈ h.merging ∧ origin.settles = true

def begins (id : TransactionId) (origin : Origin) : Holding → Holding
  | .entered => .begun id
  | .alone active merging => .alone active ((id, origin) :: merging)
  | h => h

def closes (closed : Bool) : Holding → Holding
  | .within id _ => .within id closed
  | h => h

def releases : Holding → Holding
  | .within id _ => .released id
  | h => h

def drops (id : TransactionId) : Holding → Holding
  | .within other _ => .dropped other
  | .alone active merging => .alone active (merging.filter (·.1 ≠ id))
  | .switched merging => .switched (merging.filter (·.1 ≠ id))
  | h => h

def leaves : Holding → Holding
  | .alone .. => .outside
  | .switched _ => .finished
  | h => h

def activates : Holding → Holding
  | .alone _ merging => .switched merging
  | h => h

def Permits (home : Handle) (h : Holding) : Effect → Prop
  | .coordinator => h = .probing ∨ h = .outside ∨ h.isAlone = true
  | .coordinated => h = .probing ∨ h.isAlone = true
  | .observe _ => h = .probing
  | .enterGate _ => h = .outside
  | .begin .active => h = .entered
  | .begin (.member node _) => node = home ∧ ∃ active merging, h = .alone active merging
  | .begin .standalone => ∃ active merging, h = .alone active merging
  | .view id | .planCommit id => h.Has id
  | .setView id view => h.Has id ∧ h.Shows id view
  | .release id => h.Has id ∧ ∀ closed, h = .within id closed → closed = true
  | .drop id => h.Has id
  | .leaveGate only => only = true ∧ h.isAlone = true ∧ h.merging = []
  | .activate .. => ∃ active merging, h = .alone active merging
  | _ => h.Roams

def Leads (home : Handle) (h : Holding) : (effect : Effect) → effect.Reply → Holding → Prop
  | .coordinator, coordinator, h' => h' = h ∧
    ∀ active merging, h = .alone active merging → coordinator.state.active = active
  | .coordinated, node, h' => h' = h ∧ node = home
  | .observe _, _, h' => h' = .outside
  | .enterGate only, _, h' => if only then ∃ active, h' = .alone active [] else h' = .entered
  | .begin origin, id, h' => h' = h.begins id origin ∧ id ∉ h.merging.map Prod.fst
  | .view id, view, h' => h' = h ∧ h.Shows id view
  | .setView _ view, _, h' => h' = h.closes view.closed
  | .planCommit id, plan, h' => h' = h.closes true ∧ (h.Settles id → ∃ result, plan = .settled result)
  | .release _, _, h' => h' = h.releases
  | .drop id, _, h' => h' = h.drops id
  | .leaveGate _, _, h' => h' = h.leaves
  | .activate .., .ok _, h' => h' = h.activates
  | _, _, h' => h' = h

theorem Permits.isOver {home : Handle} {h : Holding} {effect : Effect} (hpermits : h.Permits home effect)
    : h.isOver = false := by
  cases h with
  | begun | released | dropped | finished =>
    exfalso
    cases effect with
    | begin origin => cases origin <;> simp [Permits] at hpermits
    | coordinator | coordinated | leaveGate => simp [Permits, isAlone] at hpermits
    | view | setView | planCommit | release | drop => simp [Permits, Has] at hpermits
    | observe | enterGate | activate => simp [Permits] at hpermits
    | _ => exact hpermits
  | _ => rfl

end Holding

def FallbackCall.Finishes : FallbackCall → Holding → FallbackAnswer → Prop
  | .begin, .begun id, answer => answer = .begun id
  | .operate .., .within .., .done _ => True
  | .commit id, .released other, .committed _ | .rollback id, .released other, .closed
  | .drop id, .dropped other, .closed => other = id
  | .switch _, h, .switched result => h = .outside ∨ h = .finished ∧ ∃ transition, result = .ok transition
  | .check, h, .checked result => h = .outside ∨ h = .finished ∧ ∃ transition, result = .ok transition
  | _, _, _ => False

def FallbackCall.Begins : FallbackCall → Holding → Prop
  | .begin, h | .switch _, h => h = .outside
  | .check, h => h = .probing
  | .operate id _, h | .commit id, h | .rollback id, h | .drop id, h => ∃ closed, h = .within id closed

def Process.Obeys (home : Handle) (call : FallbackCall) :
    Process FallbackAnswer → Holding → List Holding → Prop
  | .step effect next, h, timers => (∀ other ∈ timers, other = h) ∧ h.Permits home effect ∧
    ∀ reply h', h.Leads home effect reply h' → (next reply).Obeys home call h' timers
  | .round _ members next, h, timers => (∀ other ∈ timers, other = h) ∧ h.Roams ∧
    (∀ member ∈ members, ∀ effect, member.Mentions effect → effect.isNodal = true) ∧
    ∀ reached, (next reached).Obeys home call h timers
  | .setTimer _ late next, h, timers =>
    (late ()).Obeys home call h timers ∧ (next ()).Obeys home call h (h :: timers)
  | .clearTimer next, h, timers =>
    ∃ other rest, timers = other :: rest ∧ (next ()).Obeys home call h rest
  | .answer result, h, _ => call.Finishes h result
  | _, _, _ => False

namespace Script

variable {α β : Type} {home : Handle} {call : FallbackCall} {h h' : Holding} {timers : List Holding}
  {script : Script FallbackAnswer α} {effect : Effect} {id : TransactionId} {Q : α → Holding → Prop}
  {R : β → Holding → Prop}

def Guides (home : Handle) (call : FallbackCall) (h : Holding) (timers : List Holding)
    (script : Script FallbackAnswer α) (Q : α → Holding → Prop) : Prop :=
  ∀ next, (∀ a h', Q a h' → (next a).Obeys home call h' timers) →
    (script next).Obeys home call h timers

theorem guides_pure {a : α} (hQ : Q a h) : Guides home call h timers (pure a) Q :=
  fun _ hnext => hnext a h hQ

theorem Guides.bind {Q : α → Holding → Prop} {f : α → Script FallbackAnswer β}
    (hs : Guides home call h timers script Q) (hf : ∀ a h', Q a h' → Guides home call h' timers (f a) R)
    : Guides home call h timers (script >>= f) R :=
  fun _ hnext => hs _ fun a h' ha => hf a h' ha _ hnext

theorem Guides.imp {Q Q' : α → Holding → Prop} (hs : Guides home call h timers script Q)
    (hQ : ∀ a h', Q a h' → Q' a h')
    : Guides home call h timers script Q' :=
  fun _ hnext => hs _ fun a h' ha => hnext a h' (hQ a h' ha)

theorem guides_perform (htimers : ∀ other ∈ timers, other = h) (hpermits : h.Permits home effect)
    : Guides home call h timers (perform effect) (h.Leads home effect) :=
  fun _ hnext => ⟨htimers, hpermits, hnext⟩

theorem Guides.within {millis : Nat} {Q : Option α → Holding → Prop}
    (hs : Guides home call h (h :: timers) script fun a h' => Q (some a) h') (hlate : Q none h)
    : Guides home call h timers (within millis script) Q :=
  fun _ hnext => ⟨hnext none h hlate, hs _ fun a h' ha => ⟨h, timers, rfl, hnext (some a) h' ha⟩⟩

theorem Confined.mentions {p : Effect → Prop} (hs : Confined p script) {next : α → Process FallbackAnswer}
    (hnext : ∀ a effect, (next a).Mentions effect → p effect) (heffect : (script next).Mentions effect)
    : p effect := by
  induction hs generalizing effect with
  | pure => exact hnext _ _ heffect
  | bind _ _ ihs ihf => exact ihs (fun a _ h => ihf a hnext h) heffect
  | perform hp =>
    cases heffect with
    | step => exact hp
    | next reply h => exact hnext reply _ h
  | within _ ih =>
    cases heffect with
    | late h => exact hnext none _ h
    | setTimer h =>
      refine ih ?_ h
      intro a effect h
      cases h with
      | clearTimer h => exact hnext (some a) effect h
  | round _ ih =>
    cases heffect with
    | member hprocess h =>
      obtain ⟨member, hmember, rfl⟩ := List.mem_map.1 hprocess
      refine ih member hmember ?_ h
      intro acked effect h
      cases h
    | reach reached h => exact hnext reached _ h

def Stays (home : Handle) (call : FallbackCall) (h : Holding) (script : Script FallbackAnswer α) : Prop :=
  ∀ timers, (∀ other ∈ timers, other = h) → Guides home call h timers script fun _ h' => h' = h

theorem stays_pure {a : α} : Stays home call h (pure a) :=
  fun _ _ => guides_pure rfl

theorem Stays.bind {f : α → Script FallbackAnswer β} (hs : Stays home call h script)
    (hf : ∀ a, Stays home call h (f a))
    : Stays home call h (script >>= f) := by
  intro timers htimers
  apply (hs timers htimers).bind
  rintro a _ rfl
  exact hf a timers htimers

theorem Stays.within {millis : Nat} (hs : Stays home call h script) : Stays home call h (within millis script) := by
  intro timers htimers
  apply Guides.within
  . apply hs
    exact List.forall_mem_cons.2 ⟨rfl, htimers⟩
  . rfl

theorem leads_of_isNodal {reply : effect.Reply} (heffect : effect.isNodal = true)
    (hleads : h.Leads home effect reply h')
    : h' = h := by
  cases effect <;> first | exact hleads | cases heffect

theorem permits_of_isNodal (heffect : effect.isNodal = true) (hroams : h.Roams) : h.Permits home effect := by
  cases effect <;> first | exact hroams | cases heffect

theorem Confined.stays (hs : Nodal script) (hroams : h.Roams)
    : Stays home call h script := by
  induction hs with
  | pure => exact stays_pure
  | bind _ _ ihs ihf => exact ihs.bind ihf
  | perform heffect =>
    intro timers htimers
    apply (guides_perform htimers (permits_of_isNodal heffect hroams)).imp
    intro reply h' hleads
    exact leads_of_isNodal heffect hleads
  | within _ ih => exact ih.within
  | round hmembers =>
    intro timers htimers next hnext
    refine ⟨htimers, hroams, ?_, fun reached => hnext reached h rfl⟩
    intro process hprocess effect heffect
    obtain ⟨member, hmember, rfl⟩ := List.mem_map.1 hprocess
    refine (hmembers member hmember).mentions ?_ heffect
    intro acked other hother
    cases hother

end Script

end ReplicatedStore
