import ReplicatedStore.Cluster.World

/-!
Runs the activities of a cluster in a fixed order: the main strand before the others, the others in the
order in which they could go on, those that paused after all of them, and the virtual clock moves when
nobody can go on.
-/

namespace ReplicatedStore

namespace World

variable {ρ : Type}

def advance (me : Nat) : Process ρ → World ρ → Process ρ × World ρ
  | .step effect next, world =>
    match world.perform me effect with
    | (none, world) => (.step effect next, world)
    | (some reply, world) => advance me (next reply) (world.setWait me .nothing)
  | .join job next, world =>
    match world.jobs.lookup job with
    | some (some result) => advance me (next result) (world.setWait me .nothing)
    | _ => (.join job next, world.setWait me (.job job))
  | .setTimer millis late next, world =>
    advance me (next ()) <| world.modifyStrand me fun strand =>
      { strand with timers := { deadline := world.now + millis, late } :: strand.timers }
  | .clearTimer next, world =>
    advance me (next ()) <| world.modifyStrand me fun strand =>
      { strand with timers := strand.timers.drop 1 }
  | .round needed members next, world => (.round needed members next, world)
  | .stop, world => (.stop, world)
  | .acknowledge acked, world => (.acknowledge acked, world)
  | .answer result, world => (.answer result, world)

def startTimers (world : World ρ) (me : Nat) : World ρ :=
  match world.strand? me with
  | none => world
  | some strand =>
    let (order, timers) := strand.timers.foldl (fun (order, timers) timer =>
      match timer.order with
      | some _ => (order, timers ++ [timer])
      | none => (order + 1, timers ++ [{ timer with order := some order }])) (world.nextOrder, [])
    { world.modifyStrand me fun strand => { strand with timers } with nextOrder := order }

def expired? (now : Nat) : List (Timer ρ) → Option (Timer ρ × List (Timer ρ))
  | [] => none
  | timer :: earlier => if timer.deadline ≤ now then some (timer, earlier) else expired? now earlier

def startRound (world : World ρ) (me needed : Nat) (members : List (Process ρ))
    (next : Bool → Process ρ) : World ρ :=
  let first := world.nextStrand
  let ids := (List.range members.length).map (first + ·)
  let strands := (ids.zip members).map fun (id, process) =>
    (id, ({ process, queued := true, owner := some me } : Strand ρ))
  { world with strands := world.strands ++ strands, nextStrand := first + members.length }.modifyStrand me
    fun strand => { strand with round := some { needed, members := ids, ready := ids, next } }

def finish (world : World ρ) (me : Nat) (result : Option ρ) : World ρ :=
  match world.strand? me with
  | none => world
  | some strand =>
    let world := { world with strands := world.strands.filter (·.1 ≠ me) }
    if me = main then { world with answer := result }
    else
      let world := match strand.job with
        | some job =>
          let world := { world with jobs := (job, result) :: world.jobs.filter (·.1 ≠ job) }
          world.wakeAll (world.waiting (· == .job job))
        | none => world
      match strand.again with
      | none => world
      | some again => { world with
          strands := world.strands ++
            [(me, { process := again (), again := strand.again, service := strand.service })] }

def finishMember (world : World ρ) (me owner : Nat) (acked : Bool) : World ρ :=
  { world with strands := world.strands.filter (·.1 ≠ me) }.modifyStrand owner fun strand =>
    { strand with round := strand.round.map fun (round : Round ρ) =>
      { round with
        acked := if acked then round.acked + 1 else round.acked
        members := round.members.filter (· ≠ me) } }

mutual

def poll : Nat → Nat → World ρ → World ρ
  | 0, _, world => world
  | fuel + 1, me, world =>
    match world.strand? me with
    | none => world
    | some strand =>
      let (process, world) := advance me strand.process world
      let world := world.modifyStrand me fun strand => { strand with process }
      match process with
      | .acknowledge acked =>
        match strand.owner with
        | some owner => world.finishMember me owner acked
        | none => world.finish me none
      | .stop =>
        match strand.owner with
        | some owner => world.finishMember me owner false
        | none => world.restart fuel me none
      | .answer result => world.finish me (some result)
      | .round needed members next =>
        let world :=
          if ((world.strand? me).bind (·.round)).isSome then world
          else world.startRound me needed members next
        let size := (((world.strand? me).bind (·.round)).map (·.members.length)).getD 0
        pollRound fuel me size world
      | _ => world.block fuel me

def restart : Nat → Nat → Option ρ → World ρ → World ρ
  | 0, _, _, world => world
  | fuel + 1, me, result, world =>
    let world := world.finish me result
    if (world.strand? me).isSome then poll fuel me world else world

def block : Nat → Nat → World ρ → World ρ
  | 0, _, world => world
  | fuel + 1, me, world =>
    let world := world.startTimers me
    match (world.strand? me).bind fun strand => expired? world.now strand.timers with
    | none => world
    | some (timer, earlier) =>
      let world := (world.dropRound me).giveUp me
      poll fuel me <| world.modifyStrand me fun strand =>
        { strand with process := timer.late (), timers := earlier }

/-- Lets those members of a round go on that can. Once as many as `left` have come to wait, the others
outside the round get their turn first. -/
def pollRound : Nat → Nat → Nat → World ρ → World ρ
  | 0, _, _, world => world
  | fuel + 1, me, left, world =>
    match (world.strand? me).bind (·.round) with
    | none => world
    | some round =>
      match round.ready with
      | [] =>
        if round.members.isEmpty then closeRound fuel me false world
        else world.block fuel me
      | member :: ready =>
        let world := world.modifyStrand me fun strand =>
          { strand with round := some { round with ready } }
        let world := poll fuel member (world.modifyStrand member fun s => { s with queued := false })
        if (world.strand? member).isSome then
          if left ≤ 1 then (world.wakeRoot me).block fuel me
          else pollRound fuel me (left - 1) world
        else
          match (world.strand? me).bind (·.round) with
          | none => world
          | some round =>
            if round.acked = round.needed then closeRound fuel me true world
            else pollRound fuel me round.members.length world

def closeRound : Nat → Nat → Bool → World ρ → World ρ
  | 0, _, _, world => world
  | fuel + 1, me, acked, world =>
    match (world.strand? me).bind (·.round) with
    | none => world
    | some round =>
      poll fuel me <| (world.dropRound me).modifyStrand me fun strand =>
        { strand with process := round.next acked }

end

def pollLimit : Nat := 100000

def driveLimit : Nat := 10000000

def dues (world : World ρ) : List (Nat × Nat × Nat) :=
  world.strands.flatMap fun (id, strand) =>
    let timers := strand.timers.filterMap fun timer => timer.order.map fun order =>
      (timer.deadline, order, id)
    match strand.wait with
    | .sleep deadline order => (deadline, order, id) :: timers
    | _ => timers

def passTime (world : World ρ) : Option (World ρ) :=
  let dues := world.dues
  match (dues.map (·.1)).min? with
  | none => none
  | some moment =>
    let due := (dues.filter (·.1 ≤ moment)).mergeSort fun a b =>
      a.1 < b.1 || (a.1 = b.1 && a.2.1 ≤ b.2.1)
    let world := { world with now := max world.now moment }
    some (world.wakeAll (due.map (·.2.2)))

def drive : Nat → World ρ → World ρ
  | 0, world => world
  | fuel + 1, world =>
    match world.queue with
    | id :: queue =>
      let world := { world with queue }.modifyStrand id fun strand => { strand with queued := false }
      drive fuel (poll pollLimit id world)
    | [] =>
      let world :=
        if !world.deferred.isEmpty then
          { world with deferred := [] }.wakeAll world.deferred
        else if world.mainReady then world
        else (world.passTime).getD world
      if world.mainReady then
        let world := poll pollLimit main { world with mainReady := false }
        if (world.strand? main).isNone then world else drive fuel world
      else if world.queue.isEmpty then world
      else drive fuel world

def runMain (world : World ρ) (process : Process ρ) : World ρ :=
  let world := { world with
    strands := (main, { process }) :: world.strands.filter (·.1 ≠ main)
    answer := none
    mainReady := false }
  let world := poll pollLimit main world
  if (world.strand? main).isNone then world else drive driveLimit world

def runStep (world : World ρ) (process : Process ρ) : Option ρ × Nat × World ρ :=
  let start := world.now
  let world := world.runMain process
  let answer := world.answer
  let taken := world.now - start
  (answer, taken, world.runMain (Script.run (Script.perform (.sleep 1))))

end World

end ReplicatedStore
