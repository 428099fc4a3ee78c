/-!
The gate between transactions and switches of the store. Transactions share it, a switch has it alone,
and whoever comes first enters first.
-/

namespace ReplicatedStore

structure Gate where
  shared : Nat := 0
  exclusive : Bool := false
  waiting : List (Nat × Bool) := []
  admitted : List (Nat × Bool) := []
  deriving DecidableEq, Repr, Inhabited

namespace Gate

def admits (gate : Gate) (alone : Bool) : Bool :=
  !gate.exclusive && (!alone || gate.shared = 0)

def occupy (gate : Gate) (alone : Bool) : Gate :=
  if alone then { gate with exclusive := true } else { gate with shared := gate.shared + 1 }

def letIn (gate : Gate) : List (Nat × Bool) → Gate
  | [] => { gate with waiting := [] }
  | (who, alone) :: rest =>
    if gate.admits alone then
      let gate := gate.occupy alone
      { gate with admitted := gate.admitted ++ [(who, alone)] }.letIn rest
    else { gate with waiting := (who, alone) :: rest }

/-- Asks to enter. Tells whether it could be done at once. -/
def enter (gate : Gate) (who : Nat) (alone : Bool) : Bool × Gate :=
  if gate.waiting.isEmpty && gate.admits alone then (true, gate.occupy alone)
  else (false, { gate with waiting := gate.waiting ++ [(who, alone)] })

def leave (gate : Gate) (alone : Bool) : Gate :=
  let gate := if alone then { gate with exclusive := false } else { gate with shared := gate.shared - 1 }
  gate.letIn gate.waiting

def notice (gate : Gate) (who : Nat) : Bool × Gate :=
  if gate.admitted.any (·.1 = who) then
    (true, { gate with admitted := gate.admitted.filter (·.1 ≠ who) })
  else (false, gate)

def giveUp (gate : Gate) (who : Nat) : Gate :=
  match gate.admitted.find? (·.1 = who) with
  | some (_, alone) => { gate with admitted := gate.admitted.filter (·.1 ≠ who) }.leave alone
  | none => gate.letIn (gate.waiting.filter (·.1 ≠ who))

end Gate

end ReplicatedStore
