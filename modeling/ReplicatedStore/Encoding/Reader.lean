import ReplicatedStore.Bytes

/-!
Readers of byte strings. A reader takes bytes from the front of its input and leaves the rest,
also when it fails, so that the input left shows how far a failed read came.
-/

namespace ReplicatedStore

inductive EncodingError where
  | truncated (needed available : Nat)
  | malformed (what : String)
  | trailing (count : Nat)
  | composition (what : String)
  deriving DecidableEq, Repr, Inhabited

def EncodingError.message : EncodingError → String
  | .truncated needed available => s!"truncated input: needed {needed} bytes, {available} available"
  | .malformed what => s!"invalid encoding: {what}"
  | .trailing count => s!"{count} trailing bytes after value"
  | .composition what => s!"invalid type composition: {what}"

abbrev Reader := EStateM EncodingError Bytes

namespace Reader

def peek : Reader UInt8 := fun input =>
  match input with
  | [] => .error (.truncated 1 0) []
  | b :: rest => .ok b (b :: rest)

def byte : Reader UInt8 := fun input =>
  match input with
  | [] => .error (.truncated 1 0) []
  | b :: rest => .ok b rest

def bytes (count : Nat) : Reader Bytes := fun input =>
  if input.length < count then .error (.truncated count input.length) input
  else .ok (input.take count) (input.drop count)

def skip (count : Nat) : Reader Unit := do
  let _ ← bytes count

def remaining : Reader Bytes := fun input => .ok input []

def finish : Reader Unit := fun input =>
  match input with
  | [] => .ok () []
  | b :: rest => .error (.trailing (rest.length + 1)) (b :: rest)

def value (reader : Reader α) (input : Bytes) : Except EncodingError α :=
  match reader input with
  | .ok a _ => .ok a
  | .error e _ => .error e

def decode (reader : Reader α) (input : Bytes) : Except EncodingError α :=
  value (do let a ← reader; finish; pure a) input

def many (reader : Reader α) : Nat → Reader (List α)
  | 0 => pure []
  | n + 1 => do
    let a ← reader
    let rest ← many reader n
    pure (a :: rest)

end Reader

end ReplicatedStore
