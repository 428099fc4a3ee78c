import ReplicatedStore.Error

/-!
Trying again after failures that allow it, with a delay that doubles each time. No pause is endless.
-/

namespace ReplicatedStore

def longestPause : Nat := 946080000000

def retry [Monad m] (attempt : m (Except Error α)) (sleep : Nat → m Unit) :
    (limit delay : Nat) → m (Except Error α)
  | 0, _ => return .error (.internal "Max retries exceeded")
  | left + 1, delay => do
    match ← attempt with
    | .ok a => return .ok a
    | .error e =>
      if e.isRetryable && left ≠ 0 then
        sleep (min delay longestPause)
        retry attempt sleep left (2 * delay)
      else return .error e

end ReplicatedStore
