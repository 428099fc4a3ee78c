/-!
Settings: values from which a configuration is read. How a value may be spelled is up to the format in
which it is written; which settings there are is up to the configuration.
-/

namespace ReplicatedStore

class Settings (σ : Type) where
  text? : σ → Option String
  natural? : σ → Option Nat
  truth? : σ → Option Bool
  choice? : σ → Option String
  items? : σ → Option (List σ)
  fields? : (names : List String) → σ → Option (List (String × σ))

namespace Settings

variable {σ : Type} [Settings σ]

def setting (given : List (String × σ)) (name : String) (read : σ → Option α) (default : α) :
    Option α :=
  match given.lookup name with
  | some value => read value
  | none => some default

def required (given : List (String × σ)) (name : String) (read : σ → Option α) : Option α :=
  (given.lookup name).bind read

end Settings

end ReplicatedStore
