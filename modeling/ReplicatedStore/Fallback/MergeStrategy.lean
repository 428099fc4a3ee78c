import ReplicatedStore.KeySpace.TransactionView

/-!
How one store is reconciled with another when a cluster changes between them. The target commits
first and the source second; a failure of the first leaves both stores as they were.
-/

namespace ReplicatedStore

inductive MergeStrategy where
  | overwrite
  | keep
  deriving DecidableEq, Repr, Inhabited

namespace MergeStrategy

def name : MergeStrategy → String
  | .overwrite => "overwrite"
  | .keep => "null"

def putAll (view : TransactionView) : List Pair → Except Error Unit × TransactionView
  | [] => (.ok (), view)
  | (key, value) :: rest =>
    match view.perform (.put key value) with
    | .error e => (.error e, view)
    | .ok (_, view) => putAll view rest

def overwriteView (source target : TransactionView) :
    Except Error Nat × TransactionView × TransactionView :=
  match target.perform (.removeRange .full) with
  | .error e => (.error e, source, target)
  | .ok (_, target) =>
    match source.perform (.range .full false) with
    | .error e => (.error e, source, target)
    | .ok (answer, source) =>
      let pairs := match answer with
        | .pairs pairs => pairs
        | _ => []
      match putAll target pairs with
      | (.error e, target) => (.error e, source, target)
      | (.ok (), target) => (.ok pairs.length, source, target)

def prepare (strategy : MergeStrategy) (source target : TransactionView) :
    Except Error Unit × TransactionView × TransactionView :=
  match strategy with
  | .keep => (.ok (), source, target)
  | .overwrite =>
    match overwriteView source target with
    | (.ok _, source, target) => (.ok (), source, target)
    | (.error e, source, target) => (.error e, source.close, target.close)

end MergeStrategy

structure MergeSide (m : Type → Type) where
  view : m TransactionView
  setView : TransactionView → m Unit
  commit : m (Except Error Unit)

namespace MergeStrategy

def merge [Monad m] (strategy : MergeStrategy) (source target : MergeSide m) :
    m (Except Error Unit) := do
  let (prepared, sourceView, targetView) := strategy.prepare (← source.view) (← target.view)
  source.setView sourceView
  target.setView targetView
  match prepared with
  | .error e => return .error e
  | .ok () =>
    match ← target.commit with
    | .error e =>
      source.setView (← source.view).close
      return .error e
    | .ok () => source.commit

end MergeStrategy

structure MergeRegistry where
  strategies : List (String × MergeStrategy) := []
  deriving DecidableEq, Repr, Inhabited

namespace MergeRegistry

def get? (registry : MergeRegistry) (name : String) : Option MergeStrategy :=
  registry.strategies.lookup name

def find (registry : MergeRegistry) (name : String) : Except Error MergeStrategy :=
  match registry.get? name with
  | some strategy => .ok strategy
  | none => .error (.invalidConfig s!"unknown merge strategy '{name}'")

def names (registry : MergeRegistry) : List String :=
  registry.strategies.map (·.1)

def place (name : String) (strategy : MergeStrategy) :
    List (String × MergeStrategy) → List (String × MergeStrategy)
  | [] => [(name, strategy)]
  | (n, s) :: rest =>
    if name < n then (name, strategy) :: (n, s) :: rest else (n, s) :: place name strategy rest

def register (registry : MergeRegistry) (name : String) (strategy : MergeStrategy) :
    Except Error MergeRegistry :=
  if (registry.get? name).isSome then
    .error (.invalidConfig s!"merge strategy '{name}' is already registered")
  else .ok ⟨place name strategy registry.strategies⟩

def builtin : MergeRegistry :=
  ⟨[(MergeStrategy.keep.name, .keep), (MergeStrategy.overwrite.name, .overwrite)]⟩

end MergeRegistry

end ReplicatedStore
