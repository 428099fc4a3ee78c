import ReplicatedStore.Config.Value

/-!
Tables as a TOML text builds them up: by headers, by rows and by keys with dots. A table that is complete
cannot be opened again.
-/

namespace ReplicatedStore

namespace Toml

inductive TableKind where
  | header
  | implicit
  | dotted
  deriving DecidableEq, Repr

inductive Entry where
  | value (value : ConfigValue)
  | table (kind : TableKind) (members : List (String × Entry))
  | rows (tables : List (List (String × Entry)))

abbrev Members := List (String × Entry)

namespace Members

def replace (members : Members) (name : String) (entry : Entry) : Members :=
  members.map fun (n, old) => (n, if n = name then entry else old)

-- Changes the table at the end of a path. Tables that are missing on the way are made; of several rows the
-- last one is meant. A key with dots does not lead through tables that have a header.
def descend (dotted : Bool) (f : TableKind → Members → Option Members) :
    List String → TableKind → Members → Option Members
  | [], kind, members => f kind members
  | name :: path, _, members =>
    match members.lookup name with
    | none => do
      let kind := if dotted then TableKind.dotted else .implicit
      let inner ← descend dotted f path kind []
      return members ++ [(name, .table kind inner)]
    | some (.table kind inner) =>
      if dotted && kind = .header then none
      else return members.replace name (.table kind (← descend dotted f path kind inner))
    | some (.rows (last :: others)) =>
      return members.replace name (.rows ((← descend dotted f path .header last) :: others))
    | some _ => none

-- Gives a value to a key, which must not have one. A key with dots does not add to a table that has a header.
def put (path : List String) (name : String) (value : ConfigValue) (members : Members) :
    Option Members :=
  let last (kind : TableKind) (members : Members) : Option Members :=
    if (!path.isEmpty && kind = .header) || (members.lookup name).isSome then none
    else some (members ++ [(name, .value value)])
  descend true last path .header members

def openTable (path : List String) (name : String) (members : Members) : Option Members :=
  let last (_ : TableKind) (members : Members) : Option Members :=
    match members.lookup name with
    | none => some (members ++ [(name, .table .header [])])
    | some (.table .implicit inner) => some (members.replace name (.table .header inner))
    | some _ => none
  descend false last path .header members

def addRow (path : List String) (name : String) (members : Members) : Option Members :=
  let last (_ : TableKind) (members : Members) : Option Members :=
    match members.lookup name with
    | none => some (members ++ [(name, .rows [[]])])
    | some (.rows tables) => some (members.replace name (.rows ([] :: tables)))
    | some _ => none
  descend false last path .header members

end Members

mutual

def Entry.toValue : Entry → ConfigValue
  | .value value => value
  | .table _ members => .table (membersToValues members)
  | .rows tables => .list (rowsToValues tables).reverse

def membersToValues : List (String × Entry) → List (String × ConfigValue)
  | [] => []
  | (name, entry) :: rest => (name, entry.toValue) :: membersToValues rest

def rowsToValues : List (List (String × Entry)) → List ConfigValue
  | [] => []
  | members :: rest => .table (membersToValues members) :: rowsToValues rest

end

end Toml

end ReplicatedStore
