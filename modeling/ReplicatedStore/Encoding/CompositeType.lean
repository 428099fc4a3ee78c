import ReplicatedStore.Encoding.TypeRegistry

/-!
Composite keys: the encodings of several components one after the other. All but the last tell where
they end, so the byte order of keys is the order of the tuples.
-/

namespace ReplicatedStore

structure CompositeType where
  components : List RegisteredType
  nonempty : components ≠ []
  delimited : ∀ c ∈ components.dropLast, c.selfDelimiting = true

namespace CompositeType

def firstOpen? (components : List RegisteredType) : Option (RegisteredType × Nat) :=
  components.dropLast.zipIdx.find? (fun (c, _) => !c.selfDelimiting)

theorem delimited_of_firstOpen? {components : List RegisteredType}
    (h : firstOpen? components = none) :
    ∀ c ∈ components.dropLast, c.selfDelimiting = true := by
  intro c hc
  obtain ⟨i, hi, rfl⟩ := List.getElem_of_mem hc
  have hm : (components.dropLast[i], i) ∈ components.dropLast.zipIdx := by
    rw [List.mem_zipIdx_iff_getElem?]
    exact List.getElem?_eq_getElem hi
  have := List.find?_eq_none.1 h _ hm
  simpa using this

def ofComponents (components : List RegisteredType) : Except EncodingError CompositeType :=
  if hne : components = [] then
    .error (.composition "composite type needs at least one component")
  else
    match hopen : firstOpen? components with
    | some (c, i) =>
      .error (.composition s!"component {i} ({c.name}) is not self-delimiting and must be last")
    | none => .ok ⟨components, hne, delimited_of_firstOpen? hopen⟩

def ofNames (registry : TypeRegistry) (names : List String) : Except EncodingError CompositeType := do
  ofComponents (← names.mapM registry.require)

def name (type : CompositeType) : String :=
  "(" ++ ",".intercalate (type.components.map (·.name)) ++ ")"

def startsWith00 (type : CompositeType) : Bool :=
  (type.components.head type.nonempty).startsWith00

def startsWithFF (type : CompositeType) : Bool :=
  (type.components.head type.nonempty).startsWithFF

def split (type : CompositeType) (key : Bytes) : Except EncodingError (List Bytes) :=
  go type.components key
where
  go : List RegisteredType → Bytes → Except EncodingError (List Bytes)
    | [], input => do
      Reader.finish.value input
      return []
    | c :: cs, input =>
      match c.skip input with
      | .error e _ => .error e
      | .ok _ rest => do
        let parts ← go cs rest
        return input.take (input.length - rest.length) :: parts

def join (type : CompositeType) (parts : List Bytes) : Except EncodingError Bytes :=
  if parts.length ≠ type.components.length then
    .error (.composition s!"expected {type.components.length} components, got {parts.length}")
  else go type.components parts
where
  go : List RegisteredType → List Bytes → Except EncodingError Bytes
    | c :: cs, part :: parts => do
      c.skip.decode part
      return part ++ (← go cs parts)
    | _, _ => return []

def compare (type : CompositeType) (a b : Bytes) : Except EncodingError Ordering := do
  go type.components (← type.split a) (← type.split b)
where
  go : List RegisteredType → List Bytes → List Bytes → Except EncodingError Ordering
    | c :: cs, x :: xs, y :: ys => do
      match ← c.compareAsValues x y with
      | .eq => go cs xs ys
      | order => return order
    | _, _, _ => return .eq

end CompositeType

end ReplicatedStore
