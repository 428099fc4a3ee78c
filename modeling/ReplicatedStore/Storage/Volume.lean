import ReplicatedStore.Error

/-!
A directory of files as a value. Each file has what readers see and what would survive a loss of
power; a plan says which of the next steps fail, so that a statement about all plans is one about all
faults.
-/

namespace ReplicatedStore

structure StoredFile where
  id : Nat
  content : Bytes
  durable : Bytes
  deriving DecidableEq, Repr, Inhabited

inductive VolumeEntry where
  | file (file : StoredFile)
  | directory
  deriving DecidableEq, Repr, Inhabited

/-- What becomes of one step: it fails, and if it writes, then after it stored some bytes. -/
structure Fault where
  stored : Nat := 0
  deriving DecidableEq, Repr, Inhabited

structure Volume where
  entries : List (String × VolumeEntry) := []
  nextId : Nat := 0
  plan : List (Option Fault) := []
  deriving DecidableEq, Repr, Inhabited

namespace Volume

def find? (volume : Volume) (name : String) : Option VolumeEntry :=
  volume.entries.lookup name

def without (volume : Volume) (name : String) : Volume :=
  { volume with entries := volume.entries.filter (fun e => !(e.1 == name)) }

def put (volume : Volume) (name : String) (entry : VolumeEntry) : Volume :=
  { volume with entries := (name, entry) :: (volume.without name).entries }

def store (volume : Volume) (name : String) (content : Bytes) : Volume :=
  match volume.find? name with
  | some (.file file) => volume.put name (.file { file with content, durable := content })
  | _ =>
    { volume with nextId := volume.nextId + 1 }.put name
      (.file { id := volume.nextId, content, durable := content })

def content? (volume : Volume) (name : String) : Option Bytes :=
  match volume.find? name with
  | some (.file file) => some file.content
  | _ => none

-- Changes the file that a writer holds; a file without a name takes changes that nobody sees.
def updateFile (volume : Volume) (id : Nat) (f : StoredFile → StoredFile) : Volume :=
  { volume with
    entries := volume.entries.map fun (name, entry) =>
      match entry with
      | .file file => (name, .file (if file.id = id then f file else file))
      | .directory => (name, .directory) }

/-- A loss of power: what was not forced to the disk is gone. -/
def crash (volume : Volume) : Volume :=
  { volume with
    entries := volume.entries.map fun (name, entry) =>
      match entry with
      | .file file => (name, .file { file with content := file.durable })
      | .directory => (name, .directory) }

end Volume

abbrev Disk := EStateM Error Volume

namespace Disk

def isADirectory : Error := .io "Is a directory (os error 21)"

def notFound : Error := .io "No such file or directory (os error 2)"

def failed : Error := .io "Input/output error (os error 5)"

def nextFault : Disk (Option Fault) := modifyGet fun volume =>
  match volume.plan with
  | [] => (none, volume)
  | fault :: rest => (fault, { volume with plan := rest })

def attempt : Disk Unit := do
  if (← nextFault).isSome then throw failed

def read? (name : String) : Disk (Option Bytes) := do
  match (← get).find? name with
  | none => return none
  | some (.file file) => return some file.content
  | some .directory => throw isADirectory

def create (name : String) : Disk Nat := do
  attempt
  match (← get).find? name with
  | some .directory => throw isADirectory
  | some (.file file) =>
    modify (·.updateFile file.id fun file => { file with content := [] })
    return file.id
  | none =>
    let id := (← get).nextId
    modify fun volume => { volume with nextId := id + 1 }.put name (.file ⟨id, [], []⟩)
    return id

def openOrCreate (name : String) : Disk Nat := do
  attempt
  match (← get).find? name with
  | some .directory => throw isADirectory
  | some (.file file) => return file.id
  | none =>
    let id := (← get).nextId
    modify fun volume => { volume with nextId := id + 1 }.put name (.file ⟨id, [], []⟩)
    return id

def openExisting (name : String) : Disk Nat := do
  attempt
  match (← get).find? name with
  | some .directory => throw isADirectory
  | some (.file file) => return file.id
  | none => throw notFound

def append (id : Nat) (bytes : Bytes) : Disk (Nat × Option Error) := do
  let stored := match ← nextFault with
    | none => bytes.length
    | some fault => min fault.stored bytes.length
  modify (·.updateFile id fun file => { file with content := file.content ++ bytes.take stored })
  return (stored, if stored < bytes.length then some failed else none)

def setLength (id length : Nat) : Disk Unit := do
  attempt
  modify (·.updateFile id fun file =>
    { file with content :=
      file.content.take length ++ List.replicate (length - file.content.length) 0 })

def sync (id : Nat) : Disk Unit := do
  attempt
  modify (·.updateFile id fun file => { file with durable := file.content })

def rename (source target : String) : Disk Unit := do
  attempt
  match (← get).find? source, (← get).find? target with
  | some entry, some (.file _) | some entry, none =>
    modify fun volume => (volume.without source).put target entry
  | some _, some .directory => throw isADirectory
  | none, _ => throw notFound

def temporary (name : String) : String := name ++ ".tmp"

def replace (name : String) (content : Bytes) : Disk Unit := do
  let id ← create (temporary name)
  match ← append id content with
  | (_, some e) => throw e
  | (_, none) =>
    sync id
    rename (temporary name) name

end Disk

end ReplicatedStore
