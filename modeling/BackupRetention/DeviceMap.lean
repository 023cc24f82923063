import BackupRetention.Config.Basic
import BackupRetention.Files.Operations

/-!
# Devices and stores

A store holds a file that names the device mounted there. A device that no store names is
not available for now, which is no error.
-/

namespace BackupRetention

/-- Where each device is, in the order in which the devices were found. -/
structure DeviceMap where
  stores : List (String × String)
  deriving DecidableEq, Repr

namespace DeviceMap

def empty : DeviceMap := ⟨[]⟩

/-- The store of a device. -/
def locate (m : DeviceMap) (device : String) : Option String :=
  m.stores.lookup device

def size (m : DeviceMap) : Nat := m.stores.length

def isEmpty (m : DeviceMap) : Bool := m.stores.isEmpty

/-- The file that names the device at a store. -/
def idFile : String := "device-id"

/-- The device that the content of such a file names: its first line, trimmed. -/
def named (content : String) : String :=
  match Text.lines content.toList with
  | [] => ""
  | line :: _ => String.ofList (Text.trimChars line)

/-- The device that the store at `store` names, if its file can be read. -/
def namedAt (t : FileTree) (store : String) : Option String :=
  match t.readText (Path.join store idFile) with
  | .ok content => some (named content)
  | .error _ => none

/-- Notes that `store` names `device`. The first store of a configured device counts. -/
def note (c : Config) (m : DeviceMap) (device store : String) : DeviceMap :=
  if c.hasDevice device ∧ m.locate device = none then ⟨m.stores ++ [(device, store)]⟩ else m

/-- The configured devices, each with the first configured store that names it. -/
def identify (c : Config) (t : FileTree) : DeviceMap :=
  c.stores.foldl (fun m store =>
    match namedAt t store with
    | some device => m.note c device store
    | none => m) empty

end DeviceMap

end BackupRetention
