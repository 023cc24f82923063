import BackupRetention.Config.Basic
import BackupRetention.Config.Names
import BackupRetention.Fault.Basic
import BackupRetention.Files.Operations

/-!
# Checking a configuration

The log directory must be there or be created, names must be accepted, and no number of days
may be negative. All fields are checked; of each field the first violation is reported.
-/

namespace BackupRetention

/-- Makes sure that `path` is a directory, creating it if nothing is there. -/
def ensureDirectory (path : String) (t : FileTree) : Except Violation Unit × FileTree :=
  if t.isThere path then
    (if t.isDir path then .ok () else .error (.notDirectory path), t)
  else
    match t.makeDirs path with
    | (.ok (), t) => (.ok (), t)
    | (.error e, t) => (.error (.unusableDirectory path e), t)

namespace VolumeSettings

def check (host volume : String) (v : VolumeSettings) : Except Violation Unit :=
  if v.pruneAge < 0 then .error (.volumeAge host volume) else .ok ()

end VolumeSettings

namespace Config

def checkVolumes (host : String) : Keyed VolumeSettings → Except Violation Unit
  | [] => .ok ()
  | (name, v) :: rest =>
    match NameKind.volume.check name with
    | .error e => .error e
    | .ok () =>
      match v.check host name with
      | .error e => .error e
      | .ok () => checkVolumes host rest

def checkHosts : Keyed HostSettings → Except Violation Unit
  | [] => .ok ()
  | (host, h) :: rest =>
    match NameKind.host.check host with
    | .error e => .error e
    | .ok () =>
      match checkVolumes host h.volumes with
      | .error e => .error e
      | .ok () => checkHosts rest

/-- The violation of a field, under its name. -/
def violated (field : String) : Except Violation Unit → List (String × List Violation)
  | .ok () => []
  | .error v => [(field, [v])]

/-- Checks all fields. -/
def validate (c : Config) (t : FileTree) : Except Fault Unit × FileTree :=
  let (logs, t) := ensureDirectory c.logs t
  let violations := violated "logs" logs ++
    violated "devices" (NameKind.device.checkAll c.devices) ++
    violated "hosts" (checkHosts c.hosts) ++
    violated "keep_prune_logs" (if c.keepPruneLogs < 0 then .error .negative else .ok ())
  (if violations = [] then .ok () else .error (.rejected violations), t)

end Config

end BackupRetention
