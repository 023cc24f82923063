import BackupRetention.Keyed

/-!
# Configurations

What is to be kept where: the logs, the stores where devices may be mounted, the names of
the devices, and for every volume of every host how long and how many of its backups stay.
-/

namespace BackupRetention

def defaultLogs : String := "/var/log/backup"
def defaultPruneAge : Int := 366
def defaultMinBackups : Nat := 1
def defaultKeepPruneLogs : Int := 31

/-- The retention policy of one volume. -/
structure VolumeSettings where
  /-- Where the volume is on its host. -/
  path : String
  /-- Backups of at most this many days stay. -/
  pruneAge : Int := defaultPruneAge
  /-- How many complete backups stay on each device, whatever their age. -/
  minBackups : Nat := defaultMinBackups
  deriving DecidableEq, Repr

structure HostSettings where
  volumes : Keyed VolumeSettings := []
  deriving DecidableEq, Repr

structure Config where
  /-- The directory with the logs of backups and of removals. -/
  logs : String := defaultLogs
  /-- Where devices may be mounted, in the order of preference. -/
  stores : List String := []
  devices : List String := []
  hosts : Keyed HostSettings := []
  /-- For how many days prune logs stay. -/
  keepPruneLogs : Int := defaultKeepPruneLogs
  deriving DecidableEq, Repr

namespace Config

def hasDevice (c : Config) (device : String) : Bool :=
  c.devices.contains device

/-- The policy of one volume. -/
def volume? (c : Config) (host name : String) : Option VolumeSettings :=
  match Keyed.find? host c.hosts with
  | some h => Keyed.find? name h.volumes
  | none => none

end Config

end BackupRetention
