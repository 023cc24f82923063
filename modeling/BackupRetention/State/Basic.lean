import BackupRetention.Config.Basic
import BackupRetention.Ledger.Basic

/-!
# States

Every configured volume with its policy and its ledger, in the order of hosts and then of
volumes. A record is filed under the host and volume that it names.
-/

namespace BackupRetention

structure Volume where
  host : String
  name : String
  pruneAge : Int
  minBackups : Nat
  ledger : Ledger
  deriving DecidableEq, Repr

structure State where
  volumes : List Volume
  deriving DecidableEq, Repr

namespace State

/-- The configured volumes without any backups. -/
def ofConfig (c : Config) : State :=
  ⟨c.hosts.flatMap fun (host, h) =>
    h.volumes.map fun (name, v) => ⟨host, name, v.pruneAge, v.minBackups, Ledger.empty⟩⟩

def volume? (s : State) (host name : String) : Option Volume :=
  s.volumes.find? fun v => v.host = host ∧ v.name = name

/-- Works on the ledger of the first volume called `name` of `host`, and tells what came of
it; without such a volume nothing does. -/
def onVolume (host name : String) (work : Ledger → Bool × Ledger) :
    List Volume → Bool × List Volume
  | [] => (false, [])
  | v :: vs =>
    if v.host = host ∧ v.name = name then
      let (done, ledger) := work v.ledger
      (done, { v with ledger := ledger } :: vs)
    else
      let (done, vs') := onVolume host name work vs
      (done, v :: vs')

def onLedger (s : State) (host name : String) (work : Ledger → Bool × Ledger) :
    Bool × State :=
  let (done, volumes) := onVolume host name work s.volumes
  (done, ⟨volumes⟩)

/-- Files `r`. The answer is no if its volume is not configured or its place is taken. -/
def add (s : State) (r : Record) : Bool × State :=
  s.onLedger r.backup.host r.backup.volume (·.add r)

/-- Takes out `r` itself. -/
def remove (s : State) (r : Record) : Bool × State :=
  s.onLedger r.backup.host r.backup.volume (·.remove r)

/-- All records, volume by volume. -/
def records (s : State) : List Record :=
  s.volumes.flatMap (·.ledger.records)

end State

end BackupRetention
