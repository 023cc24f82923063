import BackupRetention.Proofs.State.LogNames

/-!
# What is loaded

A state that was loaded holds exactly what the logs tell: the configured volumes, and for each of
them the first log of every date and device. Of these the ledgers hold nothing more, and nothing
less.

## Main definitions

* `State.First`: the first name in a listing that tells a date, a device, a host and a volume.
* `State.ExactlyTold`: a state is what a listing of the logs tells.

## Main results

* `Ledger.find?_addAll`: of several records for one place the first one stays.
* `State.find?_ledger`: a place in a loaded ledger holds what the first log for it tells.
* `State.load_exact`: what is loaded is exactly what is told.
-/

namespace BackupRetention

/-! ## Filing one after the other -/

/-- Whether `r` is of this date and on this device. -/
def Record.isAt (date : Date) (device : String) (r : Record) : Bool :=
  r.date = date ∧ r.device = device

@[simp] theorem Record.isAt_iff {date : Date} {device : String} {r : Record} :
    r.isAt date device = true ↔ r.date = date ∧ r.device = device := by
  simp [isAt]

namespace Ledger

/-- What is in a place after filing: what was in it, or else the filed record. -/
theorem find?_file {r : Record} {rs : List Record} (h : rs.Pairwise (· < ·)) (date : Date)
    (device : String) : (file r rs).2.find? (Record.isAt date device) =
      (rs ++ [r]).find? (Record.isAt date device) := by
  have later {x : Record} (lt : r < x) (own : r.isAt date device = true) :
      x.isAt date device = false := by
    rw [Bool.eq_false_iff, Ne, Record.isAt_iff]
    rintro ⟨dx, ex⟩
    obtain ⟨dr, er⟩ := Record.isAt_iff.1 own
    have before := Record.date_lt_of_lt lt (er.trans ex.symm)
    rw [dr, dx] at before
    exact Date.lt_irrefl date before
  fun_induction file r rs with
  | case1 => rfl
  | case2 y ys lt =>
    cases own : r.isAt date device with
    | false => rw [List.find?_cons_of_neg (by simp [own]), List.find?_append]; simp [own]
    | true =>
      have none : (y :: ys).find? (Record.isAt date device) = none := by
        refine List.find?_eq_none.2 fun x hx => ?_
        rcases List.mem_cons.1 hx with rfl | hx
        · simp [later lt own]
        · simp [later (Record.lt_trans lt ((List.pairwise_cons.1 h).1 x hx)) own]
      rw [List.find?_append, none, List.find?_cons_of_pos own, List.find?_cons_of_pos own]
      rfl
  | case3 y ys lt key =>
    have same : r.isAt date device = y.isAt date device := by
      rw [Record.isAt, Record.isAt, key.1, key.2]
    cases own : y.isAt date device <;> simp [List.find?_append, same, own]
  | case4 y ys lt key filed zs hz ih =>
    have rest := ih (List.pairwise_cons.1 h).2
    rw [hz] at rest
    rw [List.cons_append, List.find?_cons, List.find?_cons, ← rest]

/-- Of several records for one place the first one stays. -/
theorem find?_addAll {l : Ledger} (h : l.records.Pairwise (· < ·)) (rs : List Record)
    (date : Date) (device : String) : (l.addAll rs).records.find? (Record.isAt date device) =
      (l.records ++ rs).find? (Record.isAt date device) := by
  induction rs generalizing l with
  | nil => simp [addAll]
  | cons r rs ih =>
    have filed : (l.add r).2.records.find? (Record.isAt date device) = _ :=
      find?_file h date device
    have step : l.addAll (r :: rs) = (l.add r).2.addAll rs := rfl
    rw [step, ih (pairwise_file h), List.find?_append, filed, ← List.find?_append]
    simp

end Ledger

namespace State

/-! ## Volumes -/

/-- A volume without its ledger. -/
def policy (v : Volume) : String × String × Int × Nat := (v.host, v.name, v.pruneAge, v.minBackups)

theorem map_policy_onVolume (host name : String) (work : Ledger → Bool × Ledger)
    (vs : List Volume) : (onVolume host name work vs).2.map policy = vs.map policy := by
  fun_induction onVolume host name work vs with
  | case1 => rfl
  | case2 v vs own done l found => rfl
  | case3 v vs other done vs' found ih => simpa [found] using ih

theorem map_policy_fillIn (vs : List Volume) (rs : List Record) :
    (fillIn vs rs).map policy = vs.map policy := by
  induction rs generalizing vs with
  | nil => rfl
  | cons r rs ih => exact (ih _).trans (map_policy_onVolume _ _ _ vs)

/-- A volume with more records. -/
def filed (v : Volume) (rs : List Record) : Volume := { v with ledger := v.ledger.addAll rs }

/-- The first volume of a name takes all records of that name. -/
theorem find?_fillIn (vs : List Volume) (rs : List Record) (host name : String) :
    (fillIn vs rs).find? (fun v => v.host = host ∧ v.name = name) =
      (vs.find? fun v => v.host = host ∧ v.name = name).map fun v =>
        filed v (rs.filter fun r => r.backup.host = host ∧ r.backup.volume = name) := by
  induction vs generalizing rs with
  | nil =>
    have none : fillIn [] rs = [] := List.map_eq_nil_iff.1 (map_policy_fillIn [] rs)
    rw [none]
    rfl
  | cons v vs ih =>
    rw [fillIn_cons]
    by_cases own : v.host = host ∧ v.name = name
    · obtain ⟨rfl, rfl⟩ := own
      simp [filed, names, eq_comm]
    · rw [List.find?_cons_of_neg (by simpa using own), List.find?_cons_of_neg (by simpa using own),
        ih, List.filter_filter]
      congr 1
      funext u
      congr 1
      refine List.filter_congr fun r _ => ?_
      by_cases named : r.backup.host = host ∧ r.backup.volume = name
      · obtain ⟨rfl, rfl⟩ := named
        simp [names, own]
      · simp [named]

/-! ## Listings -/

/-- What an entry tells about a place. -/
def toldAt (host name : String) (date : Date) (device : String) :
    Except Fault (Option Backup) → Option Backup
  | .ok (some b) =>
    if b.host = host ∧ b.volume = name ∧ b.date = date ∧ b.device = device then some b else none
  | _ => none

/-- The first record for a place is told by the first entry that tells anything about it. -/
theorem find?_told (logs : String) (n : Nat) (entries : List Listed) (host name : String)
    (date : Date) (device : String) :
    (((told logs n entries).filter fun r => r.backup.host = host ∧ r.backup.volume = name).find?
        (Record.isAt date device)).map Record.backup =
      entries.findSome? fun e => toldAt host name date device (recorded logs e) := by
  rw [List.find?_filter]
  induction entries generalizing n with
  | nil => rfl
  | cons e entries ih =>
    rw [told, List.findSome?_cons, ← ih (n + 1)]
    cases recorded logs e with
    | error f => rfl
    | ok o =>
      cases o with
      | none => rfl
      | some b =>
        by_cases own : b.host = host ∧ b.volume = name ∧ b.date = date ∧ b.device = device
        · rw [toldAt, if_pos own, List.find?_cons_of_pos]
          · rfl
          · simpa [Record.date, Record.device, and_assoc] using own
        · rw [toldAt, if_neg own, List.find?_cons_of_neg]
          simpa [Record.date, Record.device, and_assoc] using own

theorem toldAt_eq_some_iff {host name : String} {date : Date} {device : String}
    {o : Except Fault (Option Backup)} {b : Backup} : toldAt host name date device o = some b ↔
      o = .ok (some b) ∧ b.host = host ∧ b.volume = name ∧ b.date = date ∧ b.device = device := by
  unfold toldAt
  split <;> grind

/-- Nothing is told about a place by an entry with another name. -/
theorem toldAt_eq_none_iff {logs host name : String} {date : Date} {device : String} {e : Listed}
    (looked : ∃ o, recorded logs e = .ok o) :
    toldAt host name date device (recorded logs e) = none ↔
      ¬ LogFile.Tells e.name date device host name := by
  rw [Option.eq_none_iff_forall_ne_some]
  constructor
  · intro none tells
    obtain ⟨status, told⟩ := exists_recorded_of_tells looked tells
    exact none _ (toldAt_eq_some_iff.2 ⟨told, rfl, rfl, rfl, rfl⟩)
  · intro other b here
    obtain ⟨told, rfl, rfl, rfl, rfl⟩ := toldAt_eq_some_iff.1 here
    exact other (recorded_eq_some_iff.1 told).1

/-! ## What is loaded -/

/-- The first name of a listing that tells this date, device, host and volume. -/
def First (names : List String) (name : String) (date : Date) (device host volume : String) :
    Prop :=
  ∃ before after, names = before ++ name :: after ∧ LogFile.Tells name date device host volume ∧
    ∀ n ∈ before, ¬ LogFile.Tells n date device host volume

/-- A state is what the logs tell that are listed as `names`. -/
structure ExactlyTold (c : Config) (t : FileTree) (names : List String) (s : State) : Prop where
  /-- The configured volumes, with their policies. -/
  volumes : s.volumes.map policy = c.hosts.flatMap fun (host, h) =>
    h.volumes.map fun (name, w) => (host, name, w.pruneAge, w.minBackups)
  /-- There is at most one record for each date and device. -/
  ordered : ∀ v ∈ s.volumes, v.ledger.records.Pairwise (· < ·)
  /-- Only the volume that is found by its name holds anything. -/
  found : ∀ v ∈ s.volumes, v.ledger.records ≠ [] → s.volume? v.host v.name = some v
  /-- There is a record for a date and device exactly if a name tells them. The device may be
  any, configured or not. -/
  key_iff : ∀ host name v, s.volume? host name = some v → ∀ date device,
    (∃ r ∈ v.ledger.records, r.date = date ∧ r.device = device) ↔
      ∃ n ∈ names, LogFile.Tells n date device host name
  /-- Every record is what the first of these logs tells. -/
  first : ∀ v ∈ s.volumes, ∀ r ∈ v.ledger.records,
    r.backup.host = v.host ∧ r.backup.volume = v.name ∧
      ∃ n text, First names n r.date r.device v.host v.name ∧
        t.readText (Path.join c.logs n) = .ok text ∧ LogFile.StatusOf text r.backup.status

variable {c : Config} {t : FileTree} {s : State}

/-- A place in a ledger that was filled holds the first record for it. -/
theorem find?_ledger {rs : List Record} {host name : String} {v : Volume}
    (found : ((ofConfig c).fill rs).volume? host name = some v) (date : Date) (device : String) :
    v.ledger.records.find? (Record.isAt date device) =
      (rs.filter fun r => r.backup.host = host ∧ r.backup.volume = name).find?
        (Record.isAt date device) := by
  rw [volume?, volumes_fill, find?_fillIn, Option.map_eq_some_iff] at found
  obtain ⟨u, known, rfl⟩ := found
  have empty := ledger_of_ofConfig c u (List.mem_of_find?_eq_some known)
  rw [filed, empty, Ledger.find?_addAll (by exact .nil)]
  rfl

/-- A record that is filed somewhere is filed in the volume that is found by its name. -/
theorem Shelved.find?_eq {vs : List Volume} (h : Shelved vs) {v : Volume} (hv : v ∈ vs)
    (some : v.ledger.records ≠ []) :
    (vs.find? fun u => u.host = v.host ∧ u.name = v.name) = .some v := by
  have first := h.first
  clear h
  induction vs with
  | nil => cases hv
  | cons u vs ih =>
    obtain ⟨here, there⟩ := List.pairwise_cons.1 first
    by_cases own : u.host = v.host ∧ u.name = v.name
    · rw [List.find?_cons_of_pos (by simpa using own)]
      rcases List.mem_cons.1 hv with rfl | hv
      · rfl
      · exact absurd (here v hv own.1 own.2) some
    · rw [List.find?_cons_of_neg (by simpa using own)]
      rcases List.mem_cons.1 hv with rfl | hv
      · exact absurd ⟨rfl, rfl⟩ own
      · exact ih hv there

theorem find?_isAt_of_mem {rs : List Record} (h : rs.Pairwise (· < ·)) {r : Record} (hr : r ∈ rs) :
    rs.find? (Record.isAt r.date r.device) = some r := by
  cases found : rs.find? (Record.isAt r.date r.device) with
  | none => exact absurd (Record.isAt_iff.2 ⟨rfl, rfl⟩) (List.find?_eq_none.1 found r hr)
  | some x =>
    have key := Record.isAt_iff.1 (List.find?_some found)
    exact congrArg some (Ledger.eq_of_ordered h (List.mem_of_find?_eq_some found) hr key)

/-- What is loaded is exactly what is told. -/
theorem load_exact (loaded : load c t = .ok s) :
    ∃ names, t.list c.logs = .ok names ∧ ExactlyTold c t names s := by
  obtain ⟨names, listed, looked, rfl⟩ := load_eq_ok_iff.1 loaded
  generalize logs : told c.logs 0 (names.map (entryOf t c.logs)) = rs
  have shelved := ((State.Built.ofConfig c).fill rs).shelved
  generalize filled : (ofConfig c).fill rs = s at shelved
  -- A place holds the backup that the first log for it tells.
  have place {host name : String} {v : Volume} (found : s.volume? host name = some v) (date : Date)
      (device : String) : (v.ledger.records.find? (Record.isAt date device)).map Record.backup =
        names.findSome? fun n =>
          toldAt host name date device (recorded c.logs (entryOf t c.logs n)) := by
    rw [find?_ledger (filled ▸ found), ← logs, find?_told, List.findSome?_map]
    rfl
  refine ⟨names, listed, ?_, shelved.ordered, fun v hv some => shelved.find?_eq hv some, ?_, ?_⟩
  · rw [← filled, volumes_fill, map_policy_fillIn, ofConfig, List.map_flatMap]
    simp [policy, Function.comp_def]
  · intro host name v found date device
    have here := place found date device
    rw [← not_iff_not]
    have none : (v.ledger.records.find? (Record.isAt date device)).map Record.backup = none ↔
        names.findSome? (fun n =>
          toldAt host name date device (recorded c.logs (entryOf t c.logs n))) = none := by
      rw [here]
    rw [Option.map_eq_none_iff, List.find?_eq_none, List.findSome?_eq_none_iff] at none
    have names' : (∀ n ∈ names, toldAt host name date device
        (recorded c.logs (entryOf t c.logs n)) = .none) ↔
          ∀ n ∈ names, ¬ LogFile.Tells n date device host name :=
      forall₂_congr fun n hn => toldAt_eq_none_iff (looked n hn)
    rw [names'] at none
    simpa [not_exists, not_and] using none
  · intro v hv r hr
    obtain ⟨host, name⟩ := shelved.named v hv r hr
    have here := place (shelved.find?_eq hv (List.ne_nil_of_mem hr)) r.date r.device
    rw [find?_isAt_of_mem (shelved.ordered v hv) hr, Option.map_some, eq_comm,
      List.findSome?_eq_some_iff] at here
    obtain ⟨before, n, after, rfl, told, others⟩ := here
    obtain ⟨tells, text, content, status⟩ := recorded_eq_some_iff.1 (toldAt_eq_some_iff.1 told).1
    refine ⟨host, name, n, text, ⟨before, after, rfl, ?_, fun x hx => ?_⟩, content, status⟩
    · rw [← host, ← name]
      exact tells
    · have seen := looked x (List.mem_append_left _ hx)
      exact (toldAt_eq_none_iff seen).1 (others x hx)

/-- One volume, with a policy that does not matter. -/
def oneVolume : Config where
  logs := "logs"
  hosts := [("h", { volumes := [("v", { path := "/" })] })]

/-- Two logs of the same backup, a log of no configured volume, and a prune log. -/
def writtenTwice : FileTree where
  nodes := [(["logs"], .dir), (["logs", "2024-1-5-d-h-v.log"], .file "ERROR: full\n\n".toUTF8),
    (["logs", "2024-01-05-d-h-v.log"], .file .empty),
    (["logs", "2024-01-06-d-h-w.log"], .file .empty),
    (["logs", "prune-2024-01-06.log"], .file .empty)]
  current := []
  changes := []

/-- The first log of the two is the one that counts. -/
theorem load_exact_writtenTwice :
    load oneVolume writtenTwice =
        .ok ((ofConfig oneVolume).fill [⟨⟨"h", "v", "d", ⟨2024, 1, 5⟩, 1⟩, 0⟩]) ∧
      ∃ names, writtenTwice.list "logs" = .ok names ∧ ExactlyTold oneVolume writtenTwice names
        ((ofConfig oneVolume).fill [⟨⟨"h", "v", "d", ⟨2024, 1, 5⟩, 1⟩, 0⟩]) := by
  have loads : (load oneVolume writtenTwice).toOption =
      some ((ofConfig oneVolume).fill [⟨⟨"h", "v", "d", ⟨2024, 1, 5⟩, 1⟩, 0⟩]) := by
    decide +kernel
  cases loaded : load oneVolume writtenTwice with
  | error f =>
    rw [loaded] at loads
    cases loads
  | ok s =>
    rw [loaded] at loads
    obtain rfl := Option.some.inj loads
    exact ⟨rfl, load_exact loaded⟩

end State

end BackupRetention
