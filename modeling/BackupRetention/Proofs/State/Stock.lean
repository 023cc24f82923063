import BackupRetention.Proofs.State.Numbering

/-!
# What loading comes to

Apart from serial numbers, what loading leaves in a state is settled by the backups that the logs
tell, one after the other: of those for one place the first is filed, and backups of volumes that
are not configured are left out.

## Main definitions

* `State.stocked`: the configured volumes, with some backups filed one after the other.
* `State.loaded?`: what loading comes to.

## Main results

* `State.mem_backups_stocked`: which backups are filed.
* `State.stocked_congr`: where at most one backup is told for each place, order does not matter.
* `State.loaded?_eq_some_iff`: when loading succeeds, and what it comes to.
-/

namespace BackupRetention

namespace State

/-! ## Configured volumes -/

theorem exists_named_congr {us vs : List Volume} (same : us.map policy = vs.map policy)
    (host name : String) : (∃ u ∈ us, u.host = host ∧ u.name = name) ↔
      ∃ v ∈ vs, v.host = host ∧ v.name = name := by
  have names (ws : List Volume) : (∃ w ∈ ws, w.host = host ∧ w.name = name) ↔
      ∃ p ∈ ws.map policy, p.1 = host ∧ p.2.1 = name := by
    simp [policy]
  rw [names, names, same]

variable {c : Config}

theorem lists_iff {s : State} (same : s.volumes.map policy = (ofConfig c).volumes.map policy)
    (host name : String) : c.Lists host name ↔ ∃ v ∈ s.volumes, v.host = host ∧ v.name = name := by
  rw [exists_named_congr same]
  exact (exists_named_iff [] host name).symm

instance (host name : String) : Decidable (c.Lists host name) :=
  decidable_of_iff _ (lists_iff rfl host name).symm

/-- The backup is one of a configured volume. -/
def listed? (c : Config) (b : Backup) : Bool := c.Lists b.host b.volume

theorem policies_fill (rs : List Record) :
    ((ofConfig c).fill rs).volumes.map policy = (ofConfig c).volumes.map policy := by
  rw [volumes_fill, map_policy_fillIn]

/-- A record of no configured volume is not filed. -/
theorem add_of_not_lists {s : State}
    (same : s.volumes.map policy = (ofConfig c).volumes.map policy) {r : Record}
    (unknown : ¬ c.Lists r.backup.host r.backup.volume) : (s.add r).2 = s := by
  rw [lists_iff same] at unknown
  have absent : ∀ v ∈ s.volumes, ¬ (v.host = r.backup.host ∧ v.name = r.backup.volume) :=
    fun v hv named => unknown ⟨v, hv, named⟩
  rw [add, onLedger, onVolume_eq_self absent]

/-- So only the records of configured volumes matter. -/
theorem fill_filter (rs : List Record) :
    (ofConfig c).fill (rs.filter (listed? c ·.backup)) = (ofConfig c).fill rs := by
  have known (s : State) (same : s.volumes.map policy = (ofConfig c).volumes.map policy) :
      s.fill (rs.filter (listed? c ·.backup)) = s.fill rs := by
    induction rs generalizing s with
    | nil => rfl
    | cons r rs ih =>
      by_cases own : c.Lists r.backup.host r.backup.volume
      · rw [List.filter_cons_of_pos (by simpa [listed?] using own)]
        exact ih _ ((map_policy_onVolume _ _ _ _).trans same)
      · rw [List.filter_cons_of_neg (by simpa [listed?] using own), ih s same]
        exact congrArg (fill · rs) (add_of_not_lists same own).symm
  exact known _ rfl

/-! ## Backups, one after the other -/

/-- The record of a backup, with a number that tells nothing. -/
def plain (b : Backup) : Record := ⟨b, 0⟩

/-- The configured volumes, with some backups filed one after the other. -/
def stocked (c : Config) (bs : List Backup) : State := (ofConfig c).fill (bs.map plain)

theorem stocked_filter (bs : List Backup) : stocked c (bs.filter (listed? c)) = stocked c bs := by
  rw [stocked, stocked, ← fill_filter (bs.map plain), List.filter_map]
  rfl

/-- The backups of a state. -/
def backups (s : State) : List Backup := s.records.map Record.backup

/-- Whether `b` is of the date, the device, the host and the volume of `a`. -/
def likeness (a b : Backup) : Bool :=
  b.host = a.host ∧ b.volume = a.volume ∧ b.date = a.date ∧ b.device = a.device

theorem find?_plain (bs : List Backup) (b : Backup) :
    ((bs.map plain).filter fun r => r.backup.host = b.host ∧ r.backup.volume = b.volume).find?
      (Record.isAt b.date b.device) = (bs.find? (likeness b)).map plain := by
  rw [List.find?_filter, List.find?_map]
  congr 2
  funext a
  grind [likeness, plain, Record.isAt, Record.date, Record.device]

/-- Of backups that are alike the first one is held, if its volume is configured. -/
theorem mem_backups_stocked {bs : List Backup} {b : Backup} :
    b ∈ (stocked c bs).backups ↔
      c.Lists b.host b.volume ∧ bs.find? (likeness b) = some b := by
  have shelved : Shelved (stocked c bs).volumes := ((Built.ofConfig c).fill _).shelved
  rw [lists_iff (policies_fill (bs.map plain))]
  constructor
  · intro held
    obtain ⟨r, hr, rfl⟩ := List.mem_map.1 held
    obtain ⟨v, hv, hr⟩ := List.mem_flatMap.1 hr
    obtain ⟨host, name⟩ := shelved.named v hv r hr
    have place := find?_ledger (shelved.find?_eq hv (List.ne_nil_of_mem hr)) r.date r.device
    rw [find?_isAt_of_mem (shelved.ordered v hv) hr, ← host, ← name] at place
    obtain ⟨a, first, rfl⟩ := Option.map_eq_some_iff.1 (place.trans (find?_plain bs r.backup)).symm
    exact ⟨⟨v, hv, host.symm, name.symm⟩, first⟩
  · rintro ⟨known, first⟩
    have found : ((stocked c bs).volume? b.host b.volume).isSome := by
      simpa [stocked, volume?, List.find?_isSome] using known
    obtain ⟨v, found⟩ := Option.isSome_iff_exists.1 found
    have place := (find?_ledger found b.date b.device).trans (find?_plain bs b)
    rw [first] at place
    have filed : plain b ∈ (stocked c bs).records :=
      List.mem_flatMap.2 ⟨v, List.mem_of_find?_eq_some found, List.mem_of_find?_eq_some place⟩
    exact List.mem_map_of_mem filed

/-! ## Orders of filing -/

/-- A volume with this policy and these backups. -/
def rebuilt (p : String × String × Int × Nat) (h : Shelf) : Volume :=
  ⟨p.1, p.2.1, p.2.2.1, p.2.2.2, Ledger.recount (h.backups.map plain)⟩

theorem recount_addAll (rs : List Record) :
    Ledger.recount (Ledger.empty.addAll rs).records = Ledger.empty.addAll rs := by
  have kept (l : Ledger) (fresh : Ledger.recount l.records = l) :
      Ledger.recount (l.addAll rs).records = l.addAll rs := by
    induction rs generalizing l with
    | nil => exact fresh
    | cons r rs ih => exact ih _ rfl
  exact kept _ rfl

theorem ledger_fillIn {vs : List Volume} (empty : ∀ v ∈ vs, v.ledger = Ledger.empty)
    (rs : List Record) : ∀ v ∈ fillIn vs rs, Ledger.recount v.ledger.records = v.ledger := by
  induction vs generalizing rs with
  | nil =>
    have none : fillIn [] rs = [] := List.map_eq_nil_iff.1 (map_policy_fillIn [] rs)
    simp [none]
  | cons v vs ih =>
    obtain ⟨here, there⟩ := List.forall_mem_cons.1 empty
    rw [fillIn_cons, here]
    exact List.forall_mem_cons.2 ⟨recount_addAll _, ih there _⟩

theorem unnumbered_eq_rebuilt {v : Volume} (fresh : Ledger.recount v.ledger.records = v.ledger) :
    v.unnumbered = rebuilt (policy v) v.shelf := by
  obtain ⟨host, name, pruneAge, minBackups, l⟩ := v
  have fresh : Ledger.recount l.records = l := fresh
  have ledger : l.unnumbered = Ledger.recount (l.records.map Record.unnumbered) := by
    rw [← fresh, Ledger.recount, Ledger.recount, Figures.ofRecords_unnumbered]
    rfl
  simp only [Volume.unnumbered, rebuilt, Volume.shelf, List.map_map, ledger]
  rfl

theorem unnumbered_stocked (bs : List Backup) : (stocked c bs).unnumbered = stocked c bs := by
  rw [stocked, unnumbered_fill, unnumbered_ofConfig, List.map_map]
  rfl

/-- The policies and the backups of a state tell all the rest. -/
theorem volumes_stocked (bs : List Backup) : (stocked c bs).volumes =
    List.zipWith rebuilt ((ofConfig c).volumes.map policy) (stocked c bs).shelves := by
  have fresh : ∀ v ∈ (stocked c bs).volumes, v.unnumbered = rebuilt (policy v) v.shelf := by
    rw [stocked, volumes_fill]
    exact fun v hv => unnumbered_eq_rebuilt (ledger_fillIn (ledger_of_ofConfig c) _ v hv)
  rw [← policies_fill (bs.map plain), ← stocked, shelves, List.zipWith_map, List.zipWith_self,
    ← List.map_congr_left fresh]
  exact congrArg volumes (unnumbered_stocked bs).symm

theorem consistent_plain {bs : List Backup}
    (single : ∀ a ∈ bs, ∀ b ∈ bs, a.Alike b → b = a) : Consistent (bs.map plain) := by
  intro x hx y hy key host volume
  obtain ⟨a, ha, rfl⟩ := List.mem_map.1 hx
  obtain ⟨b, hb, rfl⟩ := List.mem_map.1 hy
  exact single a ha b hb ⟨key.1, key.2, host, volume⟩

theorem map_backup_plain (bs : List Backup) : (bs.map plain).map Record.backup = bs := by
  simp [plain, Function.comp_def]

theorem stocked_eq_of_shelves {bs cs : List Backup}
    (same : (stocked c cs).shelves = (stocked c bs).shelves) : stocked c cs = stocked c bs :=
  congrArg State.mk ((volumes_stocked cs).trans (same ▸ (volumes_stocked bs).symm))

/-- Where at most one backup is told for each place, only the set of them matters. -/
theorem stocked_congr {bs cs : List Backup}
    (same : ∀ b, c.Lists b.host b.volume → (b ∈ cs ↔ b ∈ bs))
    (single : ∀ a ∈ bs, ∀ b ∈ bs, c.Lists a.host a.volume → a.Alike b → b = a) :
    stocked c cs = stocked c bs := by
  have own (b : Backup) : b ∈ cs.filter (listed? c) ↔ b ∈ bs.filter (listed? c) := by
    simpa [listed?] using fun known => same b known
  have alone : ∀ a ∈ bs.filter (listed? c), ∀ b ∈ bs.filter (listed? c), a.Alike b → b = a := by
    intro a ha b hb
    obtain ⟨ha, known⟩ := List.mem_filter.1 ha
    exact single a ha b (List.mem_of_mem_filter hb) (by simpa [listed?] using known)
  have alone' : ∀ a ∈ cs.filter (listed? c), ∀ b ∈ cs.filter (listed? c), a.Alike b → b = a :=
    fun a ha b hb => alone a ((own a).1 ha) b ((own b).1 hb)
  have told (b : Backup) : b ∈ ((cs.filter (listed? c)).map plain).map Record.backup ↔
      b ∈ ((bs.filter (listed? c)).map plain).map Record.backup ∧ b ∉ ([] : List Backup) := by
    rw [map_backup_plain, map_backup_plain, own]
    simp
  have left := shelves_fill c (consistent_plain alone) (consistent_plain alone') told
  rw [← stocked_filter cs, ← stocked_filter bs]
  refine stocked_eq_of_shelves (left.trans ?_)
  simp [stocked, Shelf.without_nil]

/-! ## What loading comes to -/

/-- The backup that an entry of the logs tells, if it tells one. -/
def told? (c : Config) (t : FileTree) (name : String) : Option Backup :=
  (recorded c.logs (entryOf t c.logs name)).toOption.join

/-- Loading gets past an entry of the logs. -/
def Looked (c : Config) (t : FileTree) (name : String) : Prop :=
  ∃ o, recorded c.logs (entryOf t c.logs name) = .ok o

instance (c : Config) (t : FileTree) (name : String) : Decidable (Looked c t name) :=
  decidable_of_iff ((recorded c.logs (entryOf t c.logs name)).toOption.isSome) <| by
    rw [Looked]
    cases recorded c.logs (entryOf t c.logs name) <;> simp [Except.toOption]

/-- What loading comes to, apart from serial numbers. There is nothing if it fails. -/
def loaded? (c : Config) (t : FileTree) : Option State := (load c t).toOption.map unnumbered

theorem told?_eq_some_iff {t : FileTree} {name : String} {b : Backup} :
    told? c t name = some b ↔ recorded c.logs (entryOf t c.logs name) = .ok (some b) := by
  rw [told?]
  cases recorded c.logs (entryOf t c.logs name) <;> simp [Except.toOption]

theorem plain_told (t : FileTree) (n : Nat) (names : List String) :
    (told c.logs n (names.map (entryOf t c.logs))).map Record.unnumbered =
      (names.filterMap (told? c t)).map plain := by
  induction names generalizing n with
  | nil => rfl
  | cons name names ih =>
    rw [List.map_cons, told, List.filterMap_cons, told?]
    rcases recorded c.logs (entryOf t c.logs name) with f | _ | b <;> simp [Except.toOption, ih]
    rfl

/-- What loading comes to is settled by the backups that the logs tell. -/
theorem loaded?_eq_some_iff {t : FileTree} {s : State} : loaded? c t = some s ↔
    ∃ names, t.list c.logs = .ok names ∧ (∀ name ∈ names, Looked c t name) ∧
      s = stocked c (names.filterMap (told? c t)) := by
  have plainly (names : List String) :
      ((ofConfig c).fill (told c.logs 0 (names.map (entryOf t c.logs)))).unnumbered =
        stocked c (names.filterMap (told? c t)) := by
    rw [unnumbered_fill, unnumbered_ofConfig, plain_told, stocked]
  have succeeds : loaded? c t = some s ↔ ∃ u, load c t = .ok u ∧ u.unnumbered = s := by
    rw [loaded?]
    cases load c t <;> simp [Except.toOption]
  rw [succeeds]
  constructor
  · rintro ⟨u, loaded, rfl⟩
    obtain ⟨names, listed, looked, rfl⟩ := load_eq_ok_iff.1 loaded
    exact ⟨names, listed, looked, plainly names⟩
  · rintro ⟨names, listed, looked, rfl⟩
    exact ⟨_, load_eq_ok_iff.2 ⟨names, listed, looked, rfl⟩, plainly names⟩

theorem loaded?_of_list {t : FileTree} {names : List String} (listed : t.list c.logs = .ok names)
    {s : State} : loaded? c t = some s ↔
      (∀ name ∈ names, Looked c t name) ∧ s = stocked c (names.filterMap (told? c t)) := by
  rw [loaded?_eq_some_iff]
  constructor
  · rintro ⟨names', listed', known⟩
    obtain rfl := Except.ok.inj (listed.symm.trans listed')
    exact known
  · exact fun known => ⟨names, listed, known⟩

theorem loaded?_eq_none_iff {t : FileTree} {names : List String}
    (listed : t.list c.logs = .ok names) :
    loaded? c t = none ↔ ¬ ∀ name ∈ names, Looked c t name := by
  rw [Option.eq_none_iff_forall_ne_some]
  exact ⟨fun fails looked => fails _ ((loaded?_of_list listed).2 ⟨looked, rfl⟩),
    fun fails s loaded => fails ((loaded?_of_list listed).1 loaded).1⟩

/-- One log, which reports no failure. -/
def loneLog (name : String) : FileTree where
  nodes := [(["logs"], .dir), (["logs", name], .file .empty)]
  current := []
  changes := []

example : (loaded? oneVolume (loneLog "2024-1-5-d-h-v.log")).map backups =
    some [⟨"h", "v", "d", ⟨2024, 1, 5⟩, 0⟩] := by decide +kernel

end State

end BackupRetention
