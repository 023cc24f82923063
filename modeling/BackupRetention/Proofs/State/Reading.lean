import BackupRetention.Proofs.State.Shelves
import BackupRetention.State.Loading

/-!
# Reading logs

What a directory of logs tells, as a set of backups. Two directories that hold the same logs tell
the same, and a log less is a backup less.

## Main definitions

* `State.told`: the records that a listing tells.
* `State.Canonical`: every log has the name of the backup that it records.

## Main results

* `State.load_eq_ok_iff`: when loading succeeds, and with what.
* `State.load_again`: loading once some of the logs are gone.
-/

namespace BackupRetention

namespace State

/-! ## Listings -/

/-- The records that the entries of a listing tell, numbered from some number on. -/
def told (logs : String) : Nat → List Listed → List Record
  | _, [] => []
  | n, e :: rest =>
    match recorded logs e with
    | .ok (some b) => ⟨b, n⟩ :: told logs (n + 1) rest
    | _ => told logs (n + 1) rest

variable {logs : String} {entries : List Listed} {s u : State}

theorem fileAll_eq_ok_iff (n : Nat) : fileAll logs n s entries = .ok u ↔
    (∀ e ∈ entries, ∃ b, recorded logs e = .ok b) ∧ u = s.fill (told logs n entries) := by
  induction entries generalizing n s with
  | nil => simp [fileAll, told, fill, eq_comm]
  | cons e entries ih =>
    rw [fileAll, told]
    cases h : recorded logs e with
    | error f => simp [h]
    | ok b =>
      cases b with
      | none => simp [h, ih]
      | some b => simp [h, ih, fill]

theorem mem_told {n : Nat} {r : Record} (h : r ∈ told logs n entries) :
    ∃ e ∈ entries, recorded logs e = .ok (some r.backup) := by
  induction entries generalizing n with
  | nil => cases h
  | cons e entries ih =>
    rw [told] at h
    split at h
    · next b hb =>
      rcases List.mem_cons.1 h with rfl | h
      · exact ⟨e, List.mem_cons_self, hb⟩
      · obtain ⟨x, hx, hr⟩ := ih h
        exact ⟨x, List.mem_cons_of_mem _ hx, hr⟩
    · obtain ⟨x, hx, hr⟩ := ih h
      exact ⟨x, List.mem_cons_of_mem _ hx, hr⟩

/-- The backups that a listing tells are those that its entries record. -/
theorem mem_backups_told {n : Nat} {b : Backup} :
    b ∈ (told logs n entries).map Record.backup ↔
      ∃ e ∈ entries, recorded logs e = .ok (some b) := by
  constructor
  · intro h
    obtain ⟨r, hr, rfl⟩ := List.mem_map.1 h
    exact mem_told hr
  · rintro ⟨e, he, hb⟩
    induction entries generalizing n with
    | nil => cases he
    | cons x entries ih =>
      rw [told]
      rcases List.mem_cons.1 he with rfl | he
      · simp [hb]
      · have rest := ih (n := n + 1) he
        split
        · exact List.mem_cons_of_mem _ rest
        · exact rest

/-- Every log has the name of the backup that it records. -/
def Canonical (logs : String) (entries : List Listed) : Prop :=
  ∀ e ∈ entries, ∀ b, recorded logs e = .ok (some b) → e.name = b.logName

instance : Decidable (Canonical logs entries) :=
  decidable_of_iff (∀ e ∈ entries, (match recorded logs e with
      | .ok (some b) => decide (e.name = b.logName)
      | _ => true) = true) <| by
    refine forall₂_congr fun e _ => ?_
    split
    · next b told => simp [told]
    · next other => exact ⟨fun _ b told => absurd told (other b), fun _ => rfl⟩

/-- An entry that is no log of a backup tells nothing. -/
theorem recorded_of_label?_eq_none {e : Listed} (h : LogFile.label? e.name = none) :
    recorded logs e = .ok none := by
  rw [recorded, h]

theorem label?_ne_none_of_recorded {e : Listed} {b : Backup} (h : recorded logs e = .ok (some b)) :
    LogFile.label? e.name ≠ none := by
  intro none
  rw [recorded_of_label?_eq_none none] at h
  cases h

/-- A log that tells something could be read. -/
theorem exists_content_of_recorded {e : Listed} {b : Option Backup}
    (log : LogFile.label? e.name ≠ none) (h : recorded logs e = .ok b) :
    ∃ text, e.content = .ok text := by
  unfold recorded at h
  generalize LogFile.label? e.name = label at log h
  cases label with
  | none => exact absurd rfl log
  | some label =>
    dsimp only at h
    generalize within "read_state" (dated (Date.ofText label.dateText)) = date at h
    cases date with
    | error f => cases h
    | ok date =>
      cases content : e.content with
      | error f => simp [content] at h
      | ok text => exact ⟨text, rfl⟩

/-! ## Directories -/

/-- An entry of the directory at `logs`. -/
def entryOf (t : FileTree) (logs name : String) : Listed :=
  ⟨name, t.readText (Path.join logs name)⟩

theorem load_eq_ok_iff {c : Config} {t : FileTree} : load c t = .ok s ↔
    ∃ names, t.list c.logs = .ok names ∧
      (∀ name ∈ names, ∃ b, recorded c.logs (entryOf t c.logs name) = .ok b) ∧
      s = (ofConfig c).fill (told c.logs 0 (names.map (entryOf t c.logs))) := by
  unfold load listed
  cases h : t.list c.logs with
  | error e => simp
  | ok names =>
    have filed := @fileAll_eq_ok_iff c.logs (names.map (entryOf t c.logs)) (ofConfig c) s 0
    rw [List.forall_mem_map] at filed
    constructor
    · exact fun loaded => ⟨names, rfl, filed.1 loaded⟩
    · rintro ⟨_, same, rest⟩
      rw [← Except.ok.inj same] at rest
      exact filed.2 rest

theorem consistent_told {t : FileTree} {names : List String} {n : Nat}
    (canonical : Canonical logs (names.map (entryOf t logs))) :
    Consistent (told logs n (names.map (entryOf t logs))) := by
  intro x hx y hy key host volume
  obtain ⟨e, he, hex⟩ := mem_told hx
  obtain ⟨f, hf, hfy⟩ := mem_told hy
  have namex := canonical e he _ hex
  have namey := canonical f hf _ hfy
  obtain ⟨name, -, rfl⟩ := List.mem_map.1 he
  obtain ⟨name', -, rfl⟩ := List.mem_map.1 hf
  have date : x.backup.date = y.backup.date := key.1
  have device : x.backup.device = y.backup.device := key.2
  have same : x.backup.logName = y.backup.logName := by
    rw [Backup.logName, Backup.logName, date, device, host, volume]
  obtain rfl : name = name' := namex.trans (same.trans namey.symm)
  rw [hex] at hfy
  exact (Option.some.inj (Except.ok.inj hfy)).symm

/-- Loading again when some logs are gone, and no other log has changed or appeared, gives what
was loaded before without the backups of these logs. -/
theorem load_again {c : Config} {t u : FileTree} (loaded : load c t = .ok s)
    {names names' : List String} (listed : t.list c.logs = .ok names)
    (listed' : u.list c.logs = .ok names')
    (canonical : Canonical c.logs (names.map (entryOf t c.logs)))
    (kept : ∀ name ∈ names', LogFile.label? name ≠ none →
      name ∈ names ∧ entryOf u c.logs name = entryOf t c.logs name) {gone : List Backup}
    (left : ∀ name ∈ names, ∀ b, recorded c.logs (entryOf t c.logs name) = .ok (some b) →
      (name ∈ names' ↔ b ∉ gone)) :
    ∃ v, load c u = .ok v ∧ v.shelves = s.shelves.map (·.without gone) := by
  obtain ⟨_, hn, all, rfl⟩ := load_eq_ok_iff.1 loaded
  obtain rfl := Except.ok.inj (listed.symm.trans hn)
  have from_t {name : String} (hname : name ∈ names') {b : Backup}
      (hb : recorded c.logs (entryOf u c.logs name) = .ok (some b)) :
      name ∈ names ∧ recorded c.logs (entryOf t c.logs name) = .ok (some b) := by
    obtain ⟨here, same⟩ := kept name hname
      (label?_ne_none_of_recorded (e := entryOf u c.logs name) hb)
    rw [same] at hb
    exact ⟨here, hb⟩
  have canonical' : Canonical c.logs (names'.map (entryOf u c.logs)) := by
    intro e he b hb
    obtain ⟨name, hname, rfl⟩ := List.mem_map.1 he
    obtain ⟨here, hb⟩ := from_t hname hb
    exact canonical _ (List.mem_map_of_mem here) b hb
  refine ⟨_, load_eq_ok_iff.2 ⟨names', listed', fun name hname => ?_, rfl⟩, ?_⟩
  · by_cases log : LogFile.label? name = none
    · exact ⟨none, recorded_of_label?_eq_none log⟩
    · obtain ⟨here, same⟩ := kept name hname log
      rw [same]
      exact all name here
  · refine shelves_fill c (consistent_told canonical) (consistent_told canonical') fun b => ?_
    rw [mem_backups_told, mem_backups_told]
    constructor
    · rintro ⟨e, he, hb⟩
      obtain ⟨name, hname, rfl⟩ := List.mem_map.1 he
      obtain ⟨here, hb⟩ := from_t hname hb
      exact ⟨⟨_, List.mem_map_of_mem here, hb⟩, (left name here b hb).1 hname⟩
    · rintro ⟨⟨e, he, hb⟩, stays⟩
      obtain ⟨name, hname, rfl⟩ := List.mem_map.1 he
      have still := (left name hname b hb).2 stays
      obtain ⟨-, same⟩ := kept name still
        (label?_ne_none_of_recorded (e := entryOf t c.logs name) hb)
      rw [← same] at hb
      exact ⟨_, List.mem_map_of_mem still, hb⟩

end State

end BackupRetention
