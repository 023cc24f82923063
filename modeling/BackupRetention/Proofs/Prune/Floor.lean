import BackupRetention.Proofs.Prune.Attempts
import BackupRetention.Proofs.Prune.Selection
import BackupRetention.Proofs.State.Filing

/-!
# The floor of retention

A removal that has failed may have damaged a backup that still counts as complete. Yet on
every device enough complete backups stay that no pass has touched: what passes try to remove
on a device are always its oldest backups, so a later pass meets those that an earlier one
has tried before it meets any others.

## Main definitions

* `Volume.Floored`: the tried backups are the oldest ones, and enough are not tried.
* `Pass.runAll`: passes one after another, with all that they have tried to remove.

## Main results

* `Pass.floor_kept`: the floor holds after any passes.
-/

namespace BackupRetention

namespace Volume

/-- Compared with the volume `v₀` at the start, what has been tried in `v` are the oldest
complete backups of each device, and as many as the policy asks for have not been tried. -/
structure Floored (tried : List Record) (v v₀ : Volume) : Prop where
  host : v.host = v₀.host
  name : v.name = v₀.name
  minBackups : v.minBackups = v₀.minBackups
  sound : v.ledger.Sound
  oldest : ∀ device, ∀ a ∈ v.ledger.completeOn device, ∀ b ∈ v.ledger.completeOn device,
    a.date < b.date → b ∈ tried → a ∈ tried
  floor : ∀ device, min v.minBackups (v₀.ledger.completeOn device).length ≤
    ((v.ledger.completeOn device).filter (· ∉ tried)).length

namespace Floored

variable {tried : List Record} {v v₀ : Volume}

theorem start (h : v.ledger.Sound) : v.Floored [] v where
  host := rfl
  name := rfl
  minBackups := rfl
  sound := h
  oldest := fun _ _ _ _ _ _ hb => absurd hb List.not_mem_nil
  floor := by
    intro device
    simp only [List.not_mem_nil, not_false_eq_true, decide_true, List.filter_true]
    exact Nat.min_le_right _ _

/-- A selection leaves the records as they are. -/
theorem select (h : v.Floored tried v₀) (mode : PruneMode) (today : Date) :
    (v.select mode today).2.Floored tried v₀ := by
  have same (device : String) : (v.select mode today).2.ledger.completeOn device =
      v.ledger.completeOn device := by
    rw [Ledger.completeOn, Ledger.completeOn, select_records]
  refine ⟨h.host, h.name, h.minBackups, v.sound_select today mode h.sound, ?_, ?_⟩
  · intro device
    rw [same]
    exact h.oldest device
  · intro device
    rw [same]
    exact h.floor device

/-- Dropping what has been tried takes nothing from what has not. -/
theorem remove (h : v.Floored tried v₀) {r : Record} (hr : r ∈ tried) :
    ({ v with ledger := (v.ledger.remove r).2 } : Volume).Floored tried v₀ := by
  have fewer (device : String) : (v.ledger.remove r).2.completeOn device =
      (v.ledger.completeOn device).filter (· ≠ r) := by
    rw [Ledger.completeOn, Ledger.completeOn, Ledger.records_remove, List.filter_comm]
  refine ⟨h.host, h.name, h.minBackups, h.sound.remove r, ?_, ?_⟩
  · intro device a ha b hb
    rw [fewer] at ha hb
    exact h.oldest device a (List.mem_of_mem_filter ha) b (List.mem_of_mem_filter hb)
  · intro device
    rw [fewer, List.filter_filter]
    refine (h.floor device).trans (Nat.le_of_eq ?_)
    congr 1
    apply List.filter_congr
    intro x _
    by_cases hx : x = r
    · simp [hx, hr]
    · simp [hx]

section Attempt

variable {mode : PruneMode} {today : Date} {available : String → Bool} {more : List Record}

/-- What a pass tries on a device are its oldest backups. -/
theorem older_tried (h : v.Floored tried v₀)
    (hmore : ∀ r ∈ v.ledger.records,
      r ∈ more ↔ r ∈ (v.select mode today).1 ∧ available r.device = true)
    {device : String} {a b : Record} (ha : a ∈ v.ledger.completeOn device)
    (hb : b ∈ v.ledger.completeOn device) (hab : a.date < b.date) (hbm : b ∈ more) :
    a ∈ more := by
  obtain ⟨har, -, had⟩ := Ledger.mem_completeOn.1 ha
  obtain ⟨hbr, -, hbd⟩ := Ledger.mem_completeOn.1 hb
  obtain ⟨hbs, here⟩ := (hmore b hbr).1 hbm
  refine (hmore a har).2 ⟨v.mem_select_of_older_complete today h.sound ha hb hab hbs, ?_⟩
  rwa [had, ← hbd]

/-- If this pass tries a backup on a device that was not tried before, then what was tried
before is older, and this pass selects it again. -/
theorem tried_selected (h : v.Floored tried v₀) {device : String} {a b : Record}
    (ha : a ∈ v.ledger.completeOn device) (hb : b ∈ v.ledger.completeOn device)
    (hat : a ∈ tried) (hbt : b ∉ tried) (hbs : b ∈ (v.select mode today).1) :
    a ∈ (v.select mode today).1 := by
  obtain ⟨har, -, had⟩ := Ledger.mem_completeOn.1 ha
  obtain ⟨hbr, -, hbd⟩ := Ledger.mem_completeOn.1 hb
  rcases Date.lt_trichotomy a.date b.date with hab | heq | hba
  · exact v.mem_select_of_older_complete today h.sound ha hb hab hbs
  · have same := h.sound.eq_of_sameKey har hbr ⟨heq, had.trans hbd.symm⟩
    exact same ▸ hbs
  · exact absurd (h.oldest device b hb a ha hba hat) hbt

/-- What this pass tries on a device and what was tried before lie one within the other. So
either nothing more is tried there, or all that is tried is selected now, and a selection
leaves the minimum. -/
theorem attempt (h : v.Floored tried v₀)
    (hmore : ∀ r ∈ v.ledger.records,
      r ∈ more ↔ r ∈ (v.select mode today).1 ∧ available r.device = true) :
    v.Floored (tried ++ more) v₀ := by
  refine ⟨h.host, h.name, h.minBackups, h.sound, ?_, ?_⟩
  · intro device a ha b hb hab hbm
    rcases List.mem_append.1 hbm with hbt | hbm
    · exact List.mem_append_left _ (h.oldest device a ha b hb hab hbt)
    · exact List.mem_append_right _ (h.older_tried hmore ha hb hab hbm)
  · intro device
    by_cases covered : ∀ r ∈ v.ledger.completeOn device, r ∈ more → r ∈ tried
    · refine (h.floor device).trans (Nat.le_of_eq ?_)
      congr 1
      apply List.filter_congr
      intro r hr
      have := covered r hr
      simp only [List.mem_append]
      grind
    · push Not at covered
      obtain ⟨b, hb, hbm, hbt⟩ := covered
      have hbs := ((hmore b (Ledger.mem_completeOn.1 hb).1).1 hbm).1
      have left := v.minBackups_le_length_left today h.sound hb hbs
      have within : ∀ r ∈ v.ledger.completeOn device, r ∈ tried ++ more →
          r ∈ (v.select mode today).1 := by
        intro r hr hrt
        rcases List.mem_append.1 hrt with hrt | hrm
        · exact h.tried_selected hr hb hrt hbt hbs
        · exact ((hmore r (Ledger.mem_completeOn.1 hr).1).1 hrm).1
      refine (Nat.min_le_left _ _).trans (left.trans ?_)
      simp only [← List.countP_eq_length_filter]
      apply List.countP_mono_left
      intro r hr hrs
      simp only [decide_eq_true_eq] at hrs ⊢
      exact fun hrt => hrs (within r hr hrt)

end Attempt

end Floored

end Volume

namespace State

variable {tried : List Record} {vs vs₀ : List Volume}

/-- Volume by volume the floor holds, and no record stands in two volumes. -/
structure Floored (tried : List Record) (vs vs₀ : List Volume) : Prop where
  apart : Apart vs
  each : List.Forall₂ (Volume.Floored tried) vs vs₀

theorem Filed.floored (h : Filed vs) : Floored [] vs vs where
  apart := h.apart
  each := List.forall₂_same.2 fun v hv => .start (h.sound v hv)

theorem Floored.select (h : Floored tried vs vs₀) (mode : PruneMode) (today : Date) :
    Floored tried (selectIn mode today vs).2 vs₀ := by
  rw [selectIn_eq]
  refine ⟨?_, ?_⟩
  · refine List.pairwise_map.2 (h.apart.imp fun {v u} apart r hrv => ?_)
    rw [Volume.select_records] at hrv ⊢
    exact apart r hrv
  · exact List.forall₂_map_left_iff.2 (h.each.imp fun v v₀ hv => hv.select mode today)

theorem Floored.remove (h : Floored tried vs vs₀) {r : Record} (hr : r ∈ tried) :
    Floored tried (onVolume r.backup.host r.backup.volume (·.remove r) vs).2 vs₀ := by
  obtain ⟨apart, each⟩ := h
  refine ⟨apart.onVolume _ _ ?_, ?_⟩
  · intro l x hx
    rw [Ledger.records_remove] at hx
    exact List.mem_of_mem_filter hx
  · clear apart
    induction each with
    | nil => exact .nil
    | @cons v v₀ vs vs₀ hv each ih =>
      by_cases here : v.host = r.backup.host ∧ v.name = r.backup.volume
      · rw [onVolume, if_pos here]
        exact .cons (hv.remove hr) each
      · rw [onVolume, if_neg here]
        exact .cons hv ih

/-- A record is selected by its own volume. -/
theorem Floored.mem_selectIn_iff (h : Floored tried vs vs₀) {mode : PruneMode} {today : Date}
    {v : Volume} (hv : v ∈ vs) {r : Record} (hr : r ∈ v.ledger.records) :
    r ∈ (selectIn mode today vs).1 ↔ r ∈ (v.select mode today).1 := by
  have sound : ∀ u ∈ vs, u.ledger.Sound :=
    ((List.forall₂_and_left vs vs₀).1 (h.each.imp fun u u₀ hu => ⟨hu.sound, hu⟩)).1
  rw [selectIn_eq, List.mem_flatMap]
  constructor
  · rintro ⟨u, hu, hru⟩
    have same := h.apart.eq hv hu hr (u.mem_of_mem_select today (sound u hu) hru)
    rwa [same]
  · exact fun hrv => ⟨v, hv, hrv⟩

theorem Floored.attempt (h : Floored tried vs vs₀) {mode : PruneMode} {today : Date}
    {available : String → Bool} {more : List Record}
    (hmore : ∀ r, r ∈ more ↔ r ∈ (selectIn mode today vs).1 ∧ available r.device = true) :
    Floored (tried ++ more) vs vs₀ := by
  refine ⟨h.apart, ?_⟩
  have inside := (List.forall₂_and_left vs vs₀).2 ⟨fun v hv => hv, h.each⟩
  apply inside.imp
  rintro v v₀ ⟨hv, floored⟩
  have here : ∀ r ∈ v.ledger.records,
      r ∈ more ↔ r ∈ (v.select mode today).1 ∧ available r.device = true := by
    intro r hr
    rw [hmore, h.mem_selectIn_iff hv hr]
  exact floored.attempt here

end State

namespace Pass

/-- Passes one after another, each on any machine: the state they leave, and all that they
have handed over for removal. -/
def runAll (s : State) : List (Pass × Machine) → State × List Record
  | [] => (s, [])
  | (p, m) :: rest =>
    let (t, tried) := runAll (p.run s m).state rest
    (t, p.attempts s m ++ tried)

theorem dropAll_floored {tried : List Record} {s : State} {vs₀ : List Volume}
    (h : State.Floored tried s.volumes vs₀) {rs : List Record} (hrs : rs ⊆ tried) :
    State.Floored tried (dropAll s rs).volumes vs₀ := by
  induction rs generalizing s with
  | nil => exact h
  | cons r rs ih =>
    obtain ⟨hr, hrs⟩ := List.cons_subset.1 hrs
    exact ih (h.remove hr) hrs

/-- What a pass hands over is tried before it drops anything. -/
theorem run_floored {tried : List Record} {s : State} {vs₀ : List Volume}
    (h : State.Floored tried s.volumes vs₀) (p : Pass) (m : Machine) :
    State.Floored (tried ++ p.attempts s m) (p.run s m).state.volumes vs₀ := by
  cases htoday : p.today with
  | error f =>
    have none : p.attempts s m = [] := by simp [attempts, htoday]
    have same : (p.run s m).state = s := by simp [run, htoday]
    rwa [none, same, List.append_nil]
  | ok today =>
    obtain ⟨available, hmore⟩ := mem_attempts (s := s) (m := m) htoday
    obtain ⟨removed, handed, hstate⟩ := run_state (s := s) (m := m) htoday
    have tried := (h.attempt hmore).select p.mode today
    rw [hstate]
    exact dropAll_floored tried (List.Subset.trans handed (List.subset_append_right _ _))

theorem runAll_floored {tried : List Record} {s : State} {vs₀ : List Volume}
    (h : State.Floored tried s.volumes vs₀) (passes : List (Pass × Machine)) :
    State.Floored (tried ++ (runAll s passes).2) (runAll s passes).1.volumes vs₀ := by
  induction passes generalizing s tried with
  | nil => simpa [runAll] using h
  | cons pass passes ih =>
    have := ih (run_floored h pass.1 pass.2)
    rwa [List.append_assoc] at this

/-- After any passes, whatever their days, their modes, the devices they find and the outcome
of their removals, every volume has on every device as many complete backups that no pass has
handed over for removal as its policy asks for, or as there were complete backups at the
start. -/
theorem floor_kept (c : Config) (rs : List Record) (hrs : ∀ r ∈ rs, r.date.Valid)
    (passes : List (Pass × Machine)) :
    List.Forall₂ (fun v v₀ => v.host = v₀.host ∧ v.name = v₀.name ∧
        v.minBackups = v₀.minBackups ∧ ∀ device,
          min v₀.minBackups (v₀.ledger.completeOn device).length ≤
            ((v.ledger.completeOn device).filter
              (· ∉ (runAll ((State.ofConfig c).fill rs) passes).2)).length)
      (runAll ((State.ofConfig c).fill rs) passes).1.volumes
      ((State.ofConfig c).fill rs).volumes := by
  have filled := (State.filed_fill c hrs).floored
  apply (runAll_floored filled passes).each.imp
  intro v v₀ h
  exact ⟨h.host, h.name, h.minBackups, fun device => h.minBackups ▸ h.floor device⟩

/-- Three complete backups of one volume on one device. -/
def threeDays : List Record :=
  [⟨⟨"host1", "vol1", "dev0", ⟨2024, 1, 1⟩, 0⟩, 0⟩,
    ⟨⟨"host1", "vol1", "dev0", ⟨2024, 1, 2⟩, 0⟩, 1⟩,
    ⟨⟨"host1", "vol1", "dev0", ⟨2024, 2, 29⟩, 0⟩, 2⟩]

def oneVolume : Config where
  logs := "/"
  hosts := [("host1", { volumes := [("vol1", { path := "/", pruneAge := 3, minBackups := 2 })] })]

/-- A pass that can remove nothing. -/
def futile (today : Date) : Pass where
  config := oneVolume
  day := .given today
  runner := fun _ tree => (.ok 1, tree)
  identify := fun _ _ => some "/store"

/-- A later pass may not go on with the backups that an earlier one has left damaged. -/
theorem floor_kept_after_failures :
    (∀ r ∈ threeDays, r.date.Valid) ∧
    List.Forall₂ (fun v v₀ => v.host = v₀.host ∧ v.name = v₀.name ∧
        v.minBackups = v₀.minBackups ∧ ∀ device,
          min v₀.minBackups (v₀.ledger.completeOn device).length ≤
            ((v.ledger.completeOn device).filter
              (· ∉ (runAll ((State.ofConfig oneVolume).fill threeDays)
                [(futile ⟨2024, 1, 31⟩, .ofTree .empty),
                  (futile ⟨2024, 12, 31⟩, .ofTree .empty)]).2)).length)
      (runAll ((State.ofConfig oneVolume).fill threeDays)
        [(futile ⟨2024, 1, 31⟩, .ofTree .empty),
          (futile ⟨2024, 12, 31⟩, .ofTree .empty)]).1.volumes
      ((State.ofConfig oneVolume).fill threeDays).volumes := by
  have valid : ∀ r ∈ threeDays, r.date.Valid := by decide
  exact ⟨valid, floor_kept oneVolume threeDays valid _⟩

end Pass

end BackupRetention
