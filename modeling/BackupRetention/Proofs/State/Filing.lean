import BackupRetention.Proofs.Ledger.Order
import BackupRetention.State.Basic

/-!
# Filing

A state that has only been filled files every record under the first volume that it names.
So no record stands in two volumes.

## Main definitions

* `State.fill`: a state with more records.
* `State.Shelved`: every record is in its place.
* `State.Filed`: what filling a state with valid dates keeps.
-/

namespace BackupRetention

namespace State

/-- Files records one after the other. -/
def fill (s : State) (rs : List Record) : State :=
  rs.foldl (fun s r => (s.add r).2) s

/-- Where a volume comes from when one of them has been worked on. -/
theorem mem_onVolume {host name : String} {work : Ledger → Bool × Ledger} {vs : List Volume}
    {u : Volume} (hu : u ∈ (onVolume host name work vs).2) :
    u ∈ vs ∨ ∃ v ∈ vs, v.host = host ∧ v.name = name ∧
      u = { v with ledger := (work v.ledger).2 } := by
  induction vs with
  | nil => exact .inl hu
  | cons v vs ih =>
    by_cases hv : v.host = host ∧ v.name = name
    · rw [onVolume, if_pos hv] at hu
      rcases List.mem_cons.1 hu with rfl | hu
      · exact .inr ⟨v, List.mem_cons_self, hv.1, hv.2, rfl⟩
      · exact .inl (List.mem_cons_of_mem _ hu)
    · rw [onVolume, if_neg hv] at hu
      rcases List.mem_cons.1 hu with rfl | hu
      · exact .inl List.mem_cons_self
      · rcases ih hu with hu | ⟨v, hv, h⟩
        · exact .inl (List.mem_cons_of_mem _ hu)
        · exact .inr ⟨v, List.mem_cons_of_mem _ hv, h⟩

/-- No record stands in two volumes. -/
def Apart (vs : List Volume) : Prop :=
  vs.Pairwise fun v u => ∀ r ∈ v.ledger.records, r ∉ u.ledger.records

/-- A record that stands in two volumes shows that they are the same. -/
theorem Apart.eq {vs : List Volume} (h : Apart vs) {v u : Volume} (hv : v ∈ vs) (hu : u ∈ vs)
    {r : Record} (hrv : r ∈ v.ledger.records) (hru : r ∈ u.ledger.records) : v = u := by
  have : Std.Symm fun v u : Volume => ∀ r ∈ v.ledger.records, r ∉ u.ledger.records :=
    ⟨fun v u h r hru hrv => h r hrv hru⟩
  by_contra hne
  exact h.forall hv hu hne r hrv hru

/-- Work that files no new record keeps records apart. -/
theorem Apart.onVolume {vs : List Volume} (h : Apart vs) (host name : String)
    {work : Ledger → Bool × Ledger} (sub : ∀ l, (work l).2.records ⊆ l.records) :
    Apart (onVolume host name work vs).2 := by
  induction vs with
  | nil => exact h
  | cons v vs ih =>
    obtain ⟨here, there⟩ := List.pairwise_cons.1 h
    by_cases hv : v.host = host ∧ v.name = name
    · rw [State.onVolume, if_pos hv]
      exact List.pairwise_cons.2 ⟨fun u hu r hr => here u hu r (sub _ hr), there⟩
    · rw [State.onVolume, if_neg hv]
      refine List.pairwise_cons.2 ⟨?_, ih there⟩
      intro u hu r hr
      rcases mem_onVolume hu with hu | ⟨w, hw, -, -, rfl⟩
      · exact here u hu r hr
      · exact fun hru => here w hw r hr (sub _ hru)

/-- Records stand in order, every one in the first volume that it names. -/
structure Shelved (vs : List Volume) : Prop where
  ordered : ∀ v ∈ vs, v.ledger.records.Pairwise (· < ·)
  named : ∀ v ∈ vs, ∀ r ∈ v.ledger.records, r.backup.host = v.host ∧ r.backup.volume = v.name
  first : vs.Pairwise fun v u => v.host = u.host → v.name = u.name → u.ledger.records = []

theorem Shelved.apart {vs : List Volume} (h : Shelved vs) : Apart vs := by
  refine h.first.imp_of_mem fun {v u} hv hu first r hrv hru => ?_
  obtain ⟨hostv, namev⟩ := h.named v hv r hrv
  obtain ⟨hostu, nameu⟩ := h.named u hu r hru
  have none := first (hostv.symm.trans hostu) (namev.symm.trans nameu)
  rw [none] at hru
  exact List.not_mem_nil hru

theorem ledger_of_ofConfig (c : Config) : ∀ v ∈ (ofConfig c).volumes, v.ledger = Ledger.empty := by
  intro v hv
  obtain ⟨⟨host, h⟩, -, hv⟩ := List.mem_flatMap.1 hv
  obtain ⟨⟨name, w⟩, -, rfl⟩ := List.mem_map.1 hv
  rfl

theorem shelved_ofConfig (c : Config) : Shelved (ofConfig c).volumes := by
  have empty := ledger_of_ofConfig c
  refine ⟨?_, ?_, ?_⟩
  · intro v hv
    rw [empty v hv]
    exact .nil
  · intro v hv r hr
    rw [empty v hv] at hr
    exact absurd hr List.not_mem_nil
  · refine List.Pairwise.imp_of_mem (R := fun _ _ => True) (fun {v u} _ hu _ _ _ => ?_) ?_
    · rw [empty u hu]
      rfl
    · exact List.pairwise_of_forall fun _ _ => trivial

theorem Shelved.add {vs : List Volume} (h : Shelved vs) (r : Record) :
    Shelved (onVolume r.backup.host r.backup.volume (·.add r) vs).2 where
  ordered := by
    intro u hu
    rcases mem_onVolume hu with hu | ⟨v, hv, -, -, rfl⟩
    · exact h.ordered u hu
    · exact Ledger.pairwise_file (h.ordered v hv)
  named := by
    intro u hu x hx
    rcases mem_onVolume hu with hu | ⟨v, hv, host, name, rfl⟩
    · exact h.named u hu x hx
    · rcases Ledger.mem_file hx with rfl | hx
      · exact ⟨host.symm, name.symm⟩
      · exact h.named v hv x hx
  first := by
    have first := h.first
    clear h
    induction vs with
    | nil => exact first
    | cons v vs ih =>
      obtain ⟨here, there⟩ := List.pairwise_cons.1 first
      by_cases hv : v.host = r.backup.host ∧ v.name = r.backup.volume
      · rw [onVolume, if_pos hv]
        exact List.pairwise_cons.2 ⟨here, there⟩
      · rw [onVolume, if_neg hv]
        refine List.pairwise_cons.2 ⟨?_, ih there⟩
        intro u hu host name
        rcases mem_onVolume hu with hu | ⟨w, hw, hostw, namew, rfl⟩
        · exact here u hu host name
        · exact absurd ⟨host.trans hostw, name.trans namew⟩ hv

/-- What is filed has valid dates, and the figures are right. -/
structure Filed (vs : List Volume) : Prop extends Shelved vs where
  sound : ∀ v ∈ vs, v.ledger.Sound

theorem filed_ofConfig (c : Config) : Filed (ofConfig c).volumes where
  toShelved := shelved_ofConfig c
  sound := by
    intro v hv
    rw [ledger_of_ofConfig c v hv]
    exact Ledger.sound_empty

theorem Filed.add {vs : List Volume} (h : Filed vs) {r : Record} (hr : r.date.Valid) :
    Filed (onVolume r.backup.host r.backup.volume (·.add r) vs).2 where
  toShelved := h.toShelved.add r
  sound := by
    intro u hu
    rcases mem_onVolume hu with hu | ⟨v, hv, -, -, rfl⟩
    · exact h.sound u hu
    · exact (h.sound v hv).add hr

/-- A state that was filled with valid dates files its records. -/
theorem filed_fill (c : Config) {rs : List Record} (hrs : ∀ r ∈ rs, r.date.Valid) :
    Filed ((ofConfig c).fill rs).volumes := by
  have adds : ∀ s : State, Filed s.volumes → Filed (s.fill rs).volumes := by
    induction rs with
    | nil => exact fun s h => h
    | cons r rs ih =>
      intro s h
      have others : ∀ x ∈ rs, x.date.Valid := fun x hx => hrs x (List.mem_cons_of_mem _ hx)
      exact ih others _ (h.add (hrs r List.mem_cons_self))
  exact adds _ (filed_ofConfig c)

end State

end BackupRetention
