import BackupRetention.Proofs.State.Isolation

/-!
# Serial numbers

Serial numbers tell records apart and do nothing else: filing goes the same way without them, and
the figures do not depend on them.

## Main definitions

* `State.unnumbered`: a state without the serial numbers of its records.

## Main results

* `State.unnumbered_fill`: filing goes the same way without numbers.
-/

namespace BackupRetention

def Record.unnumbered (r : Record) : Record := { r with serial := 0 }

def Ledger.unnumbered (l : Ledger) : Ledger := { l with records := l.records.map Record.unnumbered }

def Volume.unnumbered (v : Volume) : Volume := { v with ledger := v.ledger.unnumbered }

/-- The figures count backups, whatever the numbers of their records. -/
theorem Figures.ofRecords_unnumbered (rs : List Record) :
    ofRecords (rs.map Record.unnumbered) = ofRecords rs := by
  simp only [ofRecords, List.filter_map, List.foldl_map]
  rfl

namespace Ledger

theorem file_unnumbered (r : Record) (rs : List Record) :
    file r.unnumbered (rs.map Record.unnumbered) =
      ((file r rs).1, (file r rs).2.map Record.unnumbered) := by
  have before (x y : Record) : x.unnumbered < y.unnumbered ↔ x < y := Iff.rfl
  have same (x y : Record) : x.unnumbered.SameKey y.unnumbered ↔ x.SameKey y := Iff.rfl
  fun_induction file r rs with
  | case1 => rfl
  | case2 x xs lt => simp [file, before, lt]
  | case3 x xs notLt key => simp [file, before, same, notLt, key]
  | case4 x xs notLt key filed ys rest ih =>
    rw [rest] at ih
    simp [file, before, same, notLt, key, ih]

theorem add_unnumbered (l : Ledger) (r : Record) :
    l.unnumbered.add r.unnumbered = ((l.add r).1, (l.add r).2.unnumbered) := by
  simp [add, unnumbered, recount, file_unnumbered, Figures.ofRecords_unnumbered]

end Ledger

namespace State

def unnumbered (s : State) : State := ⟨s.volumes.map Volume.unnumbered⟩

theorem onVolume_unnumbered {host name : String} {work work' : Ledger → Bool × Ledger}
    (same : ∀ l, work' l.unnumbered = ((work l).1, (work l).2.unnumbered)) (vs : List Volume) :
    onVolume host name work' (vs.map Volume.unnumbered) =
      ((onVolume host name work vs).1, (onVolume host name work vs).2.map Volume.unnumbered) := by
  induction vs with
  | nil => rfl
  | cons v vs ih =>
    have cons : (v :: vs).map Volume.unnumbered = v.unnumbered :: vs.map Volume.unnumbered := rfl
    by_cases own : v.host = host ∧ v.name = name
    · have own' : v.unnumbered.host = host ∧ v.unnumbered.name = name := own
      have done : work' v.unnumbered.ledger = _ := same v.ledger
      rw [cons, onVolume_cons_of_pos own, onVolume_cons_of_pos own', reworked, done]
      rfl
    · have other : ¬ (v.unnumbered.host = host ∧ v.unnumbered.name = name) := own
      rw [cons, onVolume_cons_of_neg own, onVolume_cons_of_neg other, ih]
      rfl

theorem unnumbered_add (s : State) (r : Record) :
    (s.add r).2.unnumbered = (s.unnumbered.add r.unnumbered).2 := by
  have filed := @onVolume_unnumbered r.backup.host r.backup.volume (Ledger.add · r)
    (Ledger.add · r.unnumbered) (Ledger.add_unnumbered · r) s.volumes
  exact congrArg (fun done => State.mk done.2) filed.symm

/-- Filing goes the same way without numbers. -/
theorem unnumbered_fill (s : State) (rs : List Record) :
    (s.fill rs).unnumbered = s.unnumbered.fill (rs.map Record.unnumbered) := by
  induction rs generalizing s with
  | nil => rfl
  | cons r rs ih => exact (ih _).trans (congrArg (fill · _) (s.unnumbered_add r))

theorem unnumbered_ofConfig (c : Config) : (ofConfig c).unnumbered = ofConfig c := by
  have empty := ledger_of_ofConfig c
  have kept : ∀ v ∈ (ofConfig c).volumes, v.unnumbered = v := fun v hv => by
    obtain ⟨host, name, pruneAge, minBackups, l⟩ := v
    obtain rfl : l = Ledger.empty := empty _ hv
    rfl
  rw [unnumbered, List.map_congr_left kept, List.map_id']

end State

end BackupRetention
