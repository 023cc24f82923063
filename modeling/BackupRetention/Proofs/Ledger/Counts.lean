import BackupRetention.Keyed
import BackupRetention.Ledger.Basic
import Mathlib.Data.List.Basic

/-!
# Counts

What the figures of a ledger say about a device is the number of its complete backups among
the records, and a mark takes one from what remains there.

## Main definitions

* `Ledger.completeOn`: the complete backups on a device.
* `Ledger.Counted`: the figures count the records.
-/

namespace BackupRetention

namespace Figures

/-- The number of complete backups on a device. -/
def countOf (f : Figures) (device : String) : Nat :=
  match f.tally? device with
  | some t => t.count
  | none => 0

/-- How many complete backups remain on a device once the picked ones are gone. -/
def remainingOn (f : Figures) (device : String) : Nat :=
  match f.tally? device with
  | some t => t.remaining
  | none => 0

theorem fst_of_mem_countOn {device : String} {date : Date} {l : List (String × Tally)}
    {e : String × Tally} (he : e ∈ countOn device date l) :
    e.1 = device ∨ ∃ e' ∈ l, e'.1 = e.1 := by
  fun_induction countOn device date l with
  | case1 => exact .inl (by simp_all)
  | case2 d t rest h =>
    rcases List.mem_cons.1 he with rfl | he
    · exact .inl rfl
    · exact .inr ⟨e, he, rfl⟩
  | case3 t rest h =>
    rcases List.mem_cons.1 he with rfl | he
    · exact .inl rfl
    · exact .inr ⟨e, List.mem_cons_of_mem _ he, rfl⟩
  | case4 d t rest h hne ih =>
    rcases List.mem_cons.1 he with rfl | he
    · exact .inr ⟨_, List.mem_cons_self, rfl⟩
    · rcases ih he with hd | ⟨e', he', heq⟩
      · exact .inl hd
      · exact .inr ⟨e', List.mem_cons_of_mem _ he', heq⟩

theorem sorted_countOn {device : String} {date : Date} {l : List (String × Tally)}
    (h : Keyed.Sorted l) : Keyed.Sorted (countOn device date l) := by
  fun_induction countOn device date l with
  | case1 => exact List.pairwise_singleton _ _
  | case2 d t rest hlt =>
    refine List.pairwise_cons.2 ⟨?_, h⟩
    intro e he
    rcases List.mem_cons.1 he with rfl | he
    · exact hlt
    · exact String.lt_trans hlt ((List.pairwise_cons.1 h).1 e he)
  | case3 t rest hlt =>
    obtain ⟨first, others⟩ := List.pairwise_cons.1 h
    exact List.pairwise_cons.2 ⟨first, others⟩
  | case4 d t rest hlt hne ih =>
    obtain ⟨first, others⟩ := List.pairwise_cons.1 h
    refine List.pairwise_cons.2 ⟨?_, ih others⟩
    intro e he
    rcases fst_of_mem_countOn he with hd | ⟨e', he', heq⟩
    · rw [hd]
      by_contra hle
      exact hne (String.le_antisymm (String.not_lt.1 hlt) (String.not_lt.1 hle))
    · rw [← heq]
      exact first e' he'

theorem lookup_cons_ite (k d : String) (t : Tally) (l : List (String × Tally)) :
    List.lookup k ((d, t) :: l) = if k = d then some t else l.lookup k := by
  rw [List.lookup_cons]
  by_cases hk : k = d
  · simp [hk]
  · simp [beq_false_of_ne hk, hk]

/-- What stands behind a device has a later name. -/
theorem lookup_eq_none_of_lt {device : String} {l : List (String × Tally)}
    (h : ∀ e ∈ l, device < e.1) : l.lookup device = none := by
  apply List.lookup_eq_none_iff.2
  intro e he
  simpa using String.ne_of_lt (h e he)

/-- A complete backup more is counted on its own device only. -/
theorem lookup_countOn {device : String} {date : Date} {l : List (String × Tally)}
    (h : Keyed.Sorted l) (k : String) :
    (countOn device date l).lookup k =
      if k = device then
        some (match l.lookup device with
          | none => Tally.first date
          | some t => t.extend date)
      else l.lookup k := by
  fun_induction countOn device date l with
  | case1 => simp [lookup_cons_ite]
  | case2 d t rest hlt =>
    have later : ∀ e ∈ (d, t) :: rest, device < e.1 := by
      intro e he
      rcases List.mem_cons.1 he with rfl | he
      · exact hlt
      · exact String.lt_trans hlt ((List.pairwise_cons.1 h).1 e he)
    rw [lookup_eq_none_of_lt later, lookup_cons_ite]
  | case3 t rest hlt =>
    simp only [lookup_cons_ite]
    by_cases hk : k = device <;> simp [hk]
  | case4 d t rest hlt hne ih =>
    simp only [lookup_cons_ite, ih (List.pairwise_cons.1 h).2, if_neg (Ne.symm hne)]
    by_cases hk : k = device
    · simp [hk, Ne.symm hne]
    · simp [hk]

theorem countOf_extend {f : Figures} (h : Keyed.Sorted f.devices) (r : Record) (device : String) :
    (f.extend r).countOf device = f.countOf device + if r.device = device then 1 else 0 := by
  simp only [countOf, tally?, extend, lookup_countOn h]
  by_cases hd : device = r.device
  · subst hd
    cases f.devices.lookup r.device <;> simp [Tally.first, Tally.extend]
  · simp [hd, Ne.symm hd]

/-- Figures count the complete backups of the records. -/
theorem countOf_ofRecords (records : List Record) (device : String) :
    (ofRecords records).countOf device =
      (records.filter fun r => r.isComplete ∧ r.device = device).length := by
  have counts : ∀ (rs : List Record) (f : Figures), Keyed.Sorted f.devices →
      (rs.foldl extend f).countOf device =
        f.countOf device + (rs.filter fun r => r.device = device).length := by
    intro rs
    induction rs with
    | nil => exact fun f _ => rfl
    | cons r rs ih =>
      intro f hf
      rw [List.foldl_cons, ih _ (sorted_countOn hf), countOf_extend hf]
      by_cases hd : r.device = device
      · simp [hd]
        omega
      · simp [hd]
  have := counts (records.filter Record.isComplete) zero .nil
  rw [ofRecords, this, List.filter_filter]
  simp [zero, countOf, tally?, and_comm]

theorem lookup_map (change : String → Tally → Tally) (l : List (String × Tally)) (k : String) :
    (l.map fun e => (e.1, change e.1 e.2)).lookup k = (l.lookup k).map (change k) := by
  induction l with
  | nil => rfl
  | cons e l ih =>
    rw [List.map_cons, lookup_cons_ite, lookup_cons_ite, ih]
    by_cases hk : k = e.1 <;> simp [hk]

theorem tally?_mark (f : Figures) (device k : String) :
    (f.mark device).tally? k = (f.tally? k).map fun t =>
      if k = device then { t with marked := t.marked + 1 } else t := by
  have same : (f.mark device).devices = f.devices.map fun e =>
      (e.1, if e.1 = device then { e.2 with marked := e.2.marked + 1 } else e.2) := by
    apply List.map_congr_left
    intro e _
    split <;> rfl
  rw [tally?, same,
    lookup_map fun d t => if d = device then { t with marked := t.marked + 1 } else t]
  rfl

theorem tally?_clearMarks (f : Figures) (k : String) :
    f.clearMarks.tally? k = (f.tally? k).map fun t => { t with marked := 0 } :=
  lookup_map (fun _ t => { t with marked := 0 }) f.devices k

@[simp] theorem countOf_mark (f : Figures) (device k : String) :
    (f.mark device).countOf k = f.countOf k := by
  rw [countOf, tally?_mark, countOf]
  cases f.tally? k with
  | none => rfl
  | some t => by_cases hk : k = device <;> simp [hk]

@[simp] theorem countOf_clearMarks (f : Figures) (k : String) :
    f.clearMarks.countOf k = f.countOf k := by
  rw [countOf, tally?_clearMarks, countOf]
  cases f.tally? k <;> rfl

/-- A mark takes one from what remains on its own device. -/
theorem remainingOn_mark (f : Figures) (device k : String) :
    (f.mark device).remainingOn k = f.remainingOn k - if k = device then 1 else 0 := by
  rw [remainingOn, tally?_mark, remainingOn]
  cases f.tally? k with
  | none => simp
  | some t =>
    by_cases hk : k = device
    · simp only [Option.map_some, hk, if_true, Tally.remaining]
      omega
    · simp [hk]

/-- Without marks all complete backups remain. -/
theorem remainingOn_clearMarks (f : Figures) (k : String) :
    f.clearMarks.remainingOn k = f.countOf k := by
  rw [remainingOn, tally?_clearMarks, countOf]
  cases f.tally? k with
  | none => rfl
  | some t => simp [Tally.remaining]

end Figures

namespace Ledger

/-- The complete backups on a device. -/
def completeOn (l : Ledger) (device : String) : List Record :=
  l.records.filter fun r => r.isComplete ∧ r.device = device

@[simp] theorem mem_completeOn {l : Ledger} {device : String} {r : Record} :
    r ∈ l.completeOn device ↔ r ∈ l.records ∧ r.isComplete = true ∧ r.device = device := by
  simp [completeOn]

/-- The figures count the records. -/
def Counted (l : Ledger) : Prop :=
  ∀ device, l.figures.countOf device = (l.completeOn device).length

theorem counted_empty : Counted empty := fun _ => rfl

theorem counted_recount (records : List Record) : Counted (recount records) :=
  Figures.countOf_ofRecords records

theorem Counted.mark {l : Ledger} (h : Counted l) (device : String) : Counted (l.mark device) :=
  fun k => (Figures.countOf_mark l.figures device k).trans (h k)

theorem Counted.clearMarks {l : Ledger} (h : Counted l) : Counted l.clearMarks :=
  fun k => (Figures.countOf_clearMarks l.figures k).trans (h k)

theorem Counted.remove {l : Ledger} (h : Counted l) (r : Record) : Counted (l.remove r).2 := by
  unfold Ledger.remove
  split
  · exact counted_recount _
  · exact h

end Ledger

end BackupRetention
