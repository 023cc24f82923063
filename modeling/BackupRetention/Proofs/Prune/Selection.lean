import BackupRetention.Proofs.Calendar.DayNumber
import BackupRetention.Proofs.Ledger.Order
import BackupRetention.Prune.Selection
import Mathlib.Data.List.Perm.Subperm

/-!
# What is selected

A selection looks at each device on its own: of the expired records there, complete or not,
it takes the first ones, as many as there are complete backups above the minimum. Since the
expired records are the oldest ones, so are those that are taken.

## Main results

* `Volume.pickAll_on`: what is taken on a device.
* `Volume.picked_of_older`: with a record everything older on its device is taken.
-/

namespace BackupRetention

namespace Volume

variable (v : Volume) (today : Date)

theorem remaining_mark (l : Ledger) (device k : String) :
    remaining (l.mark device) k = remaining l k - if k = device then 1 else 0 :=
  Figures.remainingOn_mark l.figures device k

/-- Of the incomplete records all are taken, and no mark is made. -/
theorem pickAll_incomplete (l : Ledger) (rs : List Record) :
    v.pickAll .incomplete today l rs = (rs.filter (!·.isComplete), l) := by
  induction rs with
  | nil => rfl
  | cons r rs ih =>
    simp only [pickAll, pick, ih]
    cases h : r.isComplete <;> simp [h]

theorem pickAll_cons_of_taken {l : Ledger} {r : Record} {rs : List Record}
    (h : v.isExpired today r ∧ v.isSpare l r) :
    v.pickAll .obsolete today l (r :: rs) =
      (r :: (v.pickAll .obsolete today (l.mark r.device) rs).1,
        (v.pickAll .obsolete today (l.mark r.device) rs).2) := by
  simp only [pickAll, pick, if_pos h, if_true]

theorem pickAll_cons_of_left {l : Ledger} {r : Record} {rs : List Record}
    (h : ¬ (v.isExpired today r ∧ v.isSpare l r)) :
    v.pickAll .obsolete today l (r :: rs) = v.pickAll .obsolete today l rs := by
  simp only [pickAll, pick, if_neg h, Bool.false_eq_true, if_false]

/-- Of the expired records on a device the first ones are taken, as long as more complete
backups remain than are to stay. -/
theorem pickAll_on (l : Ledger) (rs : List Record) (device : String) :
    (v.pickAll .obsolete today l rs).1.filter (·.device = device) =
      (rs.filter fun r => r.device = device ∧ v.isExpired today r).take
        (remaining l device - v.minBackups) := by
  induction rs generalizing l with
  | nil => simp [pickAll]
  | cons r rs ih =>
    by_cases hr : v.isExpired today r ∧ v.isSpare l r
    · rw [pickAll_cons_of_taken v today hr]
      by_cases hd : r.device = device
      · have spare : v.minBackups < remaining l device := by
          simpa [isSpare, hd] using hr.2
        have more : remaining l device - v.minBackups =
            (remaining l device - 1 - v.minBackups) + 1 := by omega
        rw [List.filter_cons_of_pos (by simp [hd]), List.filter_cons_of_pos (by simp [hd, hr.1]),
          ih, remaining_mark, if_pos hd.symm, more, List.take_succ_cons]
      · rw [List.filter_cons_of_neg (by simp [hd]), List.filter_cons_of_neg (by simp [hd]), ih,
          remaining_mark, if_neg (Ne.symm hd), Nat.sub_zero]
    · rw [pickAll_cons_of_left v today hr, ih]
      by_cases here : r.device = device ∧ v.isExpired today r = true
      · have spent : remaining l device - v.minBackups = 0 := by
          have : ¬ v.minBackups < remaining l device := by
            simpa [isSpare, here] using hr
          omega
        rw [spent, List.take_zero, List.take_zero]
      · rw [List.filter_cons_of_neg (by simpa using here)]

/-- A selection only makes marks. -/
theorem pickAll_ledger (mode : PruneMode) (l : Ledger) (rs : List Record) :
    (v.pickAll mode today l rs).2.records = l.records ∧
      (l.Counted → (v.pickAll mode today l rs).2.Counted) := by
  cases mode with
  | incomplete =>
    rw [pickAll_incomplete]
    exact ⟨rfl, id⟩
  | obsolete =>
    induction rs generalizing l with
    | nil => exact ⟨rfl, id⟩
    | cons r rs ih =>
      by_cases hr : v.isExpired today r ∧ v.isSpare l r
      · rw [pickAll_cons_of_taken v today hr]
        obtain ⟨records, counted⟩ := ih (l.mark r.device)
        exact ⟨records, fun h => counted (h.mark r.device)⟩
      · rw [pickAll_cons_of_left v today hr]
        exact ih l

theorem select_records (mode : PruneMode) :
    (v.select mode today).2.ledger.records = v.ledger.records :=
  (v.pickAll_ledger today mode v.ledger.clearMarks v.ledger.records).1

theorem sound_select (mode : PruneMode) (h : v.ledger.Sound) :
    (v.select mode today).2.ledger.Sound := by
  obtain ⟨records, counted⟩ := v.pickAll_ledger today mode v.ledger.clearMarks v.ledger.records
  exact ⟨records ▸ h.ordered, records ▸ h.dated, counted h.counted.clearMarks⟩

/-- What is taken in a selection of expired records. -/
theorem mem_select_obsolete (h : v.ledger.Sound) {r : Record} :
    r ∈ (v.select .obsolete today).1 ↔
      r ∈ (v.ledger.records.filter fun x => x.device = r.device ∧ v.isExpired today x).take
        ((v.ledger.completeOn r.device).length - v.minBackups) := by
  have counted := h.counted r.device
  have remain : remaining v.ledger.clearMarks r.device = (v.ledger.completeOn r.device).length :=
    (Figures.remainingOn_clearMarks _ _).trans counted
  rw [← remain, ← pickAll_on]
  simp [select]

theorem mem_select_incomplete {r : Record} :
    r ∈ (v.select .incomplete today).1 ↔ r ∈ v.ledger.records ∧ r.isComplete = false := by
  simp [select, pickAll_incomplete]

/-- Only records of the volume are taken. -/
theorem mem_of_mem_select {mode : PruneMode} (h : v.ledger.Sound) {r : Record}
    (hr : r ∈ (v.select mode today).1) : r ∈ v.ledger.records := by
  cases mode with
  | incomplete => exact ((v.mem_select_incomplete today).1 hr).1
  | obsolete =>
    exact List.mem_of_mem_filter (List.mem_of_mem_take ((v.mem_select_obsolete today h).1 hr))

/-- A valid date before an expired one is expired too. -/
theorem isExpired_of_older {a b : Record} (ha : a.date.Valid) (hb : b.date.Valid)
    (hab : a.date < b.date) (h : v.isExpired today b = true) : v.isExpired today a = true := by
  have older := Date.dayNumber_lt ha.exists_day hb.exists_day hab
  have h := of_decide_eq_true h
  apply decide_eq_true
  unfold Date.daysSince at h ⊢
  omega

/-- With a record everything older on its device is taken. -/
theorem mem_select_of_older (h : v.ledger.Sound) {a b : Record} (ha : a ∈ v.ledger.records)
    (hd : a.device = b.device) (hab : a.date < b.date)
    (hb : b ∈ (v.select .obsolete today).1) : a ∈ (v.select .obsolete today).1 := by
  have hb' := (v.mem_select_obsolete today h).1 hb
  rw [mem_select_obsolete v today h, hd]
  generalize (v.ledger.completeOn b.device).length - v.minBackups = k at hb'
  generalize hL : (v.ledger.records.filter fun x =>
    x.device = b.device ∧ v.isExpired today x) = L at hb'
  have inL : ∀ x, x ∈ L ↔ x ∈ v.ledger.records ∧ x.device = b.device ∧ v.isExpired today x := by
    simp [← hL]
  obtain ⟨hbr, -, hbe⟩ := (inL b).1 (List.mem_of_mem_take hb')
  have hae := v.isExpired_of_older today (h.dated a ha) (h.dated b hbr) hab hbe
  have haL := (inL a).2 ⟨ha, hd, hae⟩
  rw [← List.take_append_drop k L, List.mem_append] at haL
  rcases haL with haL | haL
  · exact haL
  · -- What is left on the device is later than what is taken.
    have ordered : L.Pairwise (· < ·) := hL ▸ h.ordered.filter _
    rw [← List.take_append_drop k L, List.pairwise_append] at ordered
    have later := Record.date_lt_of_lt (ordered.2.2 b hb' a haL) hd.symm
    exact absurd (Date.lt_trans hab later) (Date.lt_irrefl _)

/-- No selection takes a complete backup without the older ones on its device. -/
theorem mem_select_of_older_complete {mode : PruneMode} (h : v.ledger.Sound) {device : String}
    {a b : Record} (ha : a ∈ v.ledger.completeOn device) (hb : b ∈ v.ledger.completeOn device)
    (hab : a.date < b.date) (hbs : b ∈ (v.select mode today).1) :
    a ∈ (v.select mode today).1 := by
  obtain ⟨har, -, had⟩ := Ledger.mem_completeOn.1 ha
  obtain ⟨-, hbc, hbd⟩ := Ledger.mem_completeOn.1 hb
  cases mode with
  | incomplete =>
    have := ((v.mem_select_incomplete today).1 hbs).2
    rw [hbc] at this
    contradiction
  | obsolete => exact v.mem_select_of_older today h har (had.trans hbd.symm) hab hbs

/-- Nothing is taken from a device that has no complete backup above the minimum. -/
theorem minBackups_lt_of_mem_select (h : v.ledger.Sound) {r : Record}
    (hr : r ∈ (v.select .obsolete today).1) :
    v.minBackups < (v.ledger.completeOn r.device).length := by
  have taken := (v.mem_select_obsolete today h).1 hr
  by_contra few
  have none : (v.ledger.completeOn r.device).length - v.minBackups = 0 := by omega
  rw [none, List.take_zero] at taken
  exact List.not_mem_nil taken

/-- At most as many complete backups are taken on a device as there are above the minimum. -/
theorem length_taken_le (h : v.ledger.Sound) (device : String) :
    ((v.ledger.completeOn device).filter (· ∈ (v.select .obsolete today).1)).length ≤
      (v.ledger.completeOn device).length - v.minBackups := by
  generalize hk : (v.ledger.completeOn device).length - v.minBackups = k
  generalize hL : (v.ledger.records.filter fun x =>
    x.device = device ∧ v.isExpired today x) = L
  have inside : (v.ledger.completeOn device).filter (· ∈ (v.select .obsolete today).1) ⊆
      L.take k := by
    intro r hr
    simp only [List.mem_filter, Ledger.mem_completeOn, decide_eq_true_eq] at hr
    obtain ⟨⟨-, -, rfl⟩, hr⟩ := hr
    rw [← hL, ← hk]
    exact (v.mem_select_obsolete today h).1 hr
  have distinct : ((v.ledger.completeOn device).filter
      (· ∈ (v.select .obsolete today).1)).Nodup :=
    (h.nodup.filter _).filter _
  exact (distinct.subperm inside).length_le.trans (List.length_take_le _ _)

/-- Where a complete backup is taken, at least the minimum of them is not. -/
theorem minBackups_le_length_left {mode : PruneMode} (h : v.ledger.Sound) {device : String}
    {b : Record} (hb : b ∈ v.ledger.completeOn device) (hbs : b ∈ (v.select mode today).1) :
    v.minBackups ≤
      ((v.ledger.completeOn device).filter (· ∉ (v.select mode today).1)).length := by
  obtain ⟨-, hbc, rfl⟩ := Ledger.mem_completeOn.1 hb
  cases mode with
  | incomplete =>
    have := ((v.mem_select_incomplete today).1 hbs).2
    rw [hbc] at this
    contradiction
  | obsolete =>
    have above := v.minBackups_lt_of_mem_select today h hbs
    have taken := v.length_taken_le today h b.device
    have split := List.length_eq_length_filter_add (l := v.ledger.completeOn b.device)
      fun r => decide (r ∈ (v.select .obsolete today).1)
    simp only [decide_not] at split ⊢
    omega

end Volume

/-- All volumes are selected from alike. -/
theorem State.selectIn_eq (mode : PruneMode) (today : Date) (vs : List Volume) :
    State.selectIn mode today vs =
      (vs.flatMap fun v => (v.select mode today).1, vs.map fun v => (v.select mode today).2) := by
  induction vs with
  | nil => rfl
  | cons v vs ih => simp only [State.selectIn, ih, List.flatMap_cons, List.map_cons]

end BackupRetention
