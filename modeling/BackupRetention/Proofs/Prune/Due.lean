import BackupRetention.Proofs.State.Regular

/-!
# What is due

What a selection takes can be read off the ledgers, whatever marks an earlier pass has left: on
each device the first of the expired records, as many as there are complete backups above the
minimum, or else all failed attempts. It lists them in the order of hosts, volumes and ledgers,
and the only thing that it changes are the marks.

## Main definitions

* `Volume.due`: what is to go from a volume, with `Volume.dueOn` for one device.
* `State.Taken`: what a selection lists and what it leaves.

## Main results

* `Volume.select_fst`, `Volume.select_snd`: from a volume what is due is taken, and marked.
* `State.takes_due`: this, in order, for all volumes.
-/

namespace BackupRetention

/-! ## Records in order -/

namespace Record

theorem ne_of_lt {a b : Record} (h : a < b) : a ≠ b := by
  rintro rfl
  exact Date.lt_irrefl _ (date_lt_of_lt h rfl)

/-- Records in order are told by what is among them. -/
theorem eq_of_pairwise {rs qs : List Record} (hr : rs.Pairwise (· < ·))
    (hq : qs.Pairwise (· < ·)) (same : ∀ r, r ∈ rs ↔ r ∈ qs) : rs = qs := by
  have perm : rs.Perm qs :=
    (List.perm_ext_iff_of_nodup (hr.imp ne_of_lt) (hq.imp ne_of_lt)).2 same
  exact perm.eq_of_pairwise (fun a b _ _ ab ba => absurd rfl (ne_of_lt (lt_trans ab ba))) hr hq

end Record

/-! ## Marks -/

namespace Figures

/-- The same figures with `n device` backups picked on each device. -/
def withMarks (f : Figures) (n : String → Nat) : Figures :=
  { f with devices := f.devices.map fun e => (e.1, { e.2 with marked := n e.1 }) }

theorem mark_withMarks (f : Figures) (n : String → Nat) (device : String) :
    (f.withMarks n).mark device =
      f.withMarks fun d => n d + if d = device then 1 else 0 := by
  simp only [mark, withMarks, List.map_map, Figures.mk.injEq, true_and]
  refine List.map_congr_left fun e _ => ?_
  by_cases here : e.1 = device <;> simp [here]

end Figures

namespace Ledger

def withMarks (l : Ledger) (n : String → Nat) : Ledger :=
  { l with figures := l.figures.withMarks n }

theorem clearMarks_eq (l : Ledger) : l.clearMarks = l.withMarks fun _ => 0 := rfl

theorem mark_withMarks (l : Ledger) (n : String → Nat) (device : String) :
    (l.withMarks n).mark device = l.withMarks fun d => n d + if d = device then 1 else 0 :=
  congrArg (Ledger.mk l.records) (l.figures.mark_withMarks n device)

end Ledger

/-! ## One volume -/

namespace Volume

variable (v : Volume) (mode : PruneMode) (today : Date)

def withMarks (n : String → Nat) : Volume :=
  { v with ledger := v.ledger.withMarks n }

/-- The records on a device that are older than the policy keeps, complete or not. -/
def expiredOn (device : String) : List Record :=
  v.ledger.records.filter fun r => r.device = device ∧ v.pruneAge < today.daysSince r.date

/-- What is to go from a device. -/
def dueOn (device : String) : List Record :=
  match mode with
  | .obsolete => (v.expiredOn today device).take
      (min (v.expiredOn today device).length
        ((v.ledger.completeOn device).length - v.minBackups))
  | .incomplete => v.ledger.records.filter fun r => r.device = device ∧ r.backup.status ≠ 0

/-- What is to go from all devices, in the order of the ledger. -/
def due : List Record :=
  v.ledger.records.filter fun r => r ∈ v.dueOn mode today r.device

/-- How many marks a device is to bear: what is to go from it, but none for failed attempts. -/
def marksOn (device : String) : Nat :=
  match mode with
  | .obsolete => (v.dueOn .obsolete today device).length
  | .incomplete => 0

@[simp] theorem mem_expiredOn {v : Volume} {today : Date} {device : String} {r : Record} :
    r ∈ v.expiredOn today device ↔
      r ∈ v.ledger.records ∧ r.device = device ∧ v.pruneAge < today.daysSince r.date := by
  simp [expiredOn]

theorem mem_due {v : Volume} {mode : PruneMode} {today : Date} {r : Record} :
    r ∈ v.due mode today ↔ r ∈ v.ledger.records ∧ r ∈ v.dueOn mode today r.device := by
  simp [due]

/-- Whatever is picked is marked on its device, and the ledger stays the same otherwise. -/
theorem ledger_pickAll (l : Ledger) (n : String → Nat) (rs : List Record) :
    (v.pickAll .obsolete today (l.withMarks n) rs).2 = l.withMarks fun device =>
      n device +
        ((v.pickAll .obsolete today (l.withMarks n) rs).1.filter (·.device = device)).length := by
  induction rs generalizing n with
  | nil => rfl
  | cons r rs ih =>
    by_cases hr : v.isExpired today r ∧ v.isSpare (l.withMarks n) r
    · rw [pickAll_cons_of_taken v today hr, l.mark_withMarks, ih]
      congr 1
      funext device
      by_cases here : r.device = device
      · rw [List.filter_cons_of_pos (by simpa using here), List.length_cons, if_pos here.symm]
        omega
      · rw [List.filter_cons_of_neg (by simpa using here), if_neg (Ne.symm here), Nat.add_zero]
    · rw [pickAll_cons_of_left v today hr]
      exact ih n

/-- On each device exactly what is due is taken. -/
theorem filter_select (counted : v.ledger.Counted) (device : String) :
    (v.select mode today).1.filter (·.device = device) = v.dueOn mode today device := by
  cases mode with
  | obsolete =>
    have remain : remaining v.ledger.clearMarks device =
        (v.ledger.completeOn device).length :=
      (Figures.remainingOn_clearMarks _ _).trans (counted device)
    have taken := v.pickAll_on today v.ledger.clearMarks v.ledger.records device
    rw [remain] at taken
    refine taken.trans ?_
    simp only [isExpired, decide_eq_true_eq, dueOn, expiredOn, List.take_eq_take_iff]
    omega
  | incomplete =>
    simp only [select, pickAll_incomplete, dueOn, List.filter_filter, Record.isComplete,
      Backup.isComplete]
    refine List.filter_congr fun r _ => ?_
    by_cases zero : r.backup.status = 0 <;> simp [zero]

theorem mem_select_iff (counted : v.ledger.Counted) {r : Record} :
    r ∈ (v.select mode today).1 ↔ r ∈ v.dueOn mode today r.device := by
  rw [← v.filter_select mode today counted]
  simp

/-- From a volume what is due is taken. -/
theorem select_fst (ordered : v.ledger.records.Pairwise (· < ·)) (counted : v.ledger.Counted) :
    (v.select mode today).1 = v.due mode today := by
  have taken := v.select_sublist today mode
  refine Record.eq_of_pairwise (ordered.sublist taken) (ordered.filter _) fun r => ?_
  rw [mem_due, ← v.mem_select_iff mode today counted]
  exact ⟨fun hr => ⟨taken.subset hr, hr⟩, And.right⟩

/-- Of a selection only marks are left. -/
theorem select_snd (counted : v.ledger.Counted) :
    (v.select mode today).2 = v.withMarks (v.marksOn mode today) := by
  cases mode with
  | obsolete =>
    have left := v.ledger_pickAll today v.ledger (fun _ => 0) v.ledger.records
    rw [← Ledger.clearMarks_eq] at left
    have numbers : v.marksOn .obsolete today = fun device =>
        0 + ((v.select .obsolete today).1.filter (·.device = device)).length := by
      funext device
      rw [v.filter_select .obsolete today counted, Nat.zero_add, marksOn]
    rw [numbers]
    exact congrArg (fun l => { v with ledger := l }) left
  | incomplete =>
    rw [select, pickAll_incomplete]
    rfl

end Volume

/-! ## All volumes -/

/-- The order of records that are filed in volumes: by host, by volume, then as in the ledger. -/
def Earlier (a b : Volume × Record) : Prop :=
  a.1.Before b.1 ∨ (a.1.host = b.1.host ∧ a.1.name = b.1.name ∧ a.2 < b.2)

namespace State

/-- What is to go, with the volumes in which it is filed. -/
def due (s : State) (mode : PruneMode) (today : Date) : List (Volume × Record) :=
  s.volumes.flatMap fun v => (v.due mode today).map fun r => (v, r)

/-- A selection with what it has picked and the state that it has left. -/
structure Taken (s : State) (mode : PruneMode) (today : Date) (picked : List Record)
    (left : State) : Prop where
  listed : picked = (s.due mode today).map Prod.snd
  onDevice : ∀ v ∈ s.volumes, ∀ device,
    ((s.due mode today).filter fun e => e.1 = v ∧ e.2.device = device).map Prod.snd =
      v.dueOn mode today device
  inOrder : (s.due mode today).Pairwise Earlier
  /-- A record that stands in one volume only is picked once. -/
  once : Apart s.volumes → picked.Nodup
  marked : left.volumes = s.volumes.map fun v => v.withMarks (v.marksOn mode today)

section Regular

variable {s : State} {mode : PruneMode} {today : Date}

theorem mem_due {v : Volume} {r : Record} :
    (v, r) ∈ s.due mode today ↔ v ∈ s.volumes ∧ r ∈ v.due mode today := by
  simp [due]

theorem Regular.pairwise_due (h : s.Regular) : (s.due mode today).Pairwise Earlier := by
  refine List.pairwise_flatMap.2 ⟨fun v hv => ?_, h.ordered.imp fun before a ha b hb => ?_⟩
  · have sorted : (v.due mode today).Pairwise (· < ·) := (h.made v hv).ordered.filter _
    exact List.pairwise_map.2 (sorted.imp fun lt => .inr ⟨rfl, rfl, lt⟩)
  · obtain ⟨r, -, rfl⟩ := List.mem_map.1 ha
    obtain ⟨q, -, rfl⟩ := List.mem_map.1 hb
    exact .inl before

theorem Regular.filter_due (h : s.Regular) {v : Volume} (hv : v ∈ s.volumes) (device : String) :
    ((s.due mode today).filter fun e => e.1 = v ∧ e.2.device = device).map Prod.snd =
      v.dueOn mode today device := by
  have own : ∀ e ∈ (s.due mode today).filter fun e => e.1 = v ∧ e.2.device = device,
      e.1 = v := by
    intro e he
    simp only [List.mem_filter, decide_eq_true_eq] at he
    exact he.2.1
  have here : ((s.due mode today).filter fun e => e.1 = v ∧ e.2.device = device).Pairwise
      Earlier := h.pairwise_due.filter _
  have listed : (((s.due mode today).filter fun e => e.1 = v ∧ e.2.device = device).map
      Prod.snd).Pairwise (· < ·) := by
    refine List.pairwise_map.2 (here.imp_of_mem fun {a b} ha hb earlier => ?_)
    rcases earlier with before | ⟨-, -, lt⟩
    · rw [own a ha, own b hb] at before
      exact absurd before (Volume.Before.irrefl v)
    · exact lt
  have taken := v.filter_select mode today (h.made v hv).counted device
  have sorted := ((h.made v hv).ordered.sublist (v.select_sublist today mode)).filter
    (·.device = device)
  rw [taken] at sorted
  refine Record.eq_of_pairwise listed sorted fun r => ?_
  rw [← taken, v.select_fst mode today (h.made v hv).ordered (h.made v hv).counted]
  simp [mem_due, hv]

/-- What is picked is what is due in the volumes. -/
theorem selected_eq (made : ∀ v ∈ s.volumes, v.ledger.Made) :
    (s.select mode today).1 = s.volumes.flatMap fun v => v.due mode today := by
  rw [State.select, selectIn_eq]
  refine List.flatMap_congr fun v hv => ?_
  exact v.select_fst mode today (made v hv).ordered (made v hv).counted

theorem Regular.records_due (h : s.Regular) :
    (s.select mode today).1 = (s.due mode today).map Prod.snd := by
  simp [selected_eq h.made, due, List.map_flatMap, Function.comp_def]

theorem Regular.volumes_select (h : s.Regular) : (s.select mode today).2.volumes =
    s.volumes.map fun v => v.withMarks (v.marksOn mode today) := by
  rw [select_volumes]
  exact List.map_congr_left fun v hv => v.select_snd mode today (h.made v hv).counted

theorem Regular.nodup_select (h : s.Regular) (apart : Apart s.volumes) :
    (s.select mode today).1.Nodup := by
  refine List.Nodup.sublist (s.selected_sublist mode today) (List.nodup_flatMap.2 ⟨?_, ?_⟩)
  · exact fun v hv => (h.made v hv).ordered.imp Record.ne_of_lt
  · exact apart.imp fun apart r hv hu => apart r hv hu

end Regular

/-- In every state, on every day and whatever marks there are, a selection picks exactly what is
due, in order, and leaves its numbers as the only marks. -/
theorem takes_due {s : State} (h : s.Regular) (mode : PruneMode) (today : Date) :
    Taken s mode today (s.select mode today).1 (s.select mode today).2 where
  listed := h.records_due
  onDevice _ hv := h.filter_due hv
  inOrder := h.pairwise_due
  once := h.nodup_select
  marked := h.volumes_select

/-- Two devices, failed attempts on one of them, and marks that an earlier pass has left. -/
def leftMarked : State :=
  let c : Config := { hosts := [("h", ⟨[("v", { path := "/", pruneAge := 3 })]⟩)] }
  let s := (ofConfig c).fill
    [⟨⟨"h", "v", "a", ⟨2024, 1, 1⟩, 1⟩, 0⟩, ⟨⟨"h", "v", "a", ⟨2024, 1, 2⟩, 0⟩, 1⟩,
      ⟨⟨"h", "v", "b", ⟨2024, 1, 2⟩, 0⟩, 2⟩, ⟨⟨"h", "v", "a", ⟨2024, 1, 3⟩, 0⟩, 3⟩,
      ⟨⟨"h", "v", "a", ⟨2024, 2, 29⟩, 0⟩, 4⟩]
  (s.onLedger "h" "v" (Ledger.Entry.mark "a").apply).2

/-- Of three complete backups one is to stay, so two records go, one of them a failed attempt. -/
theorem takes_due_leftMarked :
    leftMarked.Regular ∧
    (leftMarked.select .obsolete ⟨2024, 3, 1⟩).1 =
      [⟨⟨"h", "v", "a", ⟨2024, 1, 1⟩, 1⟩, 0⟩, ⟨⟨"h", "v", "a", ⟨2024, 1, 2⟩, 0⟩, 1⟩] ∧
    Taken leftMarked .obsolete ⟨2024, 3, 1⟩ (leftMarked.select .obsolete ⟨2024, 3, 1⟩).1
      (leftMarked.select .obsolete ⟨2024, 3, 1⟩).2 := by
  have configured : Config.Ordered
      { hosts := [("h", ⟨[("v", { path := "/", pruneAge := 3 })]⟩)] } :=
    ⟨List.pairwise_singleton _ _, fun host hh => by
      obtain rfl := List.mem_singleton.1 hh
      exact List.pairwise_singleton _ _⟩
  have regular : leftMarked.Regular := ((regular_ofConfig configured).fill _).work _ _ _
  exact ⟨regular, by decide, takes_due regular .obsolete ⟨2024, 3, 1⟩⟩

end State

end BackupRetention
