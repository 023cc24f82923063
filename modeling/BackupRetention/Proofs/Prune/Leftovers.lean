import BackupRetention.Proofs.Prune.Due

/-!
# What one pass leaves for the next

Removing everything that a selection has picked does not settle the policy. A failed attempt that
is picked uses up one of the complete backups that may go, although its removal takes none away.
So on each device the next selection of the same day picks as many records more as the first has
picked failed attempts, if there are expired records left.

## Main definitions

* `State.settle`: the state without what a selection of expired records picks from it.
* `Volume.belated`: what the next selection picks from a volume.

## Main results

* `Volume.dueOn_without`: what is due on a device after the removal.
* `State.settles_iff`: what the next selection picks, and when it picks nothing.
-/

namespace BackupRetention

namespace Volume

variable (v : Volume) (today : Date)

/-- The expired records on a device that a selection leaves there. -/
def passedOver (device : String) : List Record :=
  (v.expiredOn today device).drop (v.dueOn .obsolete today device).length

/-- The failed attempts that a selection of expired records picks on a device. -/
def failedOn (device : String) : List Record :=
  (v.dueOn .obsolete today device).filter fun r => !r.isComplete

/-- What is picked on a device once everything due is gone. -/
def belatedOn (device : String) : List Record :=
  (v.passedOver today device).take (v.failedOn today device).length

def belated : List Record :=
  v.ledger.records.filter fun r => r ∈ v.belatedOn today r.device

/-- The volume without some records. -/
def without (rs : List Record) : Volume :=
  { v with ledger := Ledger.recount (v.ledger.records.filter (· ∉ rs)) }

/-- What is due depends on the policy and the records only. -/
theorem due_congr {v w : Volume} (mode : PruneMode) (today : Date)
    (policy : State.policy v = State.policy w) (holding : v.holding = w.holding) :
    v.due mode today = w.due mode today := by
  obtain ⟨-, -, age, least⟩ : v.host = w.host ∧ v.name = w.name ∧ v.pruneAge = w.pruneAge ∧
    v.minBackups = w.minBackups := by simpa [State.policy] using policy
  have records : v.ledger.records = w.ledger.records := congrArg Holding.records holding
  have same (device : String) : v.dueOn mode today device = w.dueOn mode today device := by
    simp only [dueOn, expiredOn, Ledger.completeOn, records, age, least]
  simp only [due, records, same]

theorem map_due_congr {vs ws : List Volume} (mode : PruneMode) (today : Date)
    (policies : vs.map State.policy = ws.map State.policy)
    (holdings : vs.map holding = ws.map holding) :
    vs.map (fun v => v.due mode today) = ws.map fun w => w.due mode today := by
  induction vs generalizing ws with
  | nil => rw [List.map_eq_nil_iff.1 holdings.symm]
  | cons v vs ih =>
    cases ws with
    | nil => cases holdings
    | cons w ws =>
      obtain ⟨policy, policies⟩ := List.cons.inj policies
      obtain ⟨holding, holdings⟩ := List.cons.inj holdings
      rw [List.map_cons, List.map_cons, due_congr mode today policy holding, ih policies holdings]

section Removal

variable {v today} {rs : List Record} {device : String}

theorem sublist_expiredOn : (v.expiredOn today device).Sublist v.ledger.records :=
  List.filter_sublist

theorem take_eq_dueOn : (v.expiredOn today device).take (v.dueOn .obsolete today device).length =
    v.dueOn .obsolete today device := by
  rw [dueOn, List.length_take, List.take_eq_take_iff]
  omega

theorem dueOn_append_passedOver :
    v.dueOn .obsolete today device ++ v.passedOver today device = v.expiredOn today device := by
  have whole := List.take_append_drop (v.dueOn .obsolete today device).length
    (v.expiredOn today device)
  rwa [take_eq_dueOn] at whole

/-- What is removed of the expired records on a device is what is due there. -/
theorem mem_iff_of_expired (own : ∀ r ∈ v.ledger.records, r ∈ rs ↔ r ∈ v.due .obsolete today)
    {r : Record} (hr : r ∈ v.expiredOn today device) :
    r ∈ rs ↔ r ∈ v.dueOn .obsolete today device := by
  obtain ⟨here, rfl, -⟩ := mem_expiredOn.1 hr
  rw [own r here, mem_due, and_iff_right here]

theorem expiredOn_without (sorted : v.ledger.records.Pairwise (· < ·))
    (own : ∀ r ∈ v.ledger.records, r ∈ rs ↔ r ∈ v.due .obsolete today) :
    (v.without rs).expiredOn today device = v.passedOver today device := by
  have whole : v.dueOn .obsolete today device ++ v.passedOver today device =
    v.expiredOn today device := dueOn_append_passedOver
  have nodup : (v.expiredOn today device).Nodup :=
    (sorted.imp Record.ne_of_lt).sublist sublist_expiredOn
  rw [← whole] at nodup
  have gone : (v.dueOn .obsolete today device).filter (· ∉ rs) = [] := by
    refine List.filter_eq_nil_iff.2 fun r hr => ?_
    have expired : r ∈ v.expiredOn today device := whole ▸ List.mem_append_left _ hr
    simpa using (mem_iff_of_expired own expired).2 hr
  have stays : (v.passedOver today device).filter (· ∉ rs) = v.passedOver today device := by
    refine List.filter_eq_self.2 fun r hr => ?_
    have expired : r ∈ v.expiredOn today device := whole ▸ List.mem_append_right _ hr
    have kept : r ∉ v.dueOn .obsolete today device := fun taken =>
      List.disjoint_of_nodup_append nodup taken hr
    simpa using (mem_iff_of_expired own expired).not.2 kept
  have left : (v.without rs).expiredOn today device =
      (v.expiredOn today device).filter (· ∉ rs) := List.filter_comm _ _ _
  rw [left, ← whole, List.filter_append, gone, stays, List.nil_append]

/-- What is due on a device and complete goes from the complete backups there. -/
theorem filter_completeOn (sorted : v.ledger.records.Pairwise (· < ·))
    (own : ∀ r ∈ v.ledger.records, r ∈ rs ↔ r ∈ v.due .obsolete today) :
    (v.ledger.completeOn device).filter (· ∈ rs) =
      (v.dueOn .obsolete today device).filter Record.isComplete := by
  have taken : (v.dueOn .obsolete today device).Sublist (v.expiredOn today device) :=
    List.take_sublist _ _
  have ordered := sorted.sublist (taken.trans sublist_expiredOn)
  refine Record.eq_of_pairwise ((sorted.filter _).filter _) (ordered.filter _) fun r => ?_
  simp only [List.mem_filter, Ledger.mem_completeOn, decide_eq_true_eq]
  constructor
  · rintro ⟨⟨here, complete, rfl⟩, hr⟩
    exact ⟨(mem_due.1 ((own r here).1 hr)).2, complete⟩
  · rintro ⟨hr, complete⟩
    have expired := taken.subset hr
    obtain ⟨here, on, -⟩ := mem_expiredOn.1 expired
    exact ⟨⟨here, complete, on⟩, (mem_iff_of_expired own expired).2 hr⟩

/-- A removal takes as many complete backups from a device as are due there without the failed
attempts. -/
theorem length_completeOn_without (sorted : v.ledger.records.Pairwise (· < ·))
    (own : ∀ r ∈ v.ledger.records, r ∈ rs ↔ r ∈ v.due .obsolete today) :
    ((v.without rs).ledger.completeOn device).length +
        (v.dueOn .obsolete today device).length =
      (v.ledger.completeOn device).length + (v.failedOn today device).length := by
  have left : (v.without rs).ledger.completeOn device =
      (v.ledger.completeOn device).filter (· ∉ rs) := List.filter_comm _ _ _
  have complete := List.length_eq_length_filter_add (l := v.ledger.completeOn device)
    fun r => decide (r ∈ rs)
  have due := List.length_eq_length_filter_add (l := v.dueOn .obsolete today device)
    Record.isComplete
  rw [filter_completeOn sorted own] at complete
  rw [left, failedOn]
  simp only [decide_not] at complete ⊢
  omega

/-- After the removal as many records are due on a device as failed attempts were picked there. -/
theorem dueOn_without (sorted : v.ledger.records.Pairwise (· < ·))
    (own : ∀ r ∈ v.ledger.records, r ∈ rs ↔ r ∈ v.due .obsolete today) :
    (v.without rs).dueOn .obsolete today device = v.belatedOn today device := by
  have fewer : ((v.without rs).ledger.completeOn device).length +
      (v.dueOn .obsolete today device).length =
    (v.ledger.completeOn device).length + (v.failedOn today device).length :=
    length_completeOn_without sorted own
  have some : (v.failedOn today device).length ≤ (v.dueOn .obsolete today device).length :=
    List.length_filter_le _ _
  have first : (v.dueOn .obsolete today device).length = min (v.expiredOn today device).length
      ((v.ledger.completeOn device).length - v.minBackups) := by
    rw [dueOn, List.length_take]
    omega
  have rest : (v.passedOver today device).length = (v.expiredOn today device).length -
      (v.dueOn .obsolete today device).length := List.length_drop
  have least : (v.without rs).minBackups = v.minBackups := rfl
  rw [dueOn, expiredOn_without sorted own, belatedOn, List.take_eq_take_iff, least]
  omega

theorem not_mem_of_mem_belatedOn (sorted : v.ledger.records.Pairwise (· < ·))
    (own : ∀ r ∈ v.ledger.records, r ∈ rs ↔ r ∈ v.due .obsolete today) {r : Record}
    (hr : r ∈ v.belatedOn today device) : r ∉ rs := by
  rw [← dueOn_without sorted own] at hr
  have here : r ∈ (v.without rs).ledger.records :=
    sublist_expiredOn.subset (List.mem_of_mem_take hr)
  simpa using List.of_mem_filter here

theorem due_without (sorted : v.ledger.records.Pairwise (· < ·))
    (own : ∀ r ∈ v.ledger.records, r ∈ rs ↔ r ∈ v.due .obsolete today) :
    (v.without rs).due .obsolete today = v.belated today := by
  simp only [due, dueOn_without sorted own, belated]
  rw [without, Ledger.records_recount, List.filter_filter]
  refine List.filter_congr fun r _ => ?_
  by_cases late : r ∈ v.belatedOn today r.device
  · simp [late, not_mem_of_mem_belatedOn sorted own late]
  · simp [late]

end Removal

/-- Nothing is due where no device has both expired records and complete backups to spare. -/
theorem due_eq_nil_iff : v.due .obsolete today = [] ↔ ∀ device,
    v.minBackups < (v.ledger.completeOn device).length → v.expiredOn today device = [] := by
  rw [List.eq_nil_iff_forall_not_mem]
  constructor
  · intro none device spare
    have nothing : v.dueOn .obsolete today device = [] := by
      refine List.eq_nil_iff_forall_not_mem.2 fun r hr => none r ?_
      obtain ⟨here, rfl, -⟩ := mem_expiredOn.1 (List.mem_of_mem_take hr)
      exact mem_due.2 ⟨here, hr⟩
    have few := congrArg List.length nothing
    rw [dueOn, List.length_take, List.length_nil] at few
    exact List.length_eq_zero_iff.1 (by omega)
  · intro clean r hr
    have due := (mem_due.1 hr).2
    have expired := List.mem_of_mem_take due
    have spent : ¬ v.minBackups < (v.ledger.completeOn r.device).length := fun spare => by
      rw [clean r.device spare] at expired
      exact List.not_mem_nil expired
    have none : (v.ledger.completeOn r.device).length - v.minBackups = 0 := by omega
    rw [dueOn, none, Nat.min_zero, List.take_zero] at due
    exact List.not_mem_nil due

theorem belated_eq_nil_iff : v.belated today = [] ↔ ∀ device,
    v.failedOn today device = [] ∨ v.passedOver today device = [] := by
  have each (device : String) : v.belatedOn today device = [] ↔
      v.failedOn today device = [] ∨ v.passedOver today device = [] := by
    rw [belatedOn, List.take_eq_nil_iff, List.length_eq_zero_iff]
  simp only [← each, belated, List.filter_eq_nil_iff, decide_eq_true_eq]
  constructor
  · intro none device
    refine List.eq_nil_iff_forall_not_mem.2 fun r hr => ?_
    obtain ⟨here, rfl, -⟩ := mem_expiredOn.1 (List.mem_of_mem_drop (List.mem_of_mem_take hr))
    exact none r here hr
  · intro none r _ hr
    rw [none r.device] at hr
    exact List.not_mem_nil hr

end Volume

namespace State

/-- The state without what a selection of expired records picks from it. -/
def settle (s : State) (today : Date) : State :=
  Pass.dropAll (s.select .obsolete today).2 (s.select .obsolete today).1

variable {s : State}

theorem Built.dropAll (h : Built s) (rs : List Record) : Built (Pass.dropAll s rs) := by
  induction rs generalizing s with
  | nil => exact h
  | cons r rs ih => exact ih (h.remove r)

theorem policies_dropAll (s : State) (rs : List Record) :
    (Pass.dropAll s rs).volumes.map policy = s.volumes.map policy := by
  induction rs generalizing s with
  | nil => rfl
  | cons r rs ih => exact (ih _).trans (map_policy_onVolume _ _ _ s.volumes)

theorem Built.settle (h : Built s) (today : Date) : Built (s.settle today) :=
  (h.select .obsolete today).dropAll _

/-- Of the records of one volume exactly those are picked that are due there. -/
theorem Built.mem_selected_iff (h : Built s) {mode : PruneMode} {today : Date} {v : Volume}
    (hv : v ∈ s.volumes) {r : Record} (hr : r ∈ v.ledger.records) :
    r ∈ (s.select mode today).1 ↔ r ∈ v.due mode today := by
  rw [selected_eq h.made, List.mem_flatMap]
  refine ⟨fun ⟨u, hu, due⟩ => ?_, fun due => ⟨v, hv, due⟩⟩
  rwa [h.shelved.apart.eq hv hu hr (Volume.mem_due.1 due).1]

/-- What is due once a selection has been removed is what is belated. -/
theorem Built.due_settle (h : Built s) (today : Date) :
    (s.settle today).volumes.map (fun w => w.due .obsolete today) =
      s.volumes.map fun v => v.belated today := by
  generalize removed : (s.select .obsolete today).1 = rs
  have policies : (s.settle today).volumes.map policy =
      (s.volumes.map (·.without rs)).map policy := by
    rw [State.settle, policies_dropAll, select_volumes, List.map_map, List.map_map]
    rfl
  have holdings : (s.settle today).volumes.map Volume.holding =
      (s.volumes.map (·.without rs)).map Volume.holding := by
    have left := holdings_dropAll (h.select .obsolete today).shelved rs
    rw [holdings_select, State.holdings, State.holdings, List.map_map] at left
    rw [State.settle, removed, left, List.map_map]
    rfl
  rw [Volume.map_due_congr .obsolete today policies holdings, List.map_map]
  refine List.map_congr_left fun v hv => ?_
  exact Volume.due_without (h.made v hv).ordered fun r hr => removed ▸ h.mem_selected_iff hv hr

/-- Once all that was picked has been removed, the next selection of the day picks what is
belated: on each device the first of the expired records left there, one for each failed attempt
that was picked. So it picks nothing just if each device had no failed attempt picked or has no
expired record left; and that is when no device with complete backups to spare has expired
records. -/
theorem settles_iff (h : Built s) (today : Date) :
    ((s.settle today).select .obsolete today).1 = s.volumes.flatMap (·.belated today) ∧
    (((s.settle today).select .obsolete today).1 = [] ↔ ∀ v ∈ s.volumes, ∀ device,
      v.failedOn today device = [] ∨ v.passedOver today device = []) ∧
    (((s.settle today).select .obsolete today).1 = [] ↔ ∀ w ∈ (s.settle today).volumes,
      ∀ device, w.minBackups < (w.ledger.completeOn device).length →
        w.expiredOn today device = []) := by
  have due : ((s.settle today).select .obsolete today).1 =
      (s.settle today).volumes.flatMap fun w => w.due .obsolete today :=
    selected_eq (h.settle today).made
  have belated : ((s.settle today).select .obsolete today).1 =
      s.volumes.flatMap (·.belated today) := by
    rw [due, List.flatMap_def, h.due_settle, ← List.flatMap_def]
  refine ⟨belated, ?_, ?_⟩
  · rw [belated, List.flatMap_eq_nil_iff]
    exact forall₂_congr fun v _ => v.belated_eq_nil_iff today
  · rw [due, List.flatMap_eq_nil_iff]
    exact forall₂_congr fun w _ => w.due_eq_nil_iff today

/-- One volume that keeps one complete backup on each device, and others for three days. -/
def keepingOne : Config :=
  { hosts := [("h", ⟨[("v", { path := "/", pruneAge := 3 })]⟩)] }

/-- An old failed attempt, and an old complete backup besides two that stay. -/
def twoStay : State :=
  (ofConfig keepingOne).fill
    [⟨⟨"h", "v", "d", ⟨2024, 1, 1⟩, 1⟩, 0⟩, ⟨⟨"h", "v", "d", ⟨2024, 1, 2⟩, 0⟩, 1⟩,
      ⟨⟨"h", "v", "d", ⟨2024, 2, 28⟩, 0⟩, 2⟩, ⟨⟨"h", "v", "d", ⟨2024, 2, 29⟩, 0⟩, 3⟩]

/-- A failed attempt does no harm where everything else that has expired is picked too. -/
theorem settles_twoStay :
    twoStay.Built ∧
    (twoStay.select .obsolete ⟨2024, 3, 1⟩).1.length = 2 ∧
    (((twoStay.settle ⟨2024, 3, 1⟩).select .obsolete ⟨2024, 3, 1⟩).1 =
      twoStay.volumes.flatMap (·.belated ⟨2024, 3, 1⟩) ∧
    (((twoStay.settle ⟨2024, 3, 1⟩).select .obsolete ⟨2024, 3, 1⟩).1 = [] ↔
      ∀ v ∈ twoStay.volumes, ∀ device,
        v.failedOn ⟨2024, 3, 1⟩ device = [] ∨ v.passedOver ⟨2024, 3, 1⟩ device = []) ∧
    (((twoStay.settle ⟨2024, 3, 1⟩).select .obsolete ⟨2024, 3, 1⟩).1 = [] ↔
      ∀ w ∈ (twoStay.settle ⟨2024, 3, 1⟩).volumes, ∀ device,
        w.minBackups < (w.ledger.completeOn device).length →
          w.expiredOn ⟨2024, 3, 1⟩ device = [])) ∧
    ((twoStay.settle ⟨2024, 3, 1⟩).select .obsolete ⟨2024, 3, 1⟩).1 = [] := by
  have built : twoStay.Built := (Built.ofConfig keepingOne).fill _
  exact ⟨built, by decide, settles_iff built ⟨2024, 3, 1⟩, by decide⟩

/-- A failed attempt that is older than the complete backups. -/
def failedFirst : State :=
  (ofConfig keepingOne).fill
    [⟨⟨"h", "v", "d", ⟨2024, 1, 1⟩, 1⟩, 0⟩, ⟨⟨"h", "v", "d", ⟨2024, 1, 2⟩, 0⟩, 1⟩,
      ⟨⟨"h", "v", "d", ⟨2024, 1, 3⟩, 0⟩, 2⟩]

/-- The failed attempt goes in the place of a complete backup, which the next selection of the
same day picks. -/
theorem not_settled_failedFirst :
    failedFirst.Built ∧
    (failedFirst.select .obsolete ⟨2024, 3, 1⟩).1 = [⟨⟨"h", "v", "d", ⟨2024, 1, 1⟩, 1⟩, 0⟩] ∧
    (failedFirst.settle ⟨2024, 3, 1⟩).records =
      [⟨⟨"h", "v", "d", ⟨2024, 1, 2⟩, 0⟩, 1⟩, ⟨⟨"h", "v", "d", ⟨2024, 1, 3⟩, 0⟩, 2⟩] ∧
    ((failedFirst.settle ⟨2024, 3, 1⟩).select .obsolete ⟨2024, 3, 1⟩).1 =
      [⟨⟨"h", "v", "d", ⟨2024, 1, 2⟩, 0⟩, 1⟩] :=
  ⟨(Built.ofConfig keepingOne).fill _, by decide, by decide, by decide⟩

end State

end BackupRetention
