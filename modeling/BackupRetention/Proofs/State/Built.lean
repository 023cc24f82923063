import BackupRetention.Proofs.Prune.Selection
import BackupRetention.Proofs.State.Filing
import BackupRetention.Prune.Pass
import Mathlib.Data.List.Nodup

/-!
# Built states

However a state comes about by its operations, its records are in their places. So every record
is there once, and removing a record takes out nothing else.

## Main definitions

* `State.Built`: the states that operations lead to.
* `State.holdings`: what the volumes hold.

## Main results

* `State.Built.shelved`: in built states all records are in their places.
* `State.holdings_dropAll`: what is left when some records are removed.
-/

namespace BackupRetention

/-- What a volume holds, without its policy and its figures. -/
structure Holding where
  host : String
  name : String
  records : List Record
  deriving DecidableEq, Repr

def Volume.holding (v : Volume) : Holding := ⟨v.host, v.name, v.ledger.records⟩

/-- What is left of a holding without the records `rs`. -/
def Holding.without (rs : List Record) (h : Holding) : Holding :=
  { h with records := h.records.filter (· ∉ rs) }

namespace Volume

variable (v : Volume) (today : Date)

theorem pickAll_sublist (mode : PruneMode) (l : Ledger) (rs : List Record) :
    (v.pickAll mode today l rs).1.Sublist rs := by
  induction rs generalizing l with
  | nil => exact .refl _
  | cons r rs ih =>
    rw [pickAll]
    rcases v.pick mode today l r with ⟨picked, l'⟩
    cases picked with
    | true => exact (ih l').cons_cons r
    | false => exact (ih l').cons r

/-- What is selected stands in the order of the ledger. -/
theorem select_sublist (mode : PruneMode) :
    (v.select mode today).1.Sublist v.ledger.records :=
  v.pickAll_sublist today mode _ _

end Volume

namespace State

/-- What each volume holds. -/
def holdings (s : State) : List Holding := s.volumes.map Volume.holding

/-- What operations lead to. A pass selects and removes. -/
inductive Built : State → Prop where
  | ofConfig (c : Config) : Built (ofConfig c)
  | add {s : State} (h : Built s) (r : Record) : Built (s.add r).2
  | remove {s : State} (h : Built s) (r : Record) : Built (s.remove r).2
  | select {s : State} (h : Built s) (mode : PruneMode) (today : Date) :
      Built (s.select mode today).2

variable {vs : List Volume} {s : State}

theorem Built.fill (h : Built s) (rs : List Record) : Built (s.fill rs) := by
  induction rs generalizing s with
  | nil => exact h
  | cons r rs ih => exact ih (h.add r)

/-- No record is there twice. -/
theorem Shelved.nodup (h : Shelved vs) : (vs.flatMap (·.ledger.records)).Nodup := by
  refine List.nodup_flatMap.2 ⟨?_, h.apart.imp fun apart r hv hu => apart r hv hu⟩
  intro v hv
  refine (h.ordered v hv).imp fun {a b} before same => ?_
  subst same
  exact Date.lt_irrefl _ (Record.date_lt_of_lt before rfl)

theorem select_volumes (s : State) (mode : PruneMode) (today : Date) :
    (s.select mode today).2.volumes = s.volumes.map fun v => (v.select mode today).2 := by
  rw [select, selectIn_eq]

theorem holdings_select (s : State) (mode : PruneMode) (today : Date) :
    (s.select mode today).2.holdings = s.holdings := by
  rw [holdings, select_volumes, List.map_map, holdings]
  refine List.map_congr_left fun v _ => ?_
  simp only [Function.comp_apply, Volume.holding, Volume.select_records]
  rfl

/-- What is selected stands in the order of the volumes and their ledgers. -/
theorem selected_sublist (s : State) (mode : PruneMode) (today : Date) :
    (s.select mode today).1.Sublist s.records := by
  rw [select, selectIn_eq, records]
  generalize s.volumes = vs
  induction vs with
  | nil => exact .refl _
  | cons v vs ih => exact (v.select_sublist today mode).append ih

theorem Shelved.of_holdings {us : List Volume} (h : Shelved vs)
    (same : us.map Volume.holding = vs.map Volume.holding) : Shelved us := by
  have find : ∀ u ∈ us, ∃ v ∈ vs, v.host = u.host ∧ v.name = u.name ∧
      v.ledger.records = u.ledger.records := by
    intro u hu
    obtain ⟨v, hv, heq⟩ := List.mem_map.1 (same ▸ List.mem_map_of_mem hu)
    obtain ⟨host, name, records⟩ : v.host = u.host ∧ v.name = u.name ∧
      v.ledger.records = u.ledger.records := by simpa [Volume.holding] using heq
    exact ⟨v, hv, host, name, records⟩
  refine ⟨?_, ?_, ?_⟩
  · intro u hu
    obtain ⟨v, hv, -, -, records⟩ := find u hu
    exact records ▸ h.ordered v hv
  · intro u hu
    obtain ⟨v, hv, host, name, records⟩ := find u hu
    exact host ▸ name ▸ records ▸ h.named v hv
  · have first : (vs.map Volume.holding).Pairwise fun a b =>
        a.host = b.host → a.name = b.name → b.records = [] := List.pairwise_map.2 h.first
    rw [← same] at first
    exact List.pairwise_map.1 first

/-- Removing a record takes out nothing else, whatever volumes there are. -/
theorem Shelved.remove (h : Shelved vs) (r : Record) :
    (onVolume r.backup.host r.backup.volume (·.remove r) vs).2.map Volume.holding =
      vs.map fun v => v.holding.without [r] := by
  have untouched {v : Volume} (hr : r ∉ v.ledger.records) :
      v.holding.without [r] = v.holding := by
    have all : v.ledger.records.filter (· ∉ [r]) = v.ledger.records :=
      List.filter_eq_self.2 fun x hx => by
        simp only [List.mem_singleton, decide_not, Bool.not_eq_true', decide_eq_false_iff_not]
        rintro rfl
        exact hr hx
    rw [Holding.without, Volume.holding, all]
  obtain ⟨ordered, named, first⟩ := h
  induction vs with
  | nil => rfl
  | cons v vs ih =>
    obtain ⟨here, there⟩ := List.pairwise_cons.1 first
    by_cases hv : v.host = r.backup.host ∧ v.name = r.backup.volume
    · have others : vs.map (fun u => u.holding.without [r]) = vs.map Volume.holding := by
        refine List.map_congr_left fun u hu => untouched fun hr => ?_
        obtain ⟨host, name⟩ := named u (List.mem_cons_of_mem _ hu) r hr
        rw [here u hu (hv.1.trans host) (hv.2.trans name)] at hr
        exact List.not_mem_nil hr
      rw [onVolume, if_pos hv, List.map_cons, List.map_cons, others]
      simp [Volume.holding, Holding.without, Ledger.records_remove]
    · rw [onVolume, if_neg hv, List.map_cons, List.map_cons,
        ih (fun u hu => ordered u (List.mem_cons_of_mem _ hu))
          (fun u hu => named u (List.mem_cons_of_mem _ hu)) there, untouched fun hr => ?_]
      obtain ⟨host, name⟩ := named v List.mem_cons_self r hr
      exact hv ⟨host.symm, name.symm⟩

theorem holdings_remove (h : Shelved s.volumes) (r : Record) :
    (s.remove r).2.holdings = s.holdings.map (·.without [r]) := by
  rw [holdings, holdings, List.map_map]
  exact h.remove r

theorem Shelved.without (h : Shelved vs) {us : List Volume} {rs : List Record}
    (left : us.map Volume.holding = vs.map fun v => v.holding.without rs) : Shelved us := by
  let fewer (v : Volume) : Volume :=
    { v with ledger := Ledger.recount (v.ledger.records.filter (· ∉ rs)) }
  have same : us.map Volume.holding = (vs.map fewer).map Volume.holding := by
    rw [left, List.map_map]
    rfl
  refine Shelved.of_holdings ⟨?_, ?_, ?_⟩ same
  · intro u hu
    obtain ⟨v, hv, rfl⟩ := List.mem_map.1 hu
    exact (h.ordered v hv).filter _
  · intro u hu r hr
    obtain ⟨v, hv, rfl⟩ := List.mem_map.1 hu
    exact h.named v hv r (List.mem_of_mem_filter hr)
  · refine List.pairwise_map.2 (h.first.imp fun first host name => ?_)
    simp [fewer, first host name]

/-- In a state that was built every record is in its place. -/
theorem Built.shelved (h : Built s) : Shelved s.volumes := by
  induction h with
  | ofConfig c => exact shelved_ofConfig c
  | add h r ih => exact ih.add r
  | remove h r ih => exact ih.without (ih.remove r)
  | @select s h mode today ih => exact ih.of_holdings (s.holdings_select mode today)

theorem without_without (h : Holding) (r : Record) (rs : List Record) :
    (h.without [r]).without rs = h.without (r :: rs) := by
  simp [Holding.without, List.filter_filter, Bool.and_comm]

/-- What is left when some records are removed. -/
theorem holdings_dropAll (h : Shelved s.volumes) (rs : List Record) :
    (Pass.dropAll s rs).holdings = s.holdings.map (·.without rs) := by
  induction rs generalizing s with
  | nil => simp [Pass.dropAll, Holding.without]
  | cons r rs ih =>
    have removed := holdings_remove h r
    have shelved : Shelved (s.remove r).2.volumes := h.without (h.remove r)
    have rest := ih shelved
    rw [removed, List.map_map] at rest
    refine rest.trans (List.map_congr_left fun x _ => ?_)
    exact without_without x r rs

end State

end BackupRetention
