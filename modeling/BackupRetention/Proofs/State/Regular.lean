import BackupRetention.Proofs.Config.Ordered
import BackupRetention.Proofs.Ledger.Refinement
import BackupRetention.Proofs.State.Exactness

/-!
# Regular states

Whatever happens to a state, its volumes stay in the order of hosts and names, and each has a
ledger that some history has made. So what holds of all histories holds of every ledger.

## Main definitions

* `Ledger.Made`: some history has made the ledger.
* `State.Regular`: volumes in order, with ledgers that were made.

## Main results

* `State.Built.made`: in built states every ledger was made.
* `State.Regular.work`: any step in the life of any ledger keeps a state regular.
* `State.regular_load`: a loaded state is regular.
-/

namespace BackupRetention

namespace Ledger

/-- Some history has made the ledger, marks included. -/
def Made (l : Ledger) : Prop := ∃ es, l = ofHistory es

namespace Made

variable {l : Ledger}

theorem empty : Made empty := ⟨[], rfl⟩

theorem apply (h : Made l) (e : Entry) : Made (e.apply l).2 := by
  obtain ⟨es, rfl⟩ := h
  exact ⟨es ++ [e], (after_concat Entry.apply Ledger.empty es e).symm⟩

/-- What holds at first and is kept by every step holds of what was made. -/
theorem induct {p : Ledger → Prop} (start : p Ledger.empty)
    (step : ∀ l e, p l → p (Entry.apply e l).2) (h : Made l) : p l := by
  obtain ⟨es, rfl⟩ := h
  induction es using List.reverseRecOn with
  | nil => exact start
  | append_singleton es e ih =>
    rw [ofHistory, after_concat]
    exact step _ e ih

theorem ordered (h : Made l) : l.records.Pairwise (· < ·) := by
  obtain ⟨es, rfl⟩ := h
  exact (shows_free.after es).2.ordered

theorem counted (h : Made l) : l.Counted := by
  refine h.induct counted_empty fun l e counted => ?_
  cases e with
  | add r => exact counted_recount _
  | remove r => exact counted.remove r
  | mark device => exact counted.mark device
  | clearMarks => exact counted.clearMarks

theorem pickAll (h : Made l) (v : Volume) (mode : PruneMode) (today : Date) (rs : List Record) :
    Made (v.pickAll mode today l rs).2 := by
  cases mode with
  | incomplete =>
    rw [Volume.pickAll_incomplete]
    exact h
  | obsolete =>
    induction rs generalizing l with
    | nil => exact h
    | cons r rs ih =>
      by_cases hr : v.isExpired today r ∧ v.isSpare l r
      · rw [Volume.pickAll_cons_of_taken v today hr]
        exact ih (h.apply (.mark r.device))
      · rw [Volume.pickAll_cons_of_left v today hr]
        exact ih h

end Made

end Ledger

/-- The order of volumes: by host, and on one host by name. -/
def Volume.Before (v u : Volume) : Prop :=
  v.host < u.host ∨ (v.host = u.host ∧ v.name < u.name)

theorem Volume.Before.irrefl (v : Volume) : ¬ v.Before v := by
  rintro (host | ⟨-, name⟩)
  · exact String.lt_irrefl _ host
  · exact String.lt_irrefl _ name

namespace State

/-- Volumes in order, with ledgers that histories have made. -/
structure Regular (s : State) : Prop where
  ordered : s.volumes.Pairwise Volume.Before
  made : ∀ v ∈ s.volumes, v.ledger.Made

variable {s : State}

/-- A step in the life of one ledger keeps all of them made. -/
theorem made_onVolume {vs : List Volume} (h : ∀ v ∈ vs, v.ledger.Made) (host name : String)
    (e : Ledger.Entry) : ∀ u ∈ (onVolume host name e.apply vs).2, u.ledger.Made := by
  intro u hu
  rcases mem_onVolume hu with hu | ⟨v, hv, -, -, rfl⟩
  · exact h u hu
  · exact (h v hv).apply e

theorem made_select (h : ∀ v ∈ s.volumes, v.ledger.Made) (mode : PruneMode) (today : Date) :
    ∀ u ∈ (s.select mode today).2.volumes, u.ledger.Made := by
  rw [select_volumes, List.forall_mem_map]
  exact fun v hv => ((h v hv).apply .clearMarks).pickAll v mode today v.ledger.records

theorem Built.made (h : Built s) : ∀ v ∈ s.volumes, v.ledger.Made := by
  induction h with
  | ofConfig c => exact fun v hv => ledger_of_ofConfig c v hv ▸ .empty
  | add h r ih => exact made_onVolume ih _ _ (.add r)
  | remove h r ih => exact made_onVolume ih _ _ (.remove r)
  | select h mode today ih => exact made_select ih mode today

theorem regular_ofConfig {c : Config} (h : c.Ordered) : (ofConfig c).Regular where
  ordered := by
    refine List.pairwise_flatMap.2 ⟨fun host hh => ?_, h.hosts.imp fun lt v hv u hu => ?_⟩
    · exact List.pairwise_map.2 ((h.volumes host hh).imp fun lt => .inr ⟨rfl, lt⟩)
    · obtain ⟨_, -, rfl⟩ := List.mem_map.1 hv
      obtain ⟨_, -, rfl⟩ := List.mem_map.1 hu
      exact .inl lt
  made := (Built.ofConfig c).made

/-- Volumes with the same names in the same order are in order alike. -/
theorem pairwise_before_of_policy {vs us : List Volume} (h : vs.Pairwise Volume.Before)
    (same : us.map policy = vs.map policy) : us.Pairwise Volume.Before := by
  have names : (vs.map policy).Pairwise fun p q => p.1 < q.1 ∨ (p.1 = q.1 ∧ p.2.1 < q.2.1) :=
    List.pairwise_map.2 h
  rw [← same, List.pairwise_map] at names
  exact names

namespace Regular

theorem work (h : s.Regular) (host name : String) (e : Ledger.Entry) :
    (s.onLedger host name e.apply).2.Regular where
  ordered := pairwise_before_of_policy h.ordered (map_policy_onVolume host name e.apply s.volumes)
  made := made_onVolume h.made host name e

theorem add (h : s.Regular) (r : Record) : (s.add r).2.Regular :=
  h.work r.backup.host r.backup.volume (.add r)

theorem remove (h : s.Regular) (r : Record) : (s.remove r).2.Regular :=
  h.work r.backup.host r.backup.volume (.remove r)

theorem fill (h : s.Regular) (rs : List Record) : (s.fill rs).Regular := by
  induction rs generalizing s with
  | nil => exact h
  | cons r rs ih => exact ih (h.add r)

theorem select (h : s.Regular) (mode : PruneMode) (today : Date) :
    (s.select mode today).2.Regular where
  ordered := by
    refine pairwise_before_of_policy h.ordered ?_
    rw [select_volumes, List.map_map]
    rfl
  made := made_select h.made mode today

end Regular

/-- A state that was loaded for a configuration in order is regular. -/
theorem regular_load {c : Config} {t : FileTree} (ordered : c.Ordered) (h : load c t = .ok s) :
    s.Regular := by
  obtain ⟨names, -, -, rfl⟩ := load_eq_ok_iff.1 h
  exact (regular_ofConfig ordered).fill _

end State

end BackupRetention
