import BackupRetention.Proofs.Prune.Removals

/-!
# What a pass tries

A pass that acts hands over what it has selected on the devices that it finds, once its log
is open. Of these some are removed and leave the state; nothing else leaves it, and no
program is run for anything else.

## Main definitions

* `Pass.attempts`: what a pass hands over for removal.

## Main results

* `Pass.run_state`: what a pass does to the state.
* `Pass.calls_run`: which programs a pass runs.
-/

namespace BackupRetention

namespace Pass

/-- The records that a pass hands over for removal. -/
def attempts (p : Pass) (s : State) (m : Machine) : List Record :=
  match p.today with
  | .error _ => []
  | .ok today =>
    if p.act then
      match (PruneLog.openFor p.config.logs today m.tree).1 with
      | .error _ => []
      | .ok _ => (located (p.identify m.tree) (s.select p.mode today).1).map Prod.snd
    else []

theorem mem_located {locate : Locator} {rs : List Record} {store : String} {r : Record} :
    (store, r) ∈ located locate rs ↔ r ∈ rs ∧ locate r.device = some store := by
  rw [located, List.mem_filterMap]
  constructor
  · rintro ⟨x, hx, h⟩
    obtain ⟨store, hl, h⟩ := Option.map_eq_some_iff.1 h
    obtain ⟨rfl, rfl⟩ := Prod.mk.inj h
    exact ⟨hx, hl⟩
  · rintro ⟨hr, hl⟩
    exact ⟨r, hr, by simp [hl]⟩

theorem mem_map_located {locate : Locator} {rs : List Record} {r : Record} :
    r ∈ (located locate rs).map Prod.snd ↔ r ∈ rs ∧ (locate r.device).isSome = true := by
  rw [List.mem_map, Option.isSome_iff_exists]
  constructor
  · rintro ⟨⟨store, r⟩, h, rfl⟩
    obtain ⟨hr, hl⟩ := mem_located.1 h
    exact ⟨hr, store, hl⟩
  · rintro ⟨hr, store, hl⟩
    exact ⟨(store, r), mem_located.2 ⟨hr, hl⟩, rfl⟩

/-- Of the selected records either none is handed over or those on available devices. -/
theorem mem_attempts {p : Pass} {s : State} {m : Machine} {today : Date}
    (h : p.today = .ok today) : ∃ available : String → Bool, ∀ r,
      r ∈ p.attempts s m ↔ r ∈ (s.select p.mode today).1 ∧ available r.device = true := by
  have none (h : p.attempts s m = []) : ∃ available : String → Bool, ∀ r,
      r ∈ p.attempts s m ↔ r ∈ (s.select p.mode today).1 ∧ available r.device = true :=
    ⟨fun _ => false, fun r => by simp [h]⟩
  by_cases act : p.act = true
  · cases hlog : (PruneLog.openFor p.config.logs today m.tree).1 with
    | error f => exact none (by simp [attempts, h, act, hlog])
    | ok log =>
      refine ⟨fun device => ((p.identify m.tree) device).isSome, ?_⟩
      intro r
      simp only [attempts, h, act, hlog, if_true]
      exact mem_map_located
  · exact none (by simp [attempts, h, act])

/-- A pass only selects, or it also hands over what it finds for removal. -/
theorem run_cases (s : State) (m : Machine) {p : Pass} {today : Date} (h : p.today = .ok today) :
    ((p.run s m).state = (s.select p.mode today).2 ∧ (p.run s m).machine.calls = m.calls) ∨
    ∃ log tree targets, targets = located (p.identify m.tree) (s.select p.mode today).1 ∧
      p.attempts s m = targets.map Prod.snd ∧
      p.run s m = p.removeLocated today log (s.select p.mode today).1.length targets
        (s.select p.mode today).2 { m with tree := tree } := by
  rcases hsel : s.select p.mode today with ⟨selected, t⟩
  have hrun : p.run s m = p.runOn today selected t m := by
    simp only [run, h, hsel]
  rw [hrun]
  unfold runOn
  split
  · exact .inl ⟨rfl, rfl⟩
  · by_cases act : p.act = true
    · simp only [act, if_true]
      rcases hlog : PruneLog.openFor p.config.logs today m.tree with ⟨f | log, tree⟩
      · exact .inl ⟨rfl, rfl⟩
      · exact .inr ⟨log, tree, _, rfl, by simp [attempts, h, act, hlog, hsel], rfl⟩
    · rw [if_neg act]
      exact .inl ⟨rfl, rfl⟩

section Located

variable (p : Pass) (today : Date) (log : PruneLog) (candidates : Nat)
  (targets : List (String × Record)) (s : State) (m : Machine)

theorem removeLocated_state : ∃ removed, removed ⊆ targets.map Prod.snd ∧
    (p.removeLocated today log candidates targets s m).state = dropAll s removed := by
  have confined := p.removeAll_confined log targets m
  unfold removeLocated
  generalize p.removeAll log targets m = result at confined ⊢
  obtain ⟨outcome, schedule⟩ := result
  dsimp only
  split
  · exact ⟨[], List.nil_subset _, rfl⟩
  · exact ⟨_, confined.removed, rfl⟩

theorem calls_removeLocated :
    (p.removeLocated today log candidates targets s m).machine.calls ⊆
      m.calls ++ commands targets := by
  have confined := p.removeAll_confined log targets m
  unfold removeLocated
  generalize p.removeAll log targets m = result at confined ⊢
  obtain ⟨outcome, schedule⟩ := result
  dsimp only
  split
  · exact confined.calls
  · exact confined.calls

end Located

/-- A pass selects, and takes out some of what it has handed over. -/
theorem run_state {p : Pass} {s : State} {m : Machine} {today : Date} (h : p.today = .ok today) :
    ∃ removed, removed ⊆ p.attempts s m ∧
      (p.run s m).state = dropAll (s.select p.mode today).2 removed := by
  rcases run_cases s m h with ⟨hstate, -⟩ | ⟨log, tree, targets, -, handed, hrun⟩
  · exact ⟨[], List.nil_subset _, hstate⟩
  · rw [handed, hrun]
    exact p.removeLocated_state today log _ _ _ _

/-- A program that a pass runs removes the data of a record that it has handed over. -/
theorem calls_run (p : Pass) (s : State) (m : Machine) {c : List String}
    (hc : c ∈ (p.run s m).machine.calls) :
    c ∈ m.calls ∨ ∃ r ∈ p.attempts s m, ∃ store, p.identify m.tree r.device = some store ∧
      c = removeTree (r.backup.dataPath store) := by
  cases htoday : p.today with
  | error f =>
    have idle : (p.run s m).machine = m := by simp [run, htoday]
    exact .inl (idle ▸ hc)
  | ok today =>
    rcases run_cases s m htoday with ⟨-, idle⟩ | ⟨log, tree, targets, found, handed, hrun⟩
    · exact .inl (idle ▸ hc)
    · rw [hrun] at hc
      rcases List.mem_append.1 (p.calls_removeLocated _ _ _ _ _ _ hc) with hc | hc
      · exact .inl hc
      · obtain ⟨⟨store, r⟩, ht, rfl⟩ := List.mem_map.1 hc
        refine .inr ⟨r, handed ▸ List.mem_map.2 ⟨_, ht, rfl⟩, store, ?_, rfl⟩
        rw [found] at ht
        exact (mem_located.1 ht).2

end Pass

end BackupRetention
