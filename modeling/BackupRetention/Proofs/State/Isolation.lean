import BackupRetention.Proofs.Ledger.Refinement
import BackupRetention.Proofs.State.Exactness

/-!
# Volumes are apart

A state is one ledger for each configured volume, and what happens to a record happens in the
ledger of the volume that it names. So the ledgers live side by side: each is what the records of
its own volume have made of it, and the order matters only among these.

## Main definitions

* `State.Entry`: a record comes or goes, with `State.Entry.apply` for what comes of it.
* `State.Isolated`: what a history of a state leaves.

## Main results

* `State.find?_onVolume`: what work on one volume leaves of any volume.
* `State.onVolume_comm`: work on different volumes can be done in either order.
* `State.isolated`: all this holds after any history.
-/

namespace BackupRetention

/-- The configuration has a volume called `name` for `host`. -/
def Config.Lists (c : Config) (host name : String) : Prop :=
  ∃ h, (host, h) ∈ c.hosts ∧ ∃ w, (name, w) ∈ h.volumes

namespace State

/-! ## Work on one volume -/

section OnVolume

variable {host name : String} {work : Ledger → Bool × Ledger} {vs : List Volume}

/-- A volume that has been worked on. -/
def reworked (work : Ledger → Bool × Ledger) (v : Volume) : Volume :=
  { v with ledger := (work v.ledger).2 }

theorem onVolume_cons_of_pos {v : Volume} (named : v.host = host ∧ v.name = name) :
    onVolume host name work (v :: vs) = ((work v.ledger).1, reworked work v :: vs) := by
  rw [onVolume, if_pos named]
  rfl

theorem onVolume_cons_of_neg {v : Volume} (other : ¬ (v.host = host ∧ v.name = name)) :
    onVolume host name work (v :: vs) =
      ((onVolume host name work vs).1, v :: (onVolume host name work vs).2) := by
  rw [onVolume, if_neg other]

theorem onVolume_eq_self (absent : ∀ v ∈ vs, ¬ (v.host = host ∧ v.name = name)) :
    onVolume host name work vs = (false, vs) := by
  induction vs with
  | nil => rfl
  | cons v vs ih =>
    obtain ⟨here, there⟩ := List.forall_mem_cons.1 absent
    rw [onVolume_cons_of_neg here, ih there]

/-- The first volume of the name is worked on, and no other. -/
theorem onVolume_append {before later : List Volume} {v : Volume}
    (absent : ∀ u ∈ before, ¬ (u.host = host ∧ u.name = name))
    (named : v.host = host ∧ v.name = name) : onVolume host name work (before ++ v :: later) =
      ((work v.ledger).1, before ++ reworked work v :: later) := by
  induction before with
  | nil => exact onVolume_cons_of_pos named
  | cons u before ih =>
    obtain ⟨here, there⟩ := List.forall_mem_cons.1 absent
    rw [List.cons_append, onVolume_cons_of_neg here, ih there]
    rfl

/-- What work on one volume leaves of any volume. -/
theorem find?_onVolume (host' name' : String) :
    (onVolume host name work vs).2.find? (fun v => v.host = host' ∧ v.name = name') =
      (vs.find? fun v => v.host = host' ∧ v.name = name').map fun v =>
        if host = host' ∧ name = name' then reworked work v else v := by
  induction vs with
  | nil => rfl
  | cons v vs ih =>
    by_cases named : v.host = host ∧ v.name = name
    · obtain ⟨rfl, rfl⟩ := named
      rw [onVolume_cons_of_pos ⟨rfl, rfl⟩]
      by_cases wanted : v.host = host' ∧ v.name = name'
      · simp [wanted, reworked]
      · have unwanted : ¬ ((reworked work v).host = host' ∧ (reworked work v).name = name') :=
          wanted
        rw [List.find?_cons_of_neg (by simpa using unwanted),
          List.find?_cons_of_neg (by simpa using wanted)]
        simp [wanted]
    · rw [onVolume_cons_of_neg named]
      by_cases wanted : v.host = host' ∧ v.name = name'
      · obtain ⟨rfl, rfl⟩ := wanted
        have other : ¬ (host = v.host ∧ name = v.name) := by simpa [eq_comm] using named
        simp [other]
      · simpa [List.find?_cons, wanted] using ih

/-- Work on different volumes can be done in either order, and gets the same answers. -/
theorem onVolume_comm {host' name' : String} (work work' : Ledger → Bool × Ledger)
    (vs : List Volume) (apart : ¬ (host = host' ∧ name = name')) :
    (onVolume host name work (onVolume host' name' work' vs).2).1 =
        (onVolume host name work vs).1 ∧
      (onVolume host name work (onVolume host' name' work' vs).2).2 =
        (onVolume host' name' work' (onVolume host name work vs).2).2 := by
  induction vs with
  | nil => exact ⟨rfl, rfl⟩
  | cons v vs ih =>
    obtain ⟨answer, rest⟩ := ih
    by_cases named : v.host = host ∧ v.name = name
    · have other : ¬ (v.host = host' ∧ v.name = name') := fun named' =>
        apart ⟨named.1.symm.trans named'.1, named.2.symm.trans named'.2⟩
      have other' : ¬ ((reworked work v).host = host' ∧ (reworked work v).name = name') := other
      simp only [onVolume_cons_of_pos named, onVolume_cons_of_neg other,
        onVolume_cons_of_neg other', and_self]
    · by_cases named' : v.host = host' ∧ v.name = name'
      · have other : ¬ ((reworked work' v).host = host ∧ (reworked work' v).name = name) := named
        simp only [onVolume_cons_of_pos named', onVolume_cons_of_neg named,
          onVolume_cons_of_neg other, and_self]
      · simp only [onVolume_cons_of_neg named, onVolume_cons_of_neg named', answer, rest, and_self]

end OnVolume

/-! ## Histories -/

/-- One step in the life of a state: a record comes or goes. -/
inductive Entry where
  | add (r : Record)
  | remove (r : Record)
  deriving DecidableEq, Repr

namespace Entry

def backup : Entry → Backup
  | .add r => r.backup
  | .remove r => r.backup

/-- What the step is to a ledger. -/
def onLedger : Entry → Ledger.Entry
  | .add r => .add r
  | .remove r => .remove r

/-- The answer to a step, and the state after it. -/
def apply : Entry → State → Bool × State
  | .add r, s => s.add r
  | .remove r, s => s.remove r

/-- The step is about the volume `name` of `host`. -/
def Concerns (e : Entry) (host name : String) : Prop :=
  e.backup.host = host ∧ e.backup.volume = name

instance (e : Entry) (host name : String) : Decidable (e.Concerns host name) :=
  inferInstanceAs (Decidable (_ ∧ _))

theorem apply_eq (e : Entry) (s : State) :
    e.apply s = s.onLedger e.backup.host e.backup.volume e.onLedger.apply := by
  cases e <;> rfl

theorem volumes_apply (e : Entry) (s : State) : (e.apply s).2.volumes =
    (onVolume e.backup.host e.backup.volume e.onLedger.apply s.volumes).2 := by
  rw [apply_eq]
  rfl

theorem volume?_apply (e : Entry) (s : State) (host name : String) :
    (e.apply s).2.volume? host name = (s.volume? host name).map fun v =>
      if e.Concerns host name then reworked e.onLedger.apply v else v := by
  rw [volume?, volumes_apply, find?_onVolume]
  rfl

end Entry

/-- The state after a history. -/
def after (s : State) (es : List Entry) : State :=
  es.foldl (fun s e => (e.apply s).2) s

@[simp] theorem after_cons (s : State) (e : Entry) (es : List Entry) :
    s.after (e :: es) = (e.apply s).2.after es := rfl

/-- What a history means to one ledger. -/
def historyOf (host name : String) (es : List Entry) : List Ledger.Entry :=
  (es.filter (·.Concerns host name)).map Entry.onLedger

theorem policies_after (s : State) (es : List Entry) :
    (s.after es).volumes.map policy = s.volumes.map policy := by
  induction es generalizing s with
  | nil => rfl
  | cons e es ih =>
    rw [after_cons, ih, e.volumes_apply]
    exact map_policy_onVolume _ _ _ s.volumes

theorem Built.after {s : State} (h : Built s) (es : List Entry) : Built (s.after es) := by
  induction es generalizing s with
  | nil => exact h
  | cons e es ih =>
    cases e with
    | add r => exact ih (h.add r)
    | remove r => exact ih (h.remove r)

/-- A history leaves of each ledger what its own steps make of it. -/
theorem volume?_after (s : State) (es : List Entry) (host name : String) :
    (s.after es).volume? host name = (s.volume? host name).map fun v =>
      { v with ledger := Ledger.after Ledger.Entry.apply v.ledger (historyOf host name es) } := by
  induction es generalizing s with
  | nil => simp [after, historyOf]
  | cons e es ih =>
    rw [after_cons, ih, e.volume?_apply, Option.map_map]
    congr 1
    funext v
    by_cases own : e.Concerns host name <;> simp [historyOf, own, reworked]

/-- The volumes of a state bear the names of the configured ones. -/
theorem exists_named_iff {c : Config} (es : List Entry) (host name : String) :
    (∃ v ∈ ((ofConfig c).after es).volumes, v.host = host ∧ v.name = name) ↔
      c.Lists host name := by
  have configured : (∃ v ∈ (ofConfig c).volumes, v.host = host ∧ v.name = name) ↔
      c.Lists host name := by
    simp [ofConfig, Config.Lists]
  rw [← configured]
  have same := policies_after (ofConfig c) es
  generalize (ofConfig c).after es = s at same
  have names (s : State) : (∃ v ∈ s.volumes, v.host = host ∧ v.name = name) ↔
      ∃ p ∈ s.volumes.map policy, p.1 = host ∧ p.2.1 = name := by
    simp [policy]
  rw [names, names, same]

/-- What a history leaves of the state of a configuration. -/
structure Isolated (c : Config) (es : List Entry) (s : State) : Prop where
  /-- The volumes are the configured ones, with their policies. -/
  volumes : s.volumes.map policy = c.hosts.flatMap fun (host, h) =>
    h.volumes.map fun (name, w) => (host, name, w.pruneAge, w.minBackups)
  /-- Every record is in the volume that it names. -/
  named : ∀ v ∈ s.volumes, ∀ r ∈ v.ledger.records,
    r.backup.host = v.host ∧ r.backup.volume = v.name
  /-- A ledger is what the steps that concern its volume have made of an empty one. -/
  ledger : ∀ host name v, s.volume? host name = some v →
    v.ledger = Ledger.ofHistory (historyOf host name es)
  /-- A step that concerns no configured volume is refused and changes nothing. -/
  unknown : ∀ e : Entry, ¬ c.Lists e.backup.host e.backup.volume → e.apply s = (false, s)
  /-- Any other step gets its answer from the one ledger that it concerns and changes at most
  this one. -/
  known : ∀ e : Entry, c.Lists e.backup.host e.backup.volume → ∃ before v later,
    s.volumes = before ++ v :: later ∧ e.Concerns v.host v.name ∧
      (∀ u ∈ before, ¬ e.Concerns u.host u.name) ∧
      e.apply s = ((e.onLedger.apply v.ledger).1,
        ⟨before ++ { v with ledger := (e.onLedger.apply v.ledger).2 } :: later⟩)
  /-- Steps that concern different volumes, configured or not, can be taken in either order. -/
  comm : ∀ e f : Entry, ¬ e.Concerns f.backup.host f.backup.volume →
    (e.apply (f.apply s).2).1 = (e.apply s).1 ∧ (f.apply (e.apply s).2).1 = (f.apply s).1 ∧
      (e.apply (f.apply s).2).2 = (f.apply (e.apply s).2).2

/-- Whatever records come and go, the volumes of a state stay what is configured, each record is
in the volume that it names, and nothing that is done to the records of one volume has to do with
those of another, be it of the same name on another host. -/
theorem isolated (c : Config) (es : List Entry) : Isolated c es ((ofConfig c).after es) := by
  have listed := exists_named_iff (c := c) es
  refine ⟨?_, ((Built.ofConfig c).after es).shelved.named, ?_, ?_, ?_, ?_⟩
  · rw [policies_after, ofConfig, List.map_flatMap]
    simp [policy, Function.comp_def]
  · intro host name v found
    rw [volume?_after, Option.map_eq_some_iff] at found
    obtain ⟨u, configured, rfl⟩ := found
    have empty := ledger_of_ofConfig c u (List.mem_of_find?_eq_some configured)
    simp only [empty]
    rfl
  · intro e absent
    rw [← listed] at absent
    push Not at absent
    have none : ∀ v ∈ ((ofConfig c).after es).volumes,
        ¬ (v.host = e.backup.host ∧ v.name = e.backup.volume) :=
      fun v hv named => absent v hv named.1 named.2
    rw [e.apply_eq, onLedger, onVolume_eq_self none]
  · intro e present
    obtain ⟨v, hv, named⟩ := (listed _ _).2 present
    generalize (ofConfig c).after es = s at hv
    have found : (s.volumes.find? fun u =>
        u.host = e.backup.host ∧ u.name = e.backup.volume).isSome := by
      rw [List.find?_isSome]
      exact ⟨v, hv, by simpa using named⟩
    obtain ⟨u, hu⟩ := Option.isSome_iff_exists.1 found
    obtain ⟨own, before, later, split, others⟩ := List.find?_eq_some_iff_append.1 hu
    have own : u.host = e.backup.host ∧ u.name = e.backup.volume := by simpa using own
    have absent : ∀ w ∈ before, ¬ (w.host = e.backup.host ∧ w.name = e.backup.volume) := by
      simpa [imp_iff_not_or] using others
    refine ⟨before, u, later, split, ⟨own.1.symm, own.2.symm⟩, ?_, ?_⟩
    · intro w hw concerned
      exact absent w hw ⟨concerned.1.symm, concerned.2.symm⟩
    · rw [e.apply_eq, onLedger, split, onVolume_append absent own]
      rfl
  · intro e f apart
    generalize (ofConfig c).after es = s
    have apart' : ¬ f.Concerns e.backup.host e.backup.volume :=
      fun h => apart ⟨h.1.symm, h.2.symm⟩
    have one := onVolume_comm e.onLedger.apply f.onLedger.apply s.volumes apart
    have other := onVolume_comm f.onLedger.apply e.onLedger.apply s.volumes apart'
    refine ⟨?_, ?_, ?_⟩
    · simpa only [Entry.apply_eq, onLedger] using one.1
    · simpa only [Entry.apply_eq, onLedger] using other.1
    · simpa only [Entry.apply_eq, onLedger, State.mk.injEq] using one.2

/-- Volumes of one name on two hosts, and a record of no configured volume. -/
example :
    let volumes : Keyed VolumeSettings := [("v", { path := "/" })]
    let c : Config := { hosts := [("a", ⟨volumes⟩), ("b", ⟨volumes⟩)] }
    let r : Record := ⟨⟨"a", "v", "d", ⟨2024, 1, 5⟩, 0⟩, 0⟩
    let q : Record := ⟨⟨"b", "v", "d", ⟨2024, 1, 5⟩, 0⟩, 1⟩
    let lost : Record := ⟨⟨"b", "w", "d", ⟨2024, 1, 5⟩, 0⟩, 2⟩
    ((ofConfig c).after [.add r, .add q, .add lost, .remove r]).holdings =
      [⟨"a", "v", []⟩, ⟨"b", "v", [q]⟩] := by
  decide

end State

end BackupRetention
