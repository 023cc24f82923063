import BackupRetention.Proofs.Ledger.Order
import Mathlib.Algebra.GroupWithZero.Nat

/-!
# Figures as sums

The figures of a ledger are worked out by going through its complete backups one by one. What
comes out is their number, the first and the last of their dates, and the same for each device
that has any.

## Main definitions

* `Date.Earliest`, `Date.Latest`: the first and the last of some dates, if there are any.
* `Figures.Sums`: figures say what there is to say of some complete backups.
* `Ledger.Summed`: the figures of a ledger are those of its complete backups.

## Main results

* `Figures.sums_ofRecords`: figures that are worked out anew are right.
* `Ledger.Summed.apply`: no step in the life of a ledger makes them wrong.
-/

namespace BackupRetention

namespace Date

/-- The first of some dates, if there are any. -/
def Earliest : Option Date → List Date → Prop
  | none, ds => ds = []
  | some d, ds => d ∈ ds ∧ ∀ e ∈ ds, ¬ e < d

/-- The last of some dates, if there are any. -/
def Latest : Option Date → List Date → Prop
  | none, ds => ds = []
  | some d, ds => d ∈ ds ∧ ∀ e ∈ ds, ¬ d < e

/-- One date more is the first one, or comes after the first one there was. -/
theorem Earliest.snoc {o : Option Date} {ds : List Date} (d : Date) : Earliest o ds →
    Earliest (some (match o with | none => d | some e => e.earlier d)) (ds ++ [d]) := by
  intro h
  cases o with
  | none =>
    obtain rfl : ds = [] := h
    exact ⟨by simp, by simp [lt_irrefl]⟩
  | some e =>
    obtain ⟨he, first⟩ := h
    show Earliest (some (e.earlier d)) (ds ++ [d])
    by_cases before : d < e
    · rw [earlier, if_pos before]
      refine ⟨by simp, fun x hx lt => ?_⟩
      rcases List.mem_append.1 hx with hx | hx
      · exact first x hx (lt_trans lt before)
      · exact lt_irrefl d (List.mem_singleton.1 hx ▸ lt)
    · rw [earlier, if_neg before]
      refine ⟨by simp [he], fun x hx => ?_⟩
      rcases List.mem_append.1 hx with hx | hx
      · exact first x hx
      · exact List.mem_singleton.1 hx ▸ before

/-- One date more is the last one, or comes before the last one there was. -/
theorem Latest.snoc {o : Option Date} {ds : List Date} (d : Date) : Latest o ds →
    Latest (some (match o with | none => d | some e => e.later d)) (ds ++ [d]) := by
  intro h
  cases o with
  | none =>
    obtain rfl : ds = [] := h
    exact ⟨by simp, by simp [lt_irrefl]⟩
  | some e =>
    obtain ⟨he, last⟩ := h
    show Latest (some (e.later d)) (ds ++ [d])
    by_cases after : e < d
    · rw [later, if_pos after]
      refine ⟨by simp, fun x hx lt => ?_⟩
      rcases List.mem_append.1 hx with hx | hx
      · exact last x hx (lt_trans after lt)
      · exact lt_irrefl d (List.mem_singleton.1 hx ▸ lt)
    · rw [later, if_neg after]
      refine ⟨by simp [he], fun x hx => ?_⟩
      rcases List.mem_append.1 hx with hx | hx
      · exact last x hx
      · exact List.mem_singleton.1 hx ▸ after

/-- Some dates have a first one, and it is no later than the first of fewer. -/
theorem Earliest.of_subset {o : Option Date} {ds es : List Date} {d : Date} (h : Earliest o ds)
    (hd : Earliest (some d) es) (sub : es ⊆ ds) : ∃ e, o = some e ∧ ¬ d < e := by
  cases o with
  | none => exact absurd (h ▸ sub hd.1) List.not_mem_nil
  | some e => exact ⟨e, rfl, h.2 d (sub hd.1)⟩

theorem Latest.of_subset {o : Option Date} {ds es : List Date} {d : Date} (h : Latest o ds)
    (hd : Latest (some d) es) (sub : es ⊆ ds) : ∃ e, o = some e ∧ ¬ e < d := by
  cases o with
  | none => exact absurd (h ▸ sub hd.1) List.not_mem_nil
  | some e => exact ⟨e, rfl, h.2 d (sub hd.1)⟩

end Date

/-- What there is to say of the dates on one device; of none, nothing. -/
def Tally.Sums : Option Tally → List Date → Prop
  | none, ds => ds = []
  | some t, ds =>
    t.count = ds.length ∧ Date.Earliest (some t.oldest) ds ∧ Date.Latest (some t.newest) ds

namespace Tally

theorem Sums.snoc {o : Option Tally} {ds : List Date} (d : Date) : Sums o ds →
    Sums (some (match o with | none => first d | some t => t.extend d)) (ds ++ [d]) := by
  intro h
  cases o with
  | none =>
    obtain rfl : ds = [] := h
    exact ⟨rfl, .snoc (o := none) d rfl, .snoc (o := none) d rfl⟩
  | some t =>
    obtain ⟨count, oldest, newest⟩ := h
    exact ⟨by simp [extend, count], oldest.snoc d, newest.snoc d⟩

/-- Marks are none of the sums. -/
theorem Sums.mark {o : Option Tally} {ds : List Date} (h : Sums o ds) (marked : Tally → Nat) :
    Sums (o.map fun t => { t with marked := marked t }) ds := by
  cases o <;> exact h

end Tally

namespace Figures

/-- The dates of the backups on one device. -/
def datesOn (device : String) (rs : List Record) : List Date :=
  (rs.filter fun r => r.device = device).map Record.date

theorem mem_datesOn {device : String} {rs : List Record} {d : Date} :
    d ∈ datesOn device rs ↔ ∃ r ∈ rs, r.device = device ∧ r.date = d := by
  simp [datesOn, and_assoc]

/-- Figures say of some complete backups how many there are, and from when to when, in all and
on each device. -/
structure Sums (f : Figures) (rs : List Record) : Prop where
  completed : f.completed = rs.length
  oldest : Date.Earliest f.oldest (rs.map Record.date)
  newest : Date.Latest f.newest (rs.map Record.date)
  sorted : Keyed.Sorted f.devices
  tally : ∀ device, Tally.Sums (f.tally? device) (datesOn device rs)
  total : (f.devices.map fun e => e.2.count).sum = f.completed

theorem sum_countOn (device : String) (date : Date) (l : List (String × Tally)) :
    ((countOn device date l).map fun e => e.2.count).sum =
      (l.map fun e => e.2.count).sum + 1 := by
  fun_induction countOn device date l <;> grind [Tally.first, Tally.extend]

theorem sums_zero : Sums zero [] where
  completed := rfl
  oldest := rfl
  newest := rfl
  sorted := .nil
  tally _ := rfl
  total := rfl

/-- One backup more. -/
theorem Sums.extend {f : Figures} {rs : List Record} (h : Sums f rs) (r : Record) :
    Sums (f.extend r) (rs ++ [r]) where
  completed := by simp [Figures.extend, h.completed]
  oldest := by
    rw [List.map_append]
    exact h.oldest.snoc r.date
  newest := by
    rw [List.map_append]
    exact h.newest.snoc r.date
  sorted := sorted_countOn h.sorted
  tally device := by
    rw [tally?, Figures.extend, lookup_countOn h.sorted]
    by_cases own : device = r.device
    · have more : datesOn device (rs ++ [r]) = datesOn device rs ++ [r.date] := by
        simp [datesOn, own]
      rw [if_pos own, more, ← own]
      exact (h.tally device).snoc r.date
    · have same : datesOn device (rs ++ [r]) = datesOn device rs := by
        simp [datesOn, Ne.symm own]
      rw [if_neg own, same]
      exact h.tally device
  total := (sum_countOn _ _ _).trans (congrArg (· + 1) h.total)

/-- Figures that are worked out anew are right. -/
theorem sums_ofRecords (rs : List Record) :
    Sums (ofRecords rs) (rs.filter Record.isComplete) := by
  have goOn (cs : List Record) :
      ∀ {f ds}, Sums f ds → Sums (cs.foldl Figures.extend f) (ds ++ cs) := by
    induction cs with
    | nil => exact fun h => by simpa using h
    | cons c cs ih => exact fun h => by simpa using ih (h.extend c)
  exact goOn (rs.filter Record.isComplete) sums_zero

/-- A change of marks alone. -/
theorem Sums.remark {f g : Figures} {rs : List Record} (h : Sums f rs)
    (marked : String → Tally → Nat)
    (same : g = ⟨f.completed, f.oldest, f.newest, f.devices.map fun e =>
      (e.1, { e.2 with marked := marked e.1 e.2 })⟩) : Sums g rs := by
  subst same
  refine ⟨h.completed, h.oldest, h.newest, List.pairwise_map.2 h.sorted, fun device => ?_, ?_⟩
  · rw [tally?, lookup_map fun d t => { t with marked := marked d t }]
    exact (h.tally device).mark (marked device)
  · rw [List.map_map]
    exact h.total

theorem Sums.mark {f : Figures} {rs : List Record} (h : Sums f rs) (device : String) :
    Sums (f.mark device) rs := by
  refine h.remark (fun d t => if d = device then t.marked + 1 else t.marked) ?_
  simp only [Figures.mark]
  congr 2
  funext e
  split <;> rfl

theorem Sums.clearMarks {f : Figures} {rs : List Record} (h : Sums f rs) :
    Sums f.clearMarks rs :=
  h.remark (fun _ _ => 0) rfl

variable {f : Figures} {rs : List Record}

/-- The entry of a device is the one that is found for it. -/
theorem tally?_of_mem (h : Keyed.Sorted f.devices) {device : String} {t : Tally}
    (mem : (device, t) ∈ f.devices) : f.tally? device = some t := by
  unfold tally?
  generalize f.devices = l at h mem
  induction l with
  | nil => cases mem
  | cons e l ih =>
    obtain ⟨first, others⟩ := List.pairwise_cons.1 h
    rw [lookup_cons_ite]
    rcases List.mem_cons.1 mem with rfl | mem
    · rw [if_pos rfl]
    · rw [if_neg (String.ne_of_lt (first _ mem)).symm]
      exact ih others mem

/-- Every entry sums up the backups on its device. -/
theorem Sums.of_mem (h : Sums f rs) {e : String × Tally} (mem : e ∈ f.devices) :
    Tally.Sums (some e.2) (datesOn e.1 rs) := by
  rw [← tally?_of_mem h.sorted mem]
  exact h.tally e.1

/-- There is an entry for a device exactly when it has a complete backup. -/
theorem Sums.exists_mem_iff (h : Sums f rs) {device : String} :
    (∃ t, (device, t) ∈ f.devices) ↔ ∃ r ∈ rs, r.device = device := by
  constructor
  · rintro ⟨t, mem⟩
    obtain ⟨r, hr, own, -⟩ := mem_datesOn.1 (h.of_mem mem).2.1.1
    exact ⟨r, hr, own⟩
  · rintro ⟨r, hr, own⟩
    have some : r.date ∈ datesOn device rs := mem_datesOn.2 ⟨r, hr, own, rfl⟩
    have tally := h.tally device
    cases found : f.tally? device with
    | none =>
      rw [found] at tally
      exact absurd (tally ▸ some) List.not_mem_nil
    | some t =>
      obtain ⟨before, after, split, -⟩ := List.lookup_eq_some_iff.1 found
      exact ⟨t, by simp [split]⟩

/-- The backups on a device lie between the oldest and the newest of all. -/
theorem Sums.within (h : Sums f rs) {e : String × Tally} (mem : e ∈ f.devices) :
    ∃ oldest newest, f.oldest = some oldest ∧ f.newest = some newest ∧
      ¬ e.2.oldest < oldest ∧ ¬ newest < e.2.newest := by
  obtain ⟨-, first, last⟩ := h.of_mem mem
  have sub : datesOn e.1 rs ⊆ rs.map Record.date := fun d hd => by
    obtain ⟨r, hr, -, date⟩ := mem_datesOn.1 hd
    exact List.mem_map.2 ⟨r, hr, date⟩
  obtain ⟨oldest, ho, notBefore⟩ := h.oldest.of_subset first sub
  obtain ⟨newest, hn, notAfter⟩ := h.newest.of_subset last sub
  exact ⟨oldest, newest, ho, hn, notBefore, notAfter⟩

end Figures

namespace Ledger

/-- The figures of a ledger are those of its complete backups. -/
def Summed (l : Ledger) : Prop :=
  l.figures.Sums (l.records.filter Record.isComplete)

theorem summed_empty : Summed empty := Figures.sums_zero

theorem summed_recount (rs : List Record) : Summed (recount rs) := Figures.sums_ofRecords rs

/-- No step makes the figures wrong. -/
theorem Summed.apply {l : Ledger} (h : Summed l) (e : Entry) : Summed (e.apply l).2 := by
  cases e with
  | add r => exact summed_recount _
  | remove r =>
    simp only [Entry.apply, Ledger.remove]
    split
    · exact summed_recount _
    · exact h
  | mark device => exact h.mark device
  | clearMarks => exact h.clearMarks

end Ledger

end BackupRetention
