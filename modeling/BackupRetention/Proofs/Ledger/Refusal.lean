import BackupRetention.Proofs.Ledger.Refinement

/-!
# Refused steps

A record is not filed where another one is, and what is not there is not taken out. The refusal to
take out changes nothing. The refusal to file changes no record, but the figures are worked out
anew, which forgets the backups that were picked: nothing changes exactly if none was.

## Main results

* `Ledger.recount_ofHistory`: figures worked out anew are the old ones without marks.
* `Ledger.refused_unchanged_iff`: what is left of a ledger after a refusal.
-/

namespace BackupRetention

namespace Figures

theorem clearMarks_eq_self_iff {f : Figures} :
    f.clearMarks = f ↔ ∀ e ∈ f.devices, e.2.marked = 0 := by
  obtain ⟨completed, oldest, newest, devices⟩ := f
  simp only [clearMarks, mk.injEq, true_and]
  induction devices with
  | nil => simp
  | cons e devices ih =>
    rw [List.map_cons, List.cons.injEq, ih, List.forall_mem_cons]
    refine and_congr_left fun _ => ?_
    obtain ⟨device, count, first, last, marked⟩ := e
    simp [eq_comm]

@[simp] theorem clearMarks_clearMarks (f : Figures) : f.clearMarks.clearMarks = f.clearMarks := by
  simp [clearMarks]

@[simp] theorem clearMarks_mark (f : Figures) (device : String) :
    (f.mark device).clearMarks = f.clearMarks := by
  simp only [clearMarks, mark, List.map_map, mk.injEq, true_and]
  refine List.map_congr_left fun e _ => ?_
  by_cases here : e.1 = device <;> simp [here]

theorem marked_of_mem_countOn {device : String} {date : Date} {l : List (String × Tally)}
    (none : ∀ e ∈ l, e.2.marked = 0) : ∀ e ∈ countOn device date l, e.2.marked = 0 := by
  fun_induction countOn device date l with
  | case1 => simp [Tally.first]
  | case2 d t rest before => simpa [Tally.first] using none
  | case3 t rest here => simpa [Tally.extend] using none
  | case4 d t rest before other ih =>
    rw [List.forall_mem_cons] at none ⊢
    exact ⟨none.1, ih none.2⟩

/-- Figures that are worked out anew have no marks. -/
@[simp] theorem clearMarks_ofRecords (rs : List Record) :
    (ofRecords rs).clearMarks = ofRecords rs := by
  have goOn (cs : List Record) (f : Figures) (none : ∀ e ∈ f.devices, e.2.marked = 0) :
      ∀ e ∈ (cs.foldl extend f).devices, e.2.marked = 0 := by
    induction cs generalizing f with
    | nil => exact none
    | cons c cs ih => exact ih (f.extend c) (marked_of_mem_countOn none)
  exact clearMarks_eq_self_iff.2 (goOn _ zero (by simp [zero]))

end Figures

namespace Ledger

@[simp] theorem clearMarks_recount (rs : List Record) : (recount rs).clearMarks = recount rs :=
  congrArg (mk rs) (Figures.clearMarks_ofRecords rs)

@[simp] theorem clearMarks_mark (l : Ledger) (device : String) :
    (l.mark device).clearMarks = l.clearMarks :=
  congrArg (mk l.records) (l.figures.clearMarks_mark device)

@[simp] theorem clearMarks_clearMarks (l : Ledger) : l.clearMarks.clearMarks = l.clearMarks :=
  congrArg (mk l.records) l.figures.clearMarks_clearMarks

/-- A step keeps the figures, but for marks, such as they are worked out from the records. -/
theorem recount_apply {l : Ledger} (h : recount l.records = l.clearMarks) (e : Entry) :
    recount (e.apply l).2.records = (e.apply l).2.clearMarks := by
  cases e with
  | add r => simp [Entry.apply, Ledger.add]
  | remove r =>
    by_cases here : r ∈ l.records
    · simp [Entry.apply, Ledger.remove, here]
    · rwa [Entry.apply, remove_of_not_mem here]
  | mark device => simpa [Entry.apply] using h
  | clearMarks => simpa [Entry.apply] using h

/-- Whatever has happened, figures worked out anew are the old ones without marks. -/
theorem recount_ofHistory (es : List Entry) :
    recount (ofHistory es).records = (ofHistory es).clearMarks := by
  induction es using List.reverseRecOn with
  | nil => rfl
  | append_singleton es e ih =>
    rw [ofHistory, after_concat]
    exact recount_apply ih e

theorem remove_of_refused {l : Ledger} {r : Record} (refused : (l.remove r).1 = false) :
    (l.remove r).2 = l := by
  unfold Ledger.remove at refused ⊢
  split at refused
  · cases refused
  · next absent => rw [if_neg absent]

theorem file_of_refused {r : Record} {rs : List Record} (refused : (file r rs).1 = false) :
    (file r rs).2 = rs := by
  fun_induction file r rs with
  | case1 | case2 => cases refused
  | case3 => rfl
  | case4 x xs before other filed ys split ih =>
    rw [split] at ih
    exact congrArg (x :: ·) (ih refused)

/-- Nothing is picked on any device exactly if clearing the marks changes nothing. -/
theorem Summed.clearMarks_eq_self_iff {l : Ledger} (h : l.Summed) : l.clearMarks = l ↔
    ∀ device t, l.tally? device = some t → t.marked = 0 := by
  have own : l.clearMarks = l ↔ l.figures.clearMarks = l.figures := by
    obtain ⟨records, figures⟩ := l
    simp [Ledger.clearMarks]
  rw [own, Figures.clearMarks_eq_self_iff]
  constructor
  · intro none device t found
    obtain ⟨before, after, split, -⟩ := List.lookup_eq_some_iff.1 found
    exact none (device, t) (by simp [split])
  · rintro none ⟨device, t⟩ mem
    exact none device t (Figures.tally?_of_mem h.sorted mem)

/-- After any history, a record that is not taken out leaves the ledger as it was. One that is not
filed leaves it without marks, and so as it was exactly if no device bears any. -/
theorem refused_unchanged_iff (es : List Entry) (r : Record) :
    (((ofHistory es).remove r).1 = false → ((ofHistory es).remove r).2 = ofHistory es) ∧
    (((ofHistory es).add r).1 = false →
      ((ofHistory es).add r).2 = (ofHistory es).clearMarks ∧
      (((ofHistory es).add r).2 = ofHistory es ↔
        ∀ device t, (ofHistory es).tally? device = some t → t.marked = 0)) := by
  refine ⟨remove_of_refused, fun refused => ?_⟩
  have forgetful : ((ofHistory es).add r).2 = (ofHistory es).clearMarks := by
    rw [← recount_ofHistory]
    exact congrArg recount (file_of_refused refused)
  exact ⟨forgetful, by rw [forgetful, (summed_ofHistory es).clearMarks_eq_self_iff]⟩

/-- A backup on one device, and another record for the same place. -/
def firstHeld : Record := ⟨⟨"host1", "vol1", "dev0", ⟨2024, 1, 5⟩, 0⟩, 0⟩

def lookalike : Record := ⟨firstHeld.backup, 1⟩

/-- The other record is neither taken out nor filed: with a mark, without one. -/
theorem refused_unchanged_lookalike :
    ((ofHistory [.add firstHeld, .mark "dev0"]).remove lookalike =
      (false, ofHistory [.add firstHeld, .mark "dev0"])) ∧
    (ofHistory [.add firstHeld]).add lookalike = (false, ofHistory [.add firstHeld]) := by
  have kept := (refused_unchanged_iff [.add firstHeld, .mark "dev0"] lookalike).1 (by decide)
  have unmarked : ∀ device t, (ofHistory [.add firstHeld]).tally? device = some t →
      t.marked = 0 := by
    intro device t found
    obtain ⟨before, after, split, -⟩ := List.lookup_eq_some_iff.1 found
    have mem : (device, t) ∈ [("dev0", Tally.mk 1 ⟨2024, 1, 5⟩ ⟨2024, 1, 5⟩ 0)] := by
      have whole : (ofHistory [.add firstHeld]).figures.devices =
          [("dev0", ⟨1, ⟨2024, 1, 5⟩, ⟨2024, 1, 5⟩, 0⟩)] := by decide
      rw [← whole, split]
      simp
    simp_all
  have filed := (refused_unchanged_iff [.add firstHeld] lookalike).2 (by decide)
  exact ⟨Prod.ext (by decide) kept, Prod.ext (by decide) (filed.2.2 unmarked)⟩

/-- A record that is not filed takes the mark from the device, whose backup then counts as one that
remains. -/
theorem refused_forgets_mark :
    ((ofHistory [.add firstHeld, .mark "dev0"]).add lookalike).1 = false ∧
    ((ofHistory [.add firstHeld, .mark "dev0"]).tally? "dev0").map Tally.remaining = some 0 ∧
    (((ofHistory [.add firstHeld, .mark "dev0"]).add lookalike).2.tally? "dev0").map
      Tally.remaining = some 1 := by
  decide

end Ledger

end BackupRetention
