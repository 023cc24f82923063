import BackupRetention.Proofs.Ledger.Summary
import Mathlib.Data.List.Induction

/-!
# What a ledger stands for

A ledger is a finite map: at each date and on each device there is at most one record. Its list
of records is that map in order, every step answers as the map does, and what the map holds is
told by the history: the records that found their place free and have not been taken out since.

## Main definitions

* `Places`: the map, and `Ledger.Entry.act` what a step means to it.
* `Ledger.Shows`: a ledger lists the records of a map.
* `Ledger.Kept`: a history has filed a record and not taken it out again.
* `Ledger.Exact`: the figures are those of the complete backups, overall and on each device.

## Main results

* `Ledger.Shows.answer`, `Ledger.Shows.apply`: a step on a ledger does what it means.
* `Ledger.mem_after_iff`: what is there after a history.
* `Ledger.refines_places`: the whole contract, for every history.
-/

namespace BackupRetention

/-- At each date and on each device at most one record. -/
def Places := Date → String → Option Record

namespace Places

def free : Places := fun _ _ => none

/-- What stands in the place of `r`. -/
def found (p : Places) (r : Record) : Option Record := p r.date r.device

/-- `p` with `o` in the place of `r`. -/
def set (p : Places) (r : Record) (o : Option Record) : Places := fun date device =>
  if r.date = date ∧ r.device = device then o else p date device

end Places

namespace Ledger

/-- What a step means: a record goes where nothing is, and goes away only from where it is
itself. Marks are no matter. -/
def Entry.act : Entry → Places → Bool × Places
  | .add r, p => if p.found r = none then (true, p.set r (some r)) else (false, p)
  | .remove r, p => if p.found r = some r then (true, p.set r none) else (false, p)
  | .mark _, p => (true, p)
  | .clearMarks, p => (true, p)

section History

variable {σ : Type} (act : Entry → σ → Bool × σ)

/-- What is there after a history. -/
def after (s : σ) (es : List Entry) : σ := es.foldl (fun s e => (act e s).2) s

/-- The answers that its steps get. -/
def answers (s : σ) : List Entry → List Bool
  | [] => []
  | e :: es => (act e s).1 :: answers (act e s).2 es

@[simp] theorem after_nil (s : σ) : after act s [] = s := rfl

@[simp] theorem after_cons (s : σ) (e : Entry) (es : List Entry) :
    after act s (e :: es) = after act (act e s).2 es := rfl

@[simp] theorem after_concat (s : σ) (es : List Entry) (e : Entry) :
    after act s (es ++ [e]) = (act e (after act s es)).2 := by
  simp [after]

end History

/-! ## Steps -/

/-- The place of `r` is free among `rs`. -/
def Vacant (r : Record) (rs : List Record) : Prop := ∀ x ∈ rs, ¬ r.SameKey x

/-- What is filed is what was there, and the record if it is accepted. -/
theorem mem_file_iff {r x : Record} {rs : List Record} :
    x ∈ (file r rs).2 ↔ x ∈ rs ∨ ((file r rs).1 = true ∧ x = r) := by
  fun_induction file r rs <;> grind

/-- A record is accepted where its place is free. -/
theorem file_fst_iff {r : Record} {rs : List Record} (h : rs.Pairwise (· < ·)) :
    (file r rs).1 = true ↔ Vacant r rs := by
  have apart {a b : Record} (lt : a < b) : ¬ a.SameKey b := fun key => by
    have before := Record.date_lt_of_lt lt key.2
    exact Date.lt_irrefl _ (key.1 ▸ before)
  fun_induction file r rs with
  | case1 => simp [Vacant]
  | case2 y ys lt =>
    refine iff_of_true rfl fun x hx => apart ?_
    rcases List.mem_cons.1 hx with rfl | hx
    · exact lt
    · exact Record.lt_trans lt ((List.pairwise_cons.1 h).1 x hx)
  | case3 y ys lt key => exact iff_of_false Bool.false_ne_true fun free => free y (by simp) key
  | case4 y ys lt key filed zs hz ih =>
    have rest : filed = true ↔ Vacant r ys := by simpa [hz] using ih (List.pairwise_cons.1 h).2
    rw [rest]
    exact ⟨fun free x hx => (List.mem_cons.1 hx).elim (· ▸ key) (free x),
      fun free x hx => free x (List.mem_cons_of_mem _ hx)⟩

/-- All that a step changes about what is there. -/
theorem mem_apply_iff {l : Ledger} (h : l.records.Pairwise (· < ·)) {e : Entry} {r : Record} :
    r ∈ (e.apply l).2.records ↔
      (r ∈ l.records ∧ e ≠ .remove r) ∨ (e = .add r ∧ Vacant r l.records) := by
  cases e with
  | add x =>
    have filed : r ∈ (file x l.records).2 ↔ _ := mem_file_iff
    simp only [Entry.apply, Ledger.add, records_recount, filed, file_fst_iff h]
    grind
  | remove x =>
    simp only [Entry.apply, records_remove, List.mem_filter]
    grind
  | mark device => simp [Entry.apply]
  | clearMarks => simp [Entry.apply]

/-- No step disturbs the order. -/
theorem pairwise_apply {l : Ledger} (h : l.records.Pairwise (· < ·)) (e : Entry) :
    (e.apply l).2.records.Pairwise (· < ·) := by
  cases e with
  | add r => exact pairwise_file h
  | remove r =>
    rw [Entry.apply, records_remove]
    exact h.filter _
  | mark device => exact h
  | clearMarks => exact h

/-! ## The map -/

/-- A ledger lists the records of `p` in order. -/
structure Shows (l : Ledger) (p : Places) : Prop where
  ordered : l.records.Pairwise (· < ·)
  eq_some_iff : ∀ date device r,
    p date device = some r ↔ r ∈ l.records ∧ r.date = date ∧ r.device = device

theorem shows_free : Shows empty Places.free where
  ordered := .nil
  eq_some_iff _ _ _ := by simp [Places.free, empty]

namespace Shows

variable {l : Ledger} {p : Places}

theorem found_eq_none_iff (h : Shows l p) (r : Record) :
    p.found r = none ↔ Vacant r l.records := by
  simp only [Option.eq_none_iff_forall_ne_some, Places.found, ne_eq, h.eq_some_iff, Vacant,
    Record.SameKey]
  grind

theorem found_eq_some_iff (h : Shows l p) (r : Record) : p.found r = some r ↔ r ∈ l.records := by
  simp [Places.found, h.eq_some_iff]

/-- A step on a ledger gets the answer of the map. -/
theorem answer (h : Shows l p) (e : Entry) : (e.apply l).1 = (e.act p).1 := by
  cases e with
  | add r =>
    have accepted : (l.add r).1 = true ↔ p.found r = none :=
      (file_fst_iff h.ordered).trans (h.found_eq_none_iff r).symm
    rw [Entry.act, Entry.apply, Bool.eq_iff_iff, accepted]
    split <;> simp [*]
  | remove r =>
    have here := h.found_eq_some_iff r
    rw [Entry.act, Entry.apply, Ledger.remove]
    split <;> simp [*]
  | mark device => rfl
  | clearMarks => rfl

/-- A step on a ledger does what it means to the map. -/
theorem apply (h : Shows l p) (e : Entry) : Shows (e.apply l).2 (e.act p).2 := by
  refine ⟨pairwise_apply h.ordered e, fun date device r => ?_⟩
  have old := h.eq_some_iff date device r
  rw [mem_apply_iff h.ordered]
  cases e with
  | add x =>
    have free := h.found_eq_none_iff x
    rw [Entry.act]
    split
    · have vacant := free.1 ‹_›
      have apart := vacant r
      simp only [Places.set, Record.SameKey] at apart ⊢
      split <;> grind
    · have taken := mt free.2 ‹_›
      grind
  | remove x =>
    have here := h.found_eq_some_iff x
    have same : x ∈ l.records → r ∈ l.records → x.SameKey r → x = r := eq_of_ordered h.ordered
    simp only [Record.SameKey] at same
    rw [Entry.act]
    split
    · simp only [Places.set]
      split <;> grind
    · grind
  | mark device => simpa [Entry.act] using old
  | clearMarks => simpa [Entry.act] using old

/-- So does a history. -/
theorem after (h : Shows l p) (es : List Entry) :
    answers Entry.apply l es = answers Entry.act p es ∧
      Shows (Ledger.after Entry.apply l es) (Ledger.after Entry.act p es) := by
  induction es generalizing l p with
  | nil => exact ⟨rfl, h⟩
  | cons e es ih =>
    obtain ⟨others, last⟩ := ih (h.apply e)
    exact ⟨by rw [answers, answers, h.answer e, others], last⟩

end Shows

/-! ## Histories -/

/-- The ledger that a history makes. -/
def ofHistory (es : List Entry) : Ledger := after Entry.apply empty es

/-- The history has filed `r` where nothing was, and has not taken it out since. -/
def Kept (r : Record) (es : List Entry) : Prop :=
  ∃ before later, es = before ++ .add r :: later ∧ Vacant r (ofHistory before).records ∧
    .remove r ∉ later

theorem not_kept_nil (r : Record) : ¬ Kept r [] := by
  rintro ⟨before, later, split, -⟩
  simp at split

/-- A record is kept by one step more if it was kept and is not taken out, or is filed now. -/
theorem kept_concat_iff {r : Record} {es : List Entry} {e : Entry} :
    Kept r (es ++ [e]) ↔
      (Kept r es ∧ e ≠ .remove r) ∨ (e = .add r ∧ Vacant r (ofHistory es).records) := by
  constructor
  · rintro ⟨before, later, split, vacant, stays⟩
    rcases List.eq_nil_or_concat later with rfl | ⟨later, x, rfl⟩
    · obtain ⟨rfl, last⟩ := List.append_inj' split rfl
      exact .inr ⟨List.singleton_inj.1 last, vacant⟩
    · rw [List.concat_eq_append, ← List.cons_append, ← List.append_assoc] at split
      obtain ⟨rfl, last⟩ := List.append_inj' split rfl
      obtain rfl := List.singleton_inj.1 last
      simp only [List.concat_eq_append, List.mem_append, List.mem_singleton, not_or] at stays
      exact .inl ⟨⟨before, later, rfl, vacant, stays.1⟩, Ne.symm stays.2⟩
  · rintro (⟨⟨before, later, rfl, vacant, stays⟩, other⟩ | ⟨rfl, vacant⟩)
    · refine ⟨before, later ++ [e], by simp, vacant, ?_⟩
      simp [stays, Ne.symm other]
    · exact ⟨es, [], rfl, vacant, List.not_mem_nil⟩

/-- What is there after a history: what it has kept. -/
theorem mem_ofHistory_iff {es : List Entry} {r : Record} :
    r ∈ (ofHistory es).records ↔ Kept r es := by
  induction es using List.reverseRecOn with
  | nil => exact iff_of_false List.not_mem_nil (not_kept_nil r)
  | append_singleton es e ih =>
    have ordered := (shows_free.after es).2.ordered
    rw [kept_concat_iff, ← ih]
    show r ∈ (after Entry.apply empty (es ++ [e])).records ↔ _
    rw [after_concat, mem_apply_iff ordered]
    rfl

theorem summed_ofHistory (es : List Entry) : Summed (ofHistory es) := by
  induction es using List.reverseRecOn with
  | nil => exact summed_empty
  | append_singleton es e ih =>
    rw [ofHistory, after_concat]
    exact ih.apply e

/-- The figures are those of the complete backups, overall and on each device that has one. So
the devices add up to the whole, and lie within it. -/
structure Exact (l : Ledger) : Prop where
  summed : l.Summed
  entry : ∀ device, (∃ t, (device, t) ∈ l.figures.devices) ↔
    ∃ r ∈ l.records, r.isComplete = true ∧ r.device = device
  total : (l.figures.devices.map fun e => e.2.count).sum = l.figures.completed
  within : ∀ e ∈ l.figures.devices, ∃ oldest newest, l.figures.oldest = some oldest ∧
    l.figures.newest = some newest ∧ ¬ e.2.oldest < oldest ∧ ¬ newest < e.2.newest

theorem Summed.exact {l : Ledger} (h : Summed l) : Exact l where
  summed := h
  entry device := by
    rw [Figures.Sums.exists_mem_iff h]
    simp [and_assoc]
  total := Figures.Sums.total h
  within _ mem := Figures.Sums.within h mem

/-- For every history: the answers are those of the map, the records are listed in order as the
map has them, they are the ones that were filed where nothing was and not taken out since, and
the figures are those of the complete ones. -/
theorem refines_places (es : List Entry) :
    answers Entry.apply empty es = answers Entry.act Places.free es ∧
      Shows (ofHistory es) (after Entry.act Places.free es) ∧
      (∀ r, r ∈ (ofHistory es).records ↔ Kept r es) ∧
      Exact (ofHistory es) :=
  have ⟨answered, shown⟩ := shows_free.after es
  ⟨answered, shown, fun _ => mem_ofHistory_iff, (summed_ofHistory es).exact⟩

end Ledger

end BackupRetention
