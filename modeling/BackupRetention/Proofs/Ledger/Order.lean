import BackupRetention.Proofs.Ledger.Counts
import Mathlib.Data.List.Pairwise

/-!
# The order of a ledger

Records are filed in the order of their dates and devices, one for each date and device. So
on one device no two have the same date.
-/

namespace BackupRetention

namespace Record

theorem lt_iff {a b : Record} :
    a < b ↔ a.date < b.date ∨ (a.date = b.date ∧ a.device < b.device) :=
  Iff.rfl

theorem lt_trans {a b c : Record} (hab : a < b) (hbc : b < c) : a < c := by
  rcases lt_iff.1 hab with hab | ⟨eab, hab⟩
  · rcases lt_iff.1 hbc with hbc | ⟨ebc, -⟩
    · exact .inl (Date.lt_trans hab hbc)
    · exact .inl (ebc ▸ hab)
  · rcases lt_iff.1 hbc with hbc | ⟨ebc, hbc⟩
    · exact .inl (eab ▸ hbc)
    · exact .inr ⟨eab.trans ebc, String.lt_trans hab hbc⟩

/-- Any two records compare, or claim the same place. -/
theorem lt_trichotomy (a b : Record) : a < b ∨ a.SameKey b ∨ b < a := by
  rcases Date.lt_trichotomy a.date b.date with h | h | h
  · exact .inl (.inl h)
  · by_cases hab : a.device < b.device
    · exact .inl (.inr ⟨h, hab⟩)
    · by_cases hba : b.device < a.device
      · exact .inr (.inr (.inr ⟨h.symm, hba⟩))
      · exact .inr (.inl ⟨h, String.le_antisymm (String.not_lt.1 hba) (String.not_lt.1 hab)⟩)
  · exact .inr (.inr (.inl h))

/-- On one device records stand in the order of their dates. -/
theorem date_lt_of_lt {a b : Record} (h : a < b) (hd : a.device = b.device) :
    a.date < b.date := by
  rcases lt_iff.1 h with h | ⟨-, h⟩
  · exact h
  · exact absurd (hd ▸ h) (String.lt_irrefl _)

end Record

namespace Ledger

theorem mem_file {r x : Record} {rs : List Record} (h : x ∈ (file r rs).2) :
    x = r ∨ x ∈ rs := by
  fun_induction file r rs with
  | case1 => exact .inl (List.mem_singleton.1 h)
  | case2 y ys hlt => exact List.mem_cons.1 h
  | case3 y ys hlt hkey => exact .inr h
  | case4 y ys hlt hkey filed zs hz ih =>
    rw [hz] at ih
    rcases List.mem_cons.1 h with rfl | h
    · exact .inr List.mem_cons_self
    · exact (ih h).imp_right (List.mem_cons_of_mem _)

/-- Filing keeps the order. -/
theorem pairwise_file {r : Record} {rs : List Record} (h : rs.Pairwise (· < ·)) :
    (file r rs).2.Pairwise (· < ·) := by
  fun_induction file r rs with
  | case1 => exact List.pairwise_singleton _ _
  | case2 y ys hlt =>
    refine List.pairwise_cons.2 ⟨?_, h⟩
    intro z hz
    rcases List.mem_cons.1 hz with rfl | hz
    · exact hlt
    · exact Record.lt_trans hlt ((List.pairwise_cons.1 h).1 z hz)
  | case3 y ys hlt hkey => exact h
  | case4 y ys hlt hkey filed zs hz ih =>
    rw [hz] at ih
    obtain ⟨first, others⟩ := List.pairwise_cons.1 h
    refine List.pairwise_cons.2 ⟨?_, ih others⟩
    intro z hzs
    rcases mem_file (hz ▸ hzs : z ∈ (file r ys).2) with rfl | hzs
    · rcases Record.lt_trichotomy z y with h | h | h
      · exact absurd h hlt
      · exact absurd h hkey
      · exact h
    · exact first z hzs

theorem records_remove (l : Ledger) (r : Record) :
    (l.remove r).2.records = l.records.filter (· ≠ r) := by
  unfold Ledger.remove
  split
  · rfl
  · next absent =>
    refine (List.filter_eq_self.2 ?_).symm
    intro x hx
    exact decide_eq_true fun heq => absent (heq ▸ hx)

/-- Of records in order no two have the same date and device. -/
theorem eq_of_ordered {rs : List Record} (h : rs.Pairwise (· < ·)) {a b : Record} (ha : a ∈ rs)
    (hb : b ∈ rs) (hkey : a.SameKey b) : a = b := by
  have : Std.Symm fun a b : Record => ¬ a.SameKey b := ⟨fun _ _ h g => h ⟨g.1.symm, g.2.symm⟩⟩
  have apart : rs.Pairwise fun a b => ¬ a.SameKey b := by
    refine h.imp fun {a b} hlt hkey => ?_
    have hdate := Record.date_lt_of_lt hlt hkey.2
    exact Date.lt_irrefl _ (hkey.1 ▸ hdate)
  by_contra hne
  exact apart.forall ha hb hne hkey

/-- What every ledger keeps that is only ever filled with valid dates. -/
structure Sound (l : Ledger) : Prop where
  ordered : l.records.Pairwise (· < ·)
  dated : ∀ r ∈ l.records, r.date.Valid
  counted : l.Counted

theorem sound_empty : Sound empty := ⟨.nil, by simp [empty], counted_empty⟩

namespace Sound

variable {l : Ledger}

theorem add (h : Sound l) {r : Record} (hr : r.date.Valid) : Sound (l.add r).2 where
  ordered := pairwise_file h.ordered
  dated := by
    intro x hx
    rcases mem_file hx with rfl | hx
    · exact hr
    · exact h.dated x hx
  counted := counted_recount _

theorem remove (h : Sound l) (r : Record) : Sound (l.remove r).2 where
  ordered := by
    rw [records_remove]
    exact h.ordered.filter _
  dated := by
    intro x hx
    rw [records_remove] at hx
    exact h.dated x (List.mem_of_mem_filter hx)
  counted := h.counted.remove r

theorem nodup (h : Sound l) : l.records.Nodup := by
  refine h.ordered.imp fun {a b} hlt heq => ?_
  exact Date.lt_irrefl _ (Record.date_lt_of_lt (heq ▸ hlt : a < a) rfl)

/-- There is one record for each date and device. -/
theorem eq_of_sameKey (h : Sound l) {a b : Record} (ha : a ∈ l.records) (hb : b ∈ l.records)
    (hkey : a.SameKey b) : a = b :=
  eq_of_ordered h.ordered ha hb hkey

end Sound

end Ledger

end BackupRetention
