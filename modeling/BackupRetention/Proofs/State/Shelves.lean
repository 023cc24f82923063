import BackupRetention.Proofs.State.Built

/-!
# Shelves

What a volume holds, apart from the serial numbers of its records. A state that was filled with
records of the same backups has the same shelves, whatever the order in which they came and
whatever their numbers.

## Main definitions

* `State.shelves`: the backups that the volumes hold.
* `State.Consistent`: records for one place in one volume are of the same backup.

## Main results

* `State.shelves_fill`: filling with fewer records.
* `State.shelves_without`: removing records.
-/

namespace BackupRetention

/-- The backups that a volume holds, in order. -/
structure Shelf where
  host : String
  name : String
  backups : List Backup
  deriving DecidableEq, Repr

def Volume.shelf (v : Volume) : Shelf := ⟨v.host, v.name, v.ledger.records.map Record.backup⟩

def Holding.shelf (h : Holding) : Shelf := ⟨h.host, h.name, h.records.map Record.backup⟩

/-- What is left of a shelf without the backups `bs`. -/
def Shelf.without (bs : List Backup) (h : Shelf) : Shelf :=
  { h with backups := h.backups.filter (· ∉ bs) }

theorem Shelf.without_nil (h : Shelf) : h.without [] = h := by
  simp [without]

theorem Shelf.without_without (h : Shelf) (bs cs : List Backup) :
    (h.without bs).without cs = h.without (bs ++ cs) := by
  simp [without, List.filter_filter, Bool.and_comm]

/-- Only what is in a list matters to what is left without it. -/
theorem Shelf.without_congr {bs cs : List Backup} (same : ∀ b, b ∈ bs ↔ b ∈ cs) (h : Shelf) :
    h.without bs = h.without cs := by
  simp [without, same]

theorem Shelf.notMem_of_without_eq {h : Shelf} {bs : List Backup} (same : h.without bs = h)
    {b : Backup} (hb : b ∈ h.backups) : b ∉ bs := by
  have kept := congrArg Shelf.backups same
  simpa using List.filter_eq_self.1 kept b hb

/-- The backups are of one date, device, host and volume. -/
structure Backup.Alike (a b : Backup) : Prop where
  date : a.date = b.date
  device : a.device = b.device
  host : a.host = b.host
  volume : a.volume = b.volume

/-- The order of a ledger. -/
def Backup.Before (a b : Backup) : Prop :=
  a.date < b.date ∨ (a.date = b.date ∧ a.device < b.device)

/-- Backups in order are told by which they are. -/
theorem Backup.eq_of_pairwise {l k : List Backup} (hl : l.Pairwise Backup.Before)
    (hk : k.Pairwise Backup.Before) (same : ∀ b, b ∈ l ↔ b ∈ k) : l = k := by
  have irrefl (b : Backup) : ¬ b.Before b := by
    rintro (h | ⟨-, h⟩)
    · exact Date.lt_irrefl _ h
    · exact String.lt_irrefl _ h
  have asymm (a b : Backup) (hab : a.Before b) (hba : b.Before a) : a = b :=
    absurd (Record.lt_trans (a := ⟨a, 0⟩) (b := ⟨b, 0⟩) (c := ⟨a, 0⟩) hab hba) (irrefl a)
  have nodup {l : List Backup} (h : l.Pairwise Backup.Before) : l.Nodup := by
    refine List.Pairwise.imp (fun {a b} before same => ?_) h
    subst same
    exact irrefl a before
  exact List.Perm.eq_of_pairwise (fun a b _ _ => asymm a b) hl hk
    ((List.perm_ext_iff_of_nodup (nodup hl) (nodup hk)).2 same)

namespace Ledger

/-- A ledger with more records. -/
def addAll (l : Ledger) (rs : List Record) : Ledger := rs.foldl (fun l r => (l.add r).2) l

theorem backups_pairwise {l : Ledger} (h : l.records.Pairwise (· < ·)) :
    (l.records.map Record.backup).Pairwise Backup.Before :=
  List.pairwise_map.2 h

theorem pairwise_addAll {l : Ledger} (h : l.records.Pairwise (· < ·)) (rs : List Record) :
    (l.addAll rs).records.Pairwise (· < ·) := by
  induction rs generalizing l with
  | nil => exact h
  | cons r rs ih => exact ih (pairwise_file h)

/-- Filing a record adds its backup, if what is in its place is of the same backup. -/
theorem mem_backups_file {r : Record} {rs : List Record}
    (same : ∀ x ∈ rs, r.SameKey x → x.backup = r.backup) (b : Backup) :
    b ∈ (file r rs).2.map Record.backup ↔ b = r.backup ∨ b ∈ rs.map Record.backup := by
  fun_induction file r rs with
  | case1 => simp
  | case2 y ys hlt => simp
  | case3 y ys hlt hkey =>
    have own : y.backup = r.backup := same y List.mem_cons_self hkey
    simp [own]
  | case4 y ys hlt hkey filed zs hz ih =>
    have rest := ih fun x hx => same x (List.mem_cons_of_mem _ hx)
    rw [hz] at rest
    simp only [List.map_cons, List.mem_cons, rest]
    exact or_left_comm

theorem mem_backups_addAll {l : Ledger} {rs : List Record}
    (same : ∀ x ∈ l.records ++ rs, ∀ y ∈ l.records ++ rs, x.SameKey y → y.backup = x.backup)
    (b : Backup) : b ∈ (l.addAll rs).records.map Record.backup ↔
      b ∈ l.records.map Record.backup ∨ b ∈ rs.map Record.backup := by
  induction rs generalizing l with
  | nil => simp [addAll]
  | cons r rs ih =>
    have filed (x : Record) (hx : x ∈ (file r l.records).2 ++ rs) : x ∈ l.records ++ r :: rs := by
      rcases List.mem_append.1 hx with hx | hx
      · rcases mem_file hx with rfl | hx <;> simp [*]
      · simp [hx]
    have rest := ih (l := (l.add r).2) fun x hx y hy => same x (filed x hx) y (filed y hy)
    have here : ∀ x ∈ l.records, r.SameKey x → x.backup = r.backup := fun x hx =>
      same r (by simp) x (by simp [hx])
    have own := mem_backups_file here b
    have step : l.addAll (r :: rs) = (l.add r).2.addAll rs := rfl
    rw [step, rest, List.map_cons, List.mem_cons]
    show b ∈ (file r l.records).2.map Record.backup ∨ _ ↔ _
    rw [own]
    tauto

end Ledger

namespace State

/-- What each volume holds. -/
def shelves (s : State) : List Shelf := s.volumes.map Volume.shelf

/-- Records for one place in one volume are of the same backup. -/
def Consistent (rs : List Record) : Prop :=
  ∀ x ∈ rs, ∀ y ∈ rs, x.SameKey y → x.backup.host = y.backup.host →
    x.backup.volume = y.backup.volume → y.backup = x.backup

theorem Consistent.filter {rs : List Record} (h : Consistent rs) (f : Record → Bool) :
    Consistent (rs.filter f) :=
  fun x hx y hy => h x (List.mem_of_mem_filter hx) y (List.mem_of_mem_filter hy)

/-- Files records in volumes. -/
def fillIn (vs : List Volume) (rs : List Record) : List Volume :=
  rs.foldl (fun vs r => (onVolume r.backup.host r.backup.volume (·.add r) vs).2) vs

theorem volumes_fill (s : State) (rs : List Record) :
    (s.fill rs).volumes = fillIn s.volumes rs := by
  induction rs generalizing s with
  | nil => rfl
  | cons r rs ih => exact ih (s.add r).2

/-- The record names this volume. -/
def names (v : Volume) (b : Backup) : Bool := v.host = b.host ∧ v.name = b.volume

/-- The first volume takes what names it, the others take the rest. -/
theorem fillIn_cons (v : Volume) (vs : List Volume) (rs : List Record) :
    fillIn (v :: vs) rs =
      { v with ledger := v.ledger.addAll (rs.filter fun r => names v r.backup) } ::
        fillIn vs (rs.filter fun r => !names v r.backup) := by
  induction rs generalizing v vs with
  | nil => rfl
  | cons r rs ih =>
    have step : fillIn (v :: vs) (r :: rs) =
        fillIn (onVolume r.backup.host r.backup.volume (·.add r) (v :: vs)).2 rs := rfl
    by_cases own : v.host = r.backup.host ∧ v.name = r.backup.volume
    · have named : names v r.backup = true := by simpa [names] using own
      rw [step, onVolume, if_pos own, ih, List.filter_cons_of_pos (by simp [named]),
        List.filter_cons_of_neg (by simp [named])]
      rfl
    · have other : names v r.backup = false := by simpa [names] using own
      rw [step, onVolume, if_neg own, ih, List.filter_cons_of_neg (by simp [other]),
        List.filter_cons_of_pos (by simp [other])]
      rfl

/-- Filling with the records of fewer backups leaves out the others. -/
theorem shelves_fillIn {vs : List Volume} (empty : ∀ v ∈ vs, v.ledger = Ledger.empty)
    {rs qs : List Record} (hr : Consistent rs) (hq : Consistent qs) {gone : List Backup}
    (same : ∀ b, b ∈ qs.map Record.backup ↔ b ∈ rs.map Record.backup ∧ b ∉ gone) :
    (fillIn vs qs).map Volume.shelf =
      (fillIn vs rs).map fun v => v.shelf.without gone := by
  -- By the volumes and not by the records: the first volume takes what names it in both fillings,
  -- and what is left is again consistent.
  induction vs generalizing rs qs with
  | nil =>
    have none (rs : List Record) : fillIn [] rs = [] := by
      induction rs with
      | nil => rfl
      | cons r rs ih => exact ih
    rw [none, none]
    rfl
  | cons v vs ih =>
    have part (f : Backup → Bool) (rs : List Record) (b : Backup) :
        b ∈ (rs.filter fun r => f r.backup).map Record.backup ↔
          b ∈ rs.map Record.backup ∧ f b = true := by
      have moved : (rs.filter fun r => f r.backup).map Record.backup =
          (rs.map Record.backup).filter f := by
        rw [List.filter_map]
        rfl
      rw [moved, List.mem_filter]
    have nothing : v.ledger.records = [] := by rw [empty v List.mem_cons_self]; rfl
    have members {rs : List Record} (h : Consistent rs) (b : Backup) :
        b ∈ (v.ledger.addAll (rs.filter fun r => names v r.backup)).records.map Record.backup ↔
          b ∈ rs.map Record.backup ∧ names v b = true := by
      have keyed : ∀ x ∈ v.ledger.records ++ rs.filter (fun r => names v r.backup),
          ∀ y ∈ v.ledger.records ++ rs.filter (fun r => names v r.backup),
            x.SameKey y → y.backup = x.backup := by
        rw [nothing, List.nil_append]
        intro x hx y hy key
        obtain ⟨hx, namesx⟩ := List.mem_filter.1 hx
        obtain ⟨hy, namesy⟩ := List.mem_filter.1 hy
        simp only [names, decide_eq_true_eq] at namesx namesy
        exact h x hx y hy key (namesx.1.symm.trans namesy.1) (namesx.2.symm.trans namesy.2)
      rw [Ledger.mem_backups_addAll keyed, nothing, part]
      simp
    have ordered (rs : List Record) : ((v.ledger.addAll rs).records.map Record.backup).Pairwise
        Backup.Before :=
      Ledger.backups_pairwise (Ledger.pairwise_addAll (by rw [nothing]; exact .nil) rs)
    rw [fillIn_cons, fillIn_cons, List.map_cons, List.map_cons]
    congr 1
    · have backups := Backup.eq_of_pairwise (ordered _)
        ((ordered (rs.filter fun r => names v r.backup)).filter fun b => b ∉ gone)
        fun b => by
          rw [members hq, List.mem_filter, members hr, same, decide_eq_true_eq]
          tauto
      simp only [Volume.shelf, Shelf.without, backups]
    · refine ih (fun u hu => empty u (List.mem_cons_of_mem _ hu)) (hr.filter _) (hq.filter _) ?_
      intro b
      rw [part (fun b => !names v b), part (fun b => !names v b), same]
      tauto

/-- Filling with the records of fewer backups leaves out the others. -/
theorem shelves_fill (c : Config) {rs qs : List Record} (hr : Consistent rs) (hq : Consistent qs)
    {gone : List Backup}
    (same : ∀ b, b ∈ qs.map Record.backup ↔ b ∈ rs.map Record.backup ∧ b ∉ gone) :
    ((ofConfig c).fill qs).shelves = ((ofConfig c).fill rs).shelves.map (·.without gone) := by
  rw [shelves, shelves, volumes_fill, volumes_fill, List.map_map]
  exact shelves_fillIn (ledger_of_ofConfig c) hr hq same

theorem exists_mem_shelves {s : State} {r : Record} (h : r ∈ s.records) :
    ∃ x ∈ s.shelves, r.backup ∈ x.backups := by
  obtain ⟨v, hv, hr⟩ := List.mem_flatMap.1 h
  exact ⟨v.shelf, List.mem_map_of_mem hv, List.mem_map_of_mem hr⟩

/-! ## Removing records -/

theorem shelves_eq (s : State) : s.shelves = s.holdings.map Holding.shelf := by
  rw [shelves, holdings, List.map_map]
  rfl

/-- Of two different volumes of one name one is empty. -/
theorem Shelved.eq_of_named {vs : List Volume} (h : Shelved vs) {v u : Volume} (hv : v ∈ vs)
    (hu : u ∈ vs) (host : v.host = u.host) (name : v.name = u.name)
    (somev : v.ledger.records ≠ []) (someu : u.ledger.records ≠ []) : v = u := by
  have : Std.Symm fun v u : Volume => v.host = u.host → v.name = u.name →
      v.ledger.records = [] ∨ u.ledger.records = [] :=
    ⟨fun v u h host name => (h host.symm name.symm).symm⟩
  have first : vs.Pairwise fun v u => v.host = u.host → v.name = u.name →
      v.ledger.records = [] ∨ u.ledger.records = [] :=
    h.first.imp fun first host name => .inr (first host name)
  by_contra hne
  rcases first.forall hv hu hne host name with none | none
  · exact somev none
  · exact someu none

/-- Records of backups that are alike are the same. -/
theorem Shelved.eq_of_alike {vs : List Volume} (h : Shelved vs) {a b : Record}
    (ha : a ∈ vs.flatMap (·.ledger.records)) (hb : b ∈ vs.flatMap (·.ledger.records))
    (alike : a.backup.Alike b.backup) : a = b := by
  obtain ⟨v, hv, hav⟩ := List.mem_flatMap.1 ha
  obtain ⟨u, hu, hbu⟩ := List.mem_flatMap.1 hb
  obtain ⟨hostv, namev⟩ := h.named v hv a hav
  obtain ⟨hostu, nameu⟩ := h.named u hu b hbu
  rw [alike.host] at hostv
  rw [alike.volume] at namev
  obtain rfl := h.eq_of_named hv hu (hostv.symm.trans hostu) (namev.symm.trans nameu)
    (List.ne_nil_of_mem hav) (List.ne_nil_of_mem hbu)
  exact Ledger.eq_of_ordered (h.ordered v hv) hav hbu ⟨alike.date, alike.device⟩

/-- Records of the same backup are the same. -/
theorem Shelved.eq_of_backup {vs : List Volume} (h : Shelved vs) {a b : Record}
    (ha : a ∈ vs.flatMap (·.ledger.records)) (hb : b ∈ vs.flatMap (·.ledger.records))
    (same : a.backup = b.backup) : a = b :=
  h.eq_of_alike ha hb ⟨by rw [same], by rw [same], by rw [same], by rw [same]⟩

/-- What is left on the shelves is told by what is left of the records. -/
theorem shelves_without {s u : State} (h : Shelved s.volumes) {rs : List Record}
    (left : u.holdings = s.holdings.map (·.without rs)) (known : rs ⊆ s.records) :
    u.shelves = s.shelves.map (·.without (rs.map Record.backup)) := by
  rw [shelves_eq, shelves_eq, left, List.map_map, List.map_map]
  refine List.map_congr_left fun x hx => ?_
  obtain ⟨v, hv, rfl⟩ := List.mem_map.1 hx
  have told : ∀ r ∈ v.ledger.records, (r ∉ rs ↔ r.backup ∉ rs.map Record.backup) := by
    intro r hr
    rw [not_iff_not, List.mem_map]
    refine ⟨fun h => ⟨r, h, rfl⟩, ?_⟩
    rintro ⟨q, hq, same⟩
    have own : r ∈ s.records := List.mem_flatMap.2 ⟨v, hv, hr⟩
    exact h.eq_of_backup (known hq) own same ▸ hq
  simp only [Function.comp_apply, Holding.shelf, Holding.without, Shelf.without, Volume.holding]
  rw [List.filter_map]
  congr 2
  exact List.filter_congr fun r hr => decide_eq_decide.2 (told r hr)

/-- What a state holds after records were filed in it. -/
theorem mem_records_fill {s : State} {rs : List Record} {r : Record}
    (h : r ∈ (s.fill rs).records) : r ∈ s.records ∨ r ∈ rs := by
  induction rs generalizing s with
  | nil => exact .inl h
  | cons x rs ih =>
    rcases ih h with h | h
    · obtain ⟨u, hu, hr⟩ := List.mem_flatMap.1 h
      rcases mem_onVolume hu with hu | ⟨v, hv, -, -, rfl⟩
      · exact .inl (List.mem_flatMap.2 ⟨u, hu, hr⟩)
      · rcases Ledger.mem_file hr with rfl | hr
        · exact .inr List.mem_cons_self
        · exact .inl (List.mem_flatMap.2 ⟨v, hv, hr⟩)
    · exact .inr (List.mem_cons_of_mem _ h)

theorem records_ofConfig (c : Config) : (ofConfig c).records = [] := by
  refine List.eq_nil_iff_forall_not_mem.2 fun r hr => ?_
  obtain ⟨v, hv, hr⟩ := List.mem_flatMap.1 hr
  rw [ledger_of_ofConfig c v hv] at hr
  cases hr

end State

end BackupRetention
