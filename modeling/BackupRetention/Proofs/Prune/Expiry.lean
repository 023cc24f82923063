import BackupRetention.Proofs.Calendar.RoundTrip
import BackupRetention.Proofs.Files.Entries
import BackupRetention.Proofs.Files.Listing
import BackupRetention.Proofs.Prune.FileNames
import Mathlib.Data.List.Basic

/-!
# Which logs expire

Expiry tries to take away each prune log that is old enough, one after the other, whatever has
come of the others. What it takes away is gone, all else is as it was, and what could not be taken
away is reported together. A log of the day itself or of a later day is not even tried.

## Main definitions

* `Date.IsDay`: a day of the calendar, in whatever year.
* `PruneLog.Expired`: the name of a prune log that is old enough.
* `PruneLog.Tries`: some entries are tried one after the other.
* `PruneLog.Clears`: what is tried, what is left, and what is reported.

## Main results

* `PruneLog.Tries.leaves`: what is left after some tries.
* `PruneLog.agreesOff_expire`: what expiry can change, wherever its path leads.
* `PruneLog.expire_exact`: expiry of a directory that can be listed.
-/

namespace BackupRetention

/-! ## Ages -/

namespace Date

variable {a b : Date}

/-- A day of the calendar, which goes on before the year 1. -/
def IsDay (d : Date) : Prop :=
  ∃ length, monthLength? d.year d.month = some length ∧ 1 ≤ d.day ∧ d.day ≤ length

/-- No day before the year 1 has a higher number than the first day of that year. -/
theorem IsDay.dayNumber_le (h : a.IsDay) (early : a.year < 1) : a.dayNumber ≤ yearStart 1 := by
  obtain ⟨length, found, first, last⟩ := h
  obtain ⟨lower, upper, ends⟩ := monthStart_add_length found
  have whole := monthStart_mono a.year (by omega : 1 ≤ a.month.toNat + 1)
    (by omega : a.month.toNat + 1 ≤ 13) (Nat.le_refl 13)
  have december : monthStart a.year 13 ≤ 366 := by
    simp only [monthStart, daysBefore]
    split <;> omega
  obtain ⟨past, own⟩ : ∃ past : Int, a.year - 1 = -past := ⟨-(a.year - 1), by omega⟩
  have nonneg : 0 ≤ past := by omega
  have start : yearStart 1 = 365 := by decide
  rw [dayNumber_eq, start, yearStart, own, Int.neg_tdiv, Int.neg_tdiv, Int.neg_tdiv,
    Int.tdiv_eq_ediv_of_nonneg nonneg, Int.tdiv_eq_ediv_of_nonneg nonneg,
    Int.tdiv_eq_ediv_of_nonneg nonneg]
  omega

/-- A later day is no days ago. -/
theorem IsDay.daysSince_le (h : a.IsDay) (valid : b.Valid) (later : a < b) :
    a.daysSince b ≤ 0 := by
  have day := valid.exists_day
  have number : a.dayNumber ≤ b.dayNumber := by
    by_cases early : a.year < 1
    · have above := (yearStart_le day).1
      have first := yearStart_mono (Int.le_refl 1) (within_month day).1
      have := h.dayNumber_le early
      omega
    · have known : fault? a.year a.month a.day = none := fault?_eq_none_iff.2 ⟨by omega, h⟩
      exact (dayNumber_lt known day later).le
  rw [daysSince]
  omega

end Date

/-- Faults that are no aggregates are held together as they are. -/
theorem Fault.raiseAll_of_single {fs : List Fault} (some : fs ≠ [])
    (single : ∀ f ∈ fs, f.parts = [f]) : Fault.raiseAll fs = .error (.several fs) := by
  have same : fs.flatMap Fault.parts = fs := by
    rw [List.flatMap_congr single, List.flatMap_singleton']
  cases fs with
  | nil => exact absurd rfl some
  | cons f fs => rw [raiseAll, gather, same]

namespace PruneLog

/-! ## Names -/

/-- The name of the prune log of a day more than `keep` days ago, in whatever way the date is
written. -/
def Expired (today : Date) (keep : Int) (name : String) : Prop :=
  ∃ text date, name = namePrefix ++ text ++ nameEnding ∧ Date.ofText text = .ok date ∧
    keep < today.daysSince date

theorem dateText?_append (text : String) :
    dateText? (namePrefix ++ text ++ nameEnding) = some text := by
  have letters : (namePrefix ++ text ++ nameEnding).toList =
      namePrefix.toList ++ (text.toList ++ nameEnding.toList) := by
    simp
  simp only [dateText?, letters, LogFile.dropStart?_append, LogFile.dropEnding?_append,
    Option.map_some, String.ofList_toList]

theorem dated?_eq_some_iff {name : String} {date : Date} : dated? name = some date ↔
    ∃ text, name = namePrefix ++ text ++ nameEnding ∧ Date.ofText text = .ok date := by
  refine ⟨eq_of_dated?, ?_⟩
  rintro ⟨text, rfl, read⟩
  simp [dated?, dateText?_append, read, Except.toOption]

theorem isExpired_iff {today : Date} {keep : Int} {name : String} :
    isExpired today keep name = true ↔ Expired today keep name := by
  have known : isExpired today keep name = true ↔
      ∃ date, dated? name = some date ∧ keep < today.daysSince date := by
    unfold isExpired
    cases dated? name <;> simp
  simp only [known, dated?_eq_some_iff, Expired]
  grind

instance (today : Date) (keep : Int) : DecidablePred (Expired today keep) := fun _ =>
  decidable_of_iff _ isExpired_iff

/-- Neither the log of the day nor one of a later day has expired. -/
theorem not_expired {today date : Date} {keep : Int} (nonneg : 0 ≤ keep) {text : String}
    (read : Date.ofText text = .ok date) (late : date = today ∨ today.IsDay ∧ today < date) :
    ¬ Expired today keep (namePrefix ++ text ++ nameEnding) := by
  rintro ⟨text', date', same, read', old⟩
  have own : dated? (namePrefix ++ text ++ nameEnding) = some date' :=
    dated?_eq_some_iff.2 ⟨text', same, read'⟩
  rw [dated?_eq_some_iff.2 ⟨text, rfl, read⟩, Option.some.injEq] at own
  subst own
  have recent : today.daysSince date ≤ 0 := by
    rcases late with rfl | ⟨day, later⟩
    · simp [Date.daysSince]
    · exact day.daysSince_le (Date.valid_of_ofText read) later
  omega

/-! ## Tries -/

/-- The name of an entry and what came of the attempt to take it away. -/
abbrev Try := String × Except IoFault Unit

/-- Entries of `logs` are tried one after the other. -/
inductive Tries (logs : String) : FileTree → List Try → FileTree → Prop where
  | done (t : FileTree) : Tries logs t [] t
  | next {t u v : FileTree} {name : String} {answer : Except IoFault Unit} {tries : List Try}
      (tried : t.unlink (Path.join logs name) = (answer, u)) (onward : Tries logs u tries v) :
      Tries logs t ((name, answer) :: tries) v

/-- The entries that were taken away. -/
def taken (tries : List Try) : List String :=
  (tries.filter (·.2.isOk)).map Prod.fst

/-- What is reported of a try. -/
def fault? (logs : String) : Try → Option Fault
  | (_, .ok _) => none
  | (name, .error e) => some (.during (removingFailed (Path.join logs name)) (.io e))

theorem mem_taken {tries : List Try} {name : String} :
    name ∈ taken tries ↔ (name, .ok ()) ∈ tries := by
  simp only [taken, List.mem_map, List.mem_filter]
  constructor
  · rintro ⟨⟨_, _ | ⟨⟩⟩, ⟨mem, ok⟩, rfl⟩
    · cases ok
    · exact mem
  · exact fun mem => ⟨_, ⟨mem, rfl⟩, rfl⟩

@[simp] theorem taken_ok (name : String) (done : Unit) (tries : List Try) :
    taken ((name, .ok done) :: tries) = name :: taken tries := rfl

@[simp] theorem taken_error (name : String) (e : IoFault) (tries : List Try) :
    taken ((name, .error e) :: tries) = taken tries := rfl

/-- Some entries after the other are tried, the successes counted and the failures collected. -/
theorem removeEach_eq (logs : String) (t : FileTree) (names : List String) :
    ∃ tries u, Tries logs t tries u ∧ tries.map Prod.fst = names ∧
      removeEach t (names.map (Path.join logs)) =
        ((taken tries).length, tries.filterMap (fault? logs), u) := by
  induction names generalizing t with
  | nil => exact ⟨[], t, .done t, rfl, rfl⟩
  | cons name names ih =>
    rcases tried : t.unlink (Path.join logs name) with ⟨answer, u⟩
    obtain ⟨tries, v, onward, named, rest⟩ := ih u
    refine ⟨(name, answer) :: tries, v, .next tried onward, congrArg (name :: ·) named, ?_⟩
    rw [List.map_cons, removeEach]
    cases answer with
    | ok done => simp only [tried, rest, taken_ok, List.length_cons, List.filterMap_cons, fault?]
    | error e => simp only [tried, rest, taken_error, List.filterMap_cons, fault?]

/-- What is reported of some tries together. -/
def report (logs : String) (tries : List Try) : Except Fault Nat :=
  match Fault.raiseAll (tries.filterMap (fault? logs)) with
  | .ok () => .ok (taken tries).length
  | .error f => .error f

/-- If nothing has failed, the report is a number. -/
theorem report_of_ok {logs : String} {tries : List Try} (ok : ∀ x ∈ tries, x.2 = .ok ()) :
    report logs tries = .ok tries.length := by
  have silent : tries.filterMap (fault? logs) = [] := by
    rw [List.filterMap_eq_nil_iff]
    rintro ⟨name, answer⟩ mem
    obtain rfl : answer = .ok () := ok _ mem
    rfl
  have all : tries.filter (·.2.isOk) = tries := by
    refine List.filter_eq_self.2 fun x mem => ?_
    rw [ok x mem]
    rfl
  simp [report, silent, taken, all]

/-- The report has a part for each failure. -/
theorem report_of_failed {logs : String} {tries : List Try} (failed : ∃ x ∈ tries, x.2 ≠ .ok ()) :
    report logs tries = .error (.several (tries.filterMap (fault? logs))) := by
  obtain ⟨⟨name, answer⟩, mem, bad⟩ := failed
  have some : tries.filterMap (fault? logs) ≠ [] := by
    cases answer with
    | ok => exact absurd rfl bad
    | error e => exact List.ne_nil_of_mem (List.mem_filterMap.2 ⟨_, mem, rfl⟩)
  rw [report, Fault.raiseAll_of_single some]
  intro f hf
  obtain ⟨⟨_, _ | _⟩, -, own⟩ := List.mem_filterMap.1 hf
  · obtain rfl := Option.some.inj own
    rfl
  · cases own

section Tries

variable {logs : String} {t u v : FileTree} {l : Location} {tries : List Try}

/-- What is left after some tries: the entries that were taken away are gone, and all else is as it
was. -/
theorem Tries.leaves (dir : t.lookup true logs = .ok (.found l .dir)) (less : t.Less u)
    (plain : ∀ x ∈ tries, Path.IsPlain x.1) (h : Tries logs u tries v) :
    u.Less v ∧ (∀ name ∈ taken tries, v.node? (l ++ [name]) = none) ∧
      FileTree.AgreesOff (fun k => ∃ name ∈ taken tries, k = l ++ [name]) u v := by
  induction h with
  | done u => exact ⟨.refl u, by simp [taken], .refl _ u⟩
  | @next u w v name answer tries tried onward ih =>
    rw [List.forall_mem_cons] at plain
    rcases FileTree.unlink_entry dir plain.1 less with ⟨e, failed⟩ | gone
    · obtain ⟨rfl, rfl⟩ : Except.error e = answer ∧ u = w := by simpa [failed] using tried
      rw [taken_error]
      exact ih less plain.2
    · obtain ⟨rfl, rfl⟩ : Except.ok () = answer ∧ u.erase (l ++ [name]) = w := by
        simpa [gone] using tried
      have first := u.less_erase (l ++ [name])
      obtain ⟨fewer, others, off⟩ := ih (less.trans first) plain.2
      have here : v.node? (l ++ [name]) = none := by
        rw [Option.eq_none_iff_forall_ne_some]
        intro n node
        have still := fewer.node _ n node
        simp [FileTree.node?_erase] at still
      rw [taken_ok]
      refine ⟨first.trans fewer, List.forall_mem_cons.2 ⟨here, others⟩, ?_⟩
      refine .trans ((FileTree.agreesOff_erase u _).mono ?_) (off.mono ?_)
      · rintro k rfl
        exact ⟨name, List.mem_cons_self, rfl⟩
      · rintro k ⟨other, mem, rfl⟩
        exact ⟨other, List.mem_cons_of_mem _ mem, rfl⟩

end Tries

/-! ## Expiry -/

section Expiry

variable {logs : String} {t : FileTree} {l : Location} {names : List String} {tries : List Try}
  {today : Date} {keep : Int}

/-- What is tried has expired. -/
theorem expired_of_mem (all : tries.map Prod.fst = names.filter (Expired today keep)) {x : Try}
    (mem : x ∈ tries) : Expired today keep x.1 := by
  have here : x.1 ∈ names.filter (Expired today keep) := all ▸ List.mem_map_of_mem mem
  simpa using (List.mem_filter.1 here).2

/-- Expiry of a directory that can be listed tries what has expired, and reports it. -/
theorem expire_of_list (listed : t.list logs = .ok names) (today : Date) (keep : Int) :
    ∃ l tries u, t.lookup true logs = .ok (.found l .dir) ∧ names = t.children l ∧
      Tries logs t tries u ∧ tries.map Prod.fst = names.filter (Expired today keep) ∧
      expire logs today keep t = (report logs tries, u) := by
  obtain ⟨l, dir, own⟩ := FileTree.list_eq_ok listed
  obtain ⟨tries, u, tried, named, removed⟩ :=
    removeEach_eq logs t (names.filter (isExpired today keep))
  refine ⟨l, tries, u, dir, own, tried, ?_, ?_⟩
  · rw [named]
    exact List.filter_congr fun name _ => by simp [← isExpired_iff]
  · rw [expire, listed]
    dsimp only
    rw [removed]
    rfl

/-- Tries of what has expired change at most the entries that they take away. -/
theorem Tries.agreesOff {u : FileTree} (tried : Tries logs t tries u)
    (dir : t.lookup true logs = .ok (.found l .dir))
    (all : tries.map Prod.fst = names.filter (Expired today keep)) :
    (∀ name, (name, .ok ()) ∈ tries → u.node? (l ++ [name]) = none) ∧
      FileTree.AgreesOff (fun k => ∃ name, (name, .ok ()) ∈ tries ∧ k = l ++ [name]) t u := by
  have plain : ∀ x ∈ tries, Path.IsPlain x.1 := fun x mem =>
    isPlain_of_isExpired (isExpired_iff.2 (expired_of_mem all mem))
  simpa only [mem_taken] using (tried.leaves dir (.refl t) plain).2

/-- Expiry changes at most entries whose names have expired, whether or not the directory can be
listed. -/
theorem agreesOff_expire (logs : String) (today : Date) (keep : Int) (t : FileTree) :
    FileTree.AgreesOff (fun k => ∃ l name, Expired today keep name ∧ k = l ++ [name]) t
      (expire logs today keep t).2 := by
  cases listed : t.list logs with
  | error e =>
    rw [expire, listed]
    exact .refl _ t
  | ok names =>
    obtain ⟨l, tries, u, dir, -, tried, all, expires⟩ := expire_of_list listed today keep
    rw [expires]
    refine (tried.agreesOff dir all).2.mono ?_
    rintro k ⟨name, mem, rfl⟩
    exact ⟨l, name, expired_of_mem all mem, rfl⟩

end Expiry

/-- What expiry does to a directory at `l`, and what it reports. -/
structure Clears (logs : String) (today : Date) (keep : Int) (t : FileTree) (l : Location)
    (tries : List Try) (answer : Except Fault Nat) (u : FileTree) : Prop where
  tried : Tries logs t tries u
  /-- Every expired entry is tried, in the order of the listing, whatever came of the others. -/
  all : tries.map Prod.fst = (t.children l).filter (Expired today keep)
  gone_iff : ∀ name ∈ t.children l,
    u.node? (l ++ [name]) = none ↔ Expired today keep name ∧ (name, .ok ()) ∈ tries
  others : FileTree.AgreesOff (fun k => ∃ name, (name, .ok ()) ∈ tries ∧ k = l ++ [name]) t u
  ok : (∀ x ∈ tries, x.2 = .ok ()) → answer = .ok tries.length
  failed : (∃ x ∈ tries, x.2 ≠ .ok ()) → answer = .error (.several (tries.filterMap (fault? logs)))
  recent : 0 ≤ keep → ∀ text date, Date.ofText text = .ok date →
    date = today ∨ today.IsDay ∧ today < date →
    namePrefix ++ text ++ nameEnding ∉ tries.map Prod.fst ∧
      u.node? (l ++ [namePrefix ++ text ++ nameEnding]) =
        t.node? (l ++ [namePrefix ++ text ++ nameEnding])

/-- Of a directory that can be listed, expiry takes away the prune logs that are old enough, so far
as that can be done, and nothing else. It tries all of them, and reports how many there were, or
else what went wrong with each of those that are left. -/
theorem expire_exact {logs : String} {t : FileTree} {names : List String}
    (listed : t.list logs = .ok names) (today : Date) (keep : Int) :
    ∃ l tries answer u, t.lookup true logs = .ok (.found l .dir) ∧ names = t.children l ∧
      expire logs today keep t = (answer, u) ∧ Clears logs today keep t l tries answer u := by
  obtain ⟨l, tries, u, dir, rfl, tried, all, expires⟩ := expire_of_list listed today keep
  obtain ⟨gone, others⟩ := tried.agreesOff dir all
  refine ⟨l, tries, report logs tries, u, dir, rfl, expires, tried, all, ?_, others,
    report_of_ok, report_of_failed, ?_⟩
  · intro name here
    constructor
    · intro none
      by_contra kept
      have still : u.node? (l ++ [name]) = t.node? (l ++ [name]) := by
        refine others.2 _ ?_
        rintro ⟨other, mem, same⟩
        obtain rfl : name = other := by simpa using same
        exact kept ⟨expired_of_mem all mem, mem⟩
      exact FileTree.mem_children_iff.1 here (still ▸ none)
    · exact fun h => gone name h.2
  · intro nonneg text date read late
    have fresh := not_expired nonneg read late
    have untried : namePrefix ++ text ++ nameEnding ∉ tries.map Prod.fst := by
      rw [all, List.mem_filter]
      exact fun h => fresh (by simpa using h.2)
    refine ⟨untried, others.2 _ ?_⟩
    rintro ⟨name, mem, same⟩
    obtain rfl : namePrefix ++ text ++ nameEnding = name := by simpa using same
    exact untried (List.mem_map_of_mem mem)

/-- Two logs that are old enough, a directory with the name of a third, and what has not expired. -/
def aged : FileTree where
  nodes := [(["logs"], .dir), (["logs", "prune-2024-01-01.log"], .file .empty),
    (["logs", "prune-2024-01-02.log"], .dir), (["logs", "prune-2024-1-29.log"], .file .empty),
    (["logs", "prune-2024-01-30.log"], .file .empty),
    (["logs", "prune-2024-02-29.log"], .file .empty), (["logs", "prune-junk.log"], .file .empty),
    (["logs", "2023-01-01-d-h-v.log"], .file .empty)]
  current := []
  changes := []

/-- The logs of 30 days ago and later stay. -/
theorem expire_exact_aged :
    aged.list "logs" = .ok ["prune-2024-01-01.log", "prune-2024-01-02.log", "prune-2024-1-29.log",
      "prune-2024-01-30.log", "prune-2024-02-29.log", "prune-junk.log", "2023-01-01-d-h-v.log"] ∧
      ∃ l tries answer u, aged.lookup true "logs" = .ok (.found l .dir) ∧
        expire "logs" ⟨2024, 2, 29⟩ 30 aged = (answer, u) ∧
        tries.map Prod.fst = ["prune-2024-01-01.log", "prune-2024-01-02.log",
          "prune-2024-1-29.log"] ∧
        Clears "logs" ⟨2024, 2, 29⟩ 30 aged l tries answer u := by
  have listed : aged.list "logs" = .ok ["prune-2024-01-01.log", "prune-2024-01-02.log",
      "prune-2024-1-29.log", "prune-2024-01-30.log", "prune-2024-02-29.log", "prune-junk.log",
      "2023-01-01-d-h-v.log"] := rfl
  obtain ⟨l, tries, answer, u, dir, names, expires, clears⟩ :=
    expire_exact listed ⟨2024, 2, 29⟩ 30
  refine ⟨listed, l, tries, answer, u, dir, expires, ?_, clears⟩
  rw [clears.all, ← names]
  decide +kernel

end PruneLog

end BackupRetention
