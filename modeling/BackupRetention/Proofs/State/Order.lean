import BackupRetention.Proofs.Files.Relisting
import BackupRetention.Proofs.State.Stock

/-!
# The order of the logs

Directories are listed in no particular order. Whether loading succeeds does not depend on it. What
is loaded may: where several names tell one place, because they write the date in several ways, the
first of them counts. So the order matters exactly if such logs disagree.

## Main definitions

* `State.Agreed`: logs of one backup do not disagree.

## Main results

* `State.orderFree_iff`: when the order of the logs does not matter.
-/

namespace BackupRetention

theorem LogFile.StatusOf.eq_iff {text text' : String} {status status' : Int}
    (h : StatusOf text status) (h' : StatusOf text' status') :
    status' = status ↔ (Failed text ↔ Failed text') := by
  unfold StatusOf at h h'
  grind

theorem Backup.Alike.eq {a b : Backup} (h : a.Alike b) (status : b.status = a.status) : b = a := by
  obtain ⟨date, device, host, volume⟩ := h
  cases a
  cases b
  simp_all

instance (a b : Backup) : Decidable (a.Alike b) :=
  decidable_of_iff (a.date = b.date ∧ a.device = b.device ∧ a.host = b.host ∧ a.volume = b.volume)
    ⟨fun h => ⟨h.1, h.2.1, h.2.2.1, h.2.2.2⟩, fun h => ⟨h.date, h.device, h.host, h.volume⟩⟩

namespace State

open FileTree

theorem likeness_congr {a b : Backup} (h : a.Alike b) : likeness a = likeness b := by
  funext x
  rw [likeness, likeness, h.date, h.device, h.host, h.volume]

variable {c : Config} {t u : FileTree} {names : List String}

/-- Of the logs of one backup of a configured volume all report a failure, or none does. -/
def Agreed (c : Config) (t : FileTree) : Prop :=
  ∀ names, t.list c.logs = .ok names → ∀ n ∈ names, ∀ m ∈ names,
    ∀ date device host volume, c.Lists host volume →
      LogFile.Tells n date device host volume → LogFile.Tells m date device host volume →
        ∀ text text', t.readText (Path.join c.logs n) = .ok text →
          t.readText (Path.join c.logs m) = .ok text' →
            (LogFile.Failed text ↔ LogFile.Failed text')

theorem entryOf_relisted (h : Relisted t u) (logs name : String) :
    entryOf u logs name = entryOf t logs name := by
  rw [entryOf, entryOf, h.readText_eq]

theorem looked_relisted (h : Relisted t u) (name : String) : Looked c u name ↔ Looked c t name := by
  rw [Looked, Looked, entryOf_relisted h]

theorem told?_relisted (h : Relisted t u) : told? c u = told? c t := by
  funext name
  rw [told?, told?, entryOf_relisted h]

/-- In another order the same backups are filed, one after the other in that order. -/
theorem loaded?_relisted (h : Relisted t u) (listed : t.list c.logs = .ok names)
    (loads : (loaded? c t).isSome) : ∃ names' : List String, names'.Perm names ∧
      loaded? c u = some (stocked c (names'.filterMap (told? c t))) := by
  obtain ⟨s, loads⟩ := Option.isSome_iff_exists.1 loads
  have looked := ((loaded?_of_list listed).1 loads).1
  obtain ⟨names', listed', perm⟩ := h.list_perm listed
  have looked' : ∀ name ∈ names', Looked c u name := fun name here =>
    (looked_relisted h name).2 (looked name (perm.mem_iff.1 here))
  refine ⟨names', perm, (loaded?_of_list listed').2 ⟨looked', ?_⟩⟩
  rw [told?_relisted h]

/-- Whether loading succeeds does not depend on the order. -/
theorem isSome_loaded?_relisted (h : Relisted t u) :
    (loaded? c u).isSome ↔ (loaded? c t).isSome := by
  have goes {t u : FileTree} (h : Relisted t u) (loads : (loaded? c t).isSome) :
      (loaded? c u).isSome := by
    obtain ⟨s, loaded⟩ := Option.isSome_iff_exists.1 loads
    obtain ⟨names, listed, -⟩ := loaded?_eq_some_iff.1 loaded
    obtain ⟨names', -, loaded'⟩ := loaded?_relisted h listed loads
    rw [loaded']
    rfl
  exact ⟨goes h.symm, goes h⟩

/-- What tells a backup that is listed first is held. -/
theorem mem_backups_of_first {name : String} {rest : List String} {s : State}
    (listed : t.list c.logs = .ok (name :: rest)) (loads : loaded? c t = some s) {b : Backup}
    (told : told? c t name = some b) (known : c.Lists b.host b.volume) : b ∈ s.backups := by
  obtain ⟨-, rfl⟩ := (loaded?_of_list listed).1 loads
  rw [List.filterMap_cons, told]
  exact mem_backups_stocked.2 ⟨known, List.find?_cons_of_pos (by simp [likeness])⟩

/-- A name that tells a backup tells it with the status of its text. -/
theorem exists_told? {n : String} {date : Date} {device host volume : String}
    (tells : LogFile.Tells n date device host volume) {text : String}
    (read : t.readText (Path.join c.logs n) = .ok text) :
    ∃ status, told? c t n = some ⟨host, volume, device, date, status⟩ ∧
      LogFile.StatusOf text status :=
  ⟨LogFile.outcome text, told?_eq_some_iff.2 <|
    recorded_eq_some_iff.2 ⟨tells, text, read, LogFile.outcome_eq_iff.1 rfl⟩,
    LogFile.outcome_eq_iff.1 rfl⟩

/-- Logs agree if there is one backup at most for each place in a configured volume. -/
theorem agreed_iff (listed : t.list c.logs = .ok names) : Agreed c t ↔
    ∀ a ∈ names.filterMap (told? c t), ∀ b ∈ names.filterMap (told? c t),
      c.Lists a.host a.volume → a.Alike b → b = a := by
  constructor
  · intro agreed a ha b hb known alike
    obtain ⟨n, hn, ha⟩ := List.mem_filterMap.1 ha
    obtain ⟨m, hm, hb⟩ := List.mem_filterMap.1 hb
    obtain ⟨tells, text, read, status⟩ := recorded_eq_some_iff.1 (told?_eq_some_iff.1 ha)
    obtain ⟨tells', text', read', status'⟩ := recorded_eq_some_iff.1 (told?_eq_some_iff.1 hb)
    rw [← alike.date, ← alike.device, ← alike.host, ← alike.volume] at tells'
    exact alike.eq <| (status.eq_iff status').2 <|
      agreed names listed n hn m hm _ _ _ _ known tells tells' text text' read read'
  · intro single names' listed' n hn m hm date device host volume known tells tells' text text'
      read read'
    obtain rfl := Except.ok.inj (listed.symm.trans listed')
    obtain ⟨a, told, status⟩ := exists_told? tells read
    obtain ⟨b, told', status'⟩ := exists_told? tells' read'
    have same := single _ (List.mem_filterMap.2 ⟨n, hn, told⟩) _
      (List.mem_filterMap.2 ⟨m, hm, told'⟩) known ⟨rfl, rfl, rfl, rfl⟩
    exact (status.eq_iff status').1 (congrArg Backup.status same)

/-- If it does not matter which log of a backup is the first, they agree. -/
theorem agreed_of_orderFree {s : State} (loads : loaded? c t = some s)
    (free : ∀ u, Relisted t u → loaded? c u = loaded? c t) : Agreed c t := by
  obtain ⟨names, listed, -, filed⟩ := loaded?_eq_some_iff.1 loads
  -- Whichever name is listed first, its backup is held in the end.
  have held {b : Backup} (told : b ∈ names.filterMap (told? c t))
      (known : c.Lists b.host b.volume) :
      (names.filterMap (told? c t)).find? (likeness b) = some b := by
    obtain ⟨n, hn, told⟩ := List.mem_filterMap.1 told
    obtain ⟨u, rest, relisted, first⟩ := exists_list_toFront listed hn
    have here := mem_backups_of_first first ((free u relisted).trans loads)
      (by rwa [told?_relisted relisted]) known
    rw [filed, mem_backups_stocked] at here
    exact here.2
  refine (agreed_iff listed).2 fun a ha b hb known alike => ?_
  have one := held ha known
  have other := held hb (by rwa [← alike.host, ← alike.volume])
  rw [← likeness_congr alike, one] at other
  exact (Option.some.inj other).symm

/-- Whether loading succeeds does not depend on the order of the logs. What is loaded does not
either, if logs of one backup do not disagree; and only then. -/
theorem orderFree_iff (c : Config) (t : FileTree) :
    (∀ u, Relisted t u → ((loaded? c u).isSome ↔ (loaded? c t).isSome)) ∧
      ((∀ u, Relisted t u → loaded? c u = loaded? c t) ↔
        ((loaded? c t).isSome → Agreed c t)) := by
  refine ⟨fun u h => isSome_loaded?_relisted h, ?_, ?_⟩
  · intro free loads
    obtain ⟨s, loads⟩ := Option.isSome_iff_exists.1 loads
    exact agreed_of_orderFree loads free
  · intro agreed u h
    have loads := isSome_loaded?_relisted (c := c) h
    cases loaded : loaded? c t with
    | none => simpa [loaded] using loads
    | some s =>
      have some : (loaded? c t).isSome := by simp [loaded]
      obtain ⟨names, listed, -, rfl⟩ := loaded?_eq_some_iff.1 loaded
      obtain ⟨names', perm, loaded'⟩ := loaded?_relisted h listed some
      rw [loaded']
      refine congrArg _ (stocked_congr (fun b _ => ?_) ((agreed_iff listed).1 (agreed some)))
      exact (perm.filterMap _).mem_iff

/-- Two logs of the same backup, neither of which reports a failure. -/
def toldTwice : FileTree where
  nodes := [(["logs"], .dir), (["logs", "2024-1-5-d-h-v.log"], .file .empty),
    (["logs", "2024-01-05-d-h-v.log"], .file "done\n".toUTF8)]
  current := []
  changes := []

theorem agreed_toldTwice : Agreed oneVolume toldTwice := by
  have listed : toldTwice.list "logs" = .ok ["2024-1-5-d-h-v.log", "2024-01-05-d-h-v.log"] := by
    decide +kernel
  exact (agreed_iff listed).2 (by decide +kernel)

theorem orderFree_toldTwice :
    ∃ u, Relisted toldTwice u ∧ u.nodes ≠ toldTwice.nodes ∧
      loaded? oneVolume u = loaded? oneVolume toldTwice ∧ (loaded? oneVolume toldTwice).isSome :=
  ⟨_, relisted_toFront _ ["logs", "2024-01-05-d-h-v.log"], by decide +kernel,
    (orderFree_iff _ _).2.2 (fun _ => agreed_toldTwice) _ (relisted_toFront _ _), by decide +kernel⟩

/-- Two logs of the same backup disagree, and the one that is listed first counts. -/
theorem orderMatters_writtenTwice :
    Relisted writtenTwice (writtenTwice.toFront ["logs", "2024-01-05-d-h-v.log"]) ∧
      (loaded? oneVolume writtenTwice).map backups = some [⟨"h", "v", "d", ⟨2024, 1, 5⟩, 1⟩] ∧
      (loaded? oneVolume (writtenTwice.toFront ["logs", "2024-01-05-d-h-v.log"])).map backups =
        some [⟨"h", "v", "d", ⟨2024, 1, 5⟩, 0⟩] :=
  ⟨relisted_toFront _ _, by decide +kernel, by decide +kernel⟩

end State

end BackupRetention
