import BackupRetention.Proofs.Files.Listing
import BackupRetention.Proofs.State.Stock

/-!
# Foreign logs

The log of a volume that is not configured leaves no record. But it is looked at all the same: its
date has to be one and its text has to be readable, or else nothing is loaded at all.

## Main definitions

* `LogFile.IsLogOf`: a name has the form of a log of some volume.
* `State.Foreign`: a name is that of no log of a configured volume.
* `State.OneMore`: a tree has one log more than another.

## Main results

* `State.looked_iff_legible`: what loading gets past.
* `State.foreign_unnoticed_iff`: when it does not matter whether a foreign log is there.
-/

namespace BackupRetention

namespace LogFile

/-- The name has the form of a log of this volume, whatever its digits stand for. -/
def IsLogOf (name host volume : String) : Prop :=
  ∃ y m d device : String, name = "-".intercalate [y, m, d, device, host, volume] ++ ".log" ∧
    Separable [y, m, d, device, host, volume] ∧ Numerals [y, m, d]

theorem isLogOf_iff {name host volume : String} : IsLogOf name host volume ↔
    ∃ l, label? name = some l ∧ l.host = host ∧ l.volume = volume := by
  constructor
  · rintro ⟨y, m, d, device, whole, parts, numbers⟩
    exact ⟨⟨_, device, host, volume⟩,
      label?_eq_some_iff.2 ⟨y, m, d, whole, parts, numbers, rfl⟩, rfl, rfl⟩
  · rintro ⟨l, found, rfl, rfl⟩
    obtain ⟨y, m, d, whole, parts, numbers, -⟩ := label?_eq_some_iff.1 found
    exact ⟨y, m, d, l.device, whole, parts, numbers⟩

theorem Tells.isLogOf {name : String} {date : Date} {device host volume : String}
    (h : Tells name date device host volume) : IsLogOf name host volume := by
  obtain ⟨y, m, d, whole, parts, numbers, -⟩ := h
  exact ⟨y, m, d, device, whole, parts, numbers⟩

theorem isLogOf_of_label? {name : String} {l : Label} (found : label? name = some l)
    {host volume : String} : IsLogOf name host volume ↔ l.host = host ∧ l.volume = volume := by
  simp [isLogOf_iff, found]

theorem not_isLogOf {name : String} (none : label? name = none) (host volume : String) :
    ¬ IsLogOf name host volume := by
  simp [isLogOf_iff, none]

end LogFile

namespace State

variable {c : Config} {t u : FileTree} {name : String}

/-- The name is that of no log of a configured volume. -/
def Foreign (c : Config) (name : String) : Prop :=
  ∀ host volume, LogFile.IsLogOf name host volume → ¬ c.Lists host volume

theorem foreign_iff :
    Foreign c name ↔ ∀ l, LogFile.label? name = some l → ¬ c.Lists l.host l.volume := by
  simp only [Foreign, LogFile.isLogOf_iff]
  grind

instance (c : Config) (name : String) : Decidable (Foreign c name) :=
  decidable_of_iff (∀ l ∈ (LogFile.label? name).toList, ¬ c.Lists l.host l.volume) <| by
    simp [foreign_iff]

/-- If the name has the form of a log, then its date is one, and its text can be read. -/
def Legible (c : Config) (t : FileTree) (name : String) : Prop :=
  ∀ host volume, LogFile.IsLogOf name host volume →
    (∃ date device, LogFile.Tells name date device host volume) ∧
      ∃ text, t.readText (Path.join c.logs name) = .ok text

/-- The directory of the logs has one entry more in `u` than in `t`, anywhere in the listing. The
texts of the others are the same. -/
def OneMore (logs : String) (t u : FileTree) (name : String) : Prop :=
  ∃ before after, t.list logs = .ok (before ++ after) ∧
    u.list logs = .ok (before ++ name :: after) ∧ ∀ other ∈ before ++ after, ∀ text,
      u.readText (Path.join logs other) = .ok text ↔ t.readText (Path.join logs other) = .ok text

theorem recorded_ne_none {logs : String} {e : Listed} {l : LogFile.Label}
    (found : LogFile.label? e.name = some l) : recorded logs e ≠ .ok none := by
  unfold recorded
  rw [found]
  rcases h : within "read_state" (dated (Date.ofText l.dateText)) with f | date
  · simp [h]
  · cases e.content <;> simp [h]

/-- Loading gets past what is no log, and past logs whose date and text can be read. -/
theorem looked_iff_legible : Looked c t name ↔ Legible c t name := by
  cases found : LogFile.label? name with
  | none =>
    have looked : Looked c t name := ⟨none, recorded_of_label?_eq_none found⟩
    have legible : Legible c t name := fun host volume own =>
      absurd own (LogFile.not_isLogOf found host volume)
    exact iff_of_true looked legible
  | some l =>
    have own {host volume : String} :
        LogFile.IsLogOf name host volume ↔ l.host = host ∧ l.volume = volume :=
      LogFile.isLogOf_of_label? found
    constructor
    · rintro ⟨o, looked⟩ host volume form
      obtain ⟨b, rfl⟩ : ∃ b, o = some b := by
        refine Option.ne_none_iff_exists'.1 ?_
        rintro rfl
        exact recorded_ne_none (e := entryOf t c.logs name) found looked
      obtain ⟨tells, text, content, -⟩ := recorded_eq_some_iff.1 looked
      obtain ⟨host', volume'⟩ := own.1 tells.isLogOf
      obtain ⟨rfl, rfl⟩ := own.1 form
      rw [← host', ← volume'] at tells
      exact ⟨⟨_, _, tells⟩, text, content⟩
    · intro legible
      obtain ⟨⟨date, device, tells⟩, text, content⟩ := legible _ _ (own.2 ⟨rfl, rfl⟩)
      exact ⟨some ⟨_, _, device, date, LogFile.outcome text⟩,
        recorded_eq_some_iff.2 ⟨tells, text, content, LogFile.outcome_eq_iff.1 rfl⟩⟩

/-- A foreign log tells nothing that is filed. -/
theorem told?_foreign (foreign : Foreign c name) :
    (told? c t name).toList.filter (listed? c) = [] := by
  refine List.filter_eq_nil_iff.2 fun b told => ?_
  have recorded := told?_eq_some_iff.1 (Option.mem_toList.1 told)
  simpa [listed?] using foreign _ _ (recorded_eq_some_iff.1 recorded).1.isLogOf

/-- What is filed is the same with and without a foreign log. -/
theorem stocked_foreign (foreign : Foreign c name) {before after : List String}
    (same : ∀ other ∈ before ++ after, told? c u other = told? c t other) :
    stocked c ((before ++ name :: after).filterMap (told? c u)) =
      stocked c ((before ++ after).filterMap (told? c t)) := by
  have rest : (before ++ after).filterMap (told? c u) = (before ++ after).filterMap (told? c t) :=
    List.filterMap_congr same
  have own : (name :: after).filterMap (told? c u) =
      (told? c u name).toList ++ after.filterMap (told? c u) := by
    rw [List.filterMap_cons]
    cases told? c u name <;> rfl
  rw [← rest, List.filterMap_append, List.filterMap_append, own, ← stocked_filter,
    List.filter_append, List.filter_append, told?_foreign foreign, List.nil_append,
    ← List.filter_append, stocked_filter]

/-- It does not matter whether a foreign log is there exactly if its date is one and its text can
be read, or if nothing could be loaded anyway. -/
theorem foreign_unnoticed_iff (foreign : Foreign c name) (more : OneMore c.logs t u name) :
    loaded? c u = loaded? c t ↔ Legible c u name ∨ loaded? c t = none := by
  obtain ⟨before, after, listed, listed', others⟩ := more
  have told : ∀ other ∈ before ++ after, told? c u other = told? c t other := fun other here =>
    Option.ext fun b => by
      rw [told?_eq_some_iff, told?_eq_some_iff, recorded_eq_some_iff, recorded_eq_some_iff]
      exact and_congr_right' <| exists_congr fun text => and_congr_left' (others other here text)
  have looked : (∀ n ∈ before ++ name :: after, Looked c u n) ↔
      Looked c u name ∧ ∀ n ∈ before ++ after, Looked c t n := by
    have same : ∀ n ∈ before ++ after, Looked c u n ↔ Looked c t n := fun n here => by
      simp only [looked_iff_legible, Legible, others n here]
    grind
  have filed := stocked_foreign foreign told
  rw [← looked_iff_legible]
  by_cases all : ∀ n ∈ before ++ after, Looked c t n
  · have loads := (loaded?_of_list listed).2 ⟨all, rfl⟩
    by_cases own : Looked c u name
    · have loads' := (loaded?_of_list listed').2 ⟨looked.2 ⟨own, all⟩, rfl⟩
      rw [loads, loads', filed]
      simp [own]
    · have fails : loaded? c u = none := (loaded?_eq_none_iff listed').2 fun h => own (looked.1 h).1
      simp [loads, fails, own]
  · have fails := (loaded?_eq_none_iff listed).2 all
    have fails' := (loaded?_eq_none_iff listed').2 fun h => all (looked.1 h).2
    simp [fails, fails']

/-! ## One log more -/

section OneMore

variable {l : Location}

/-- A file that is put among the logs is one entry more. -/
theorem oneMore_set {logs : String} (linkless : t.Linkless)
    (dir : t.lookup true logs = .ok (.found l .dir))
    (plain : ∀ other ∈ t.children l, Path.IsPlain other) (free : t.node? (l ++ [name]) = none)
    (content : ByteArray) : OneMore logs t (t.set (l ++ [name]) (.file content)) name := by
  generalize after : t.set (l ++ [name]) (.file content) = u
  have notRoot : l ++ [name] ≠ [] := by simp
  have node (k : Location) :
      u.node? k = if k = l ++ [name] then some (.file content) else t.node? k := by
    rw [← after, FileTree.node?_set t notRoot]
  have current : u.current = t.current := by rw [← after]; rfl
  have newLinks : t.NoNewLinks u := after ▸ FileTree.noNewLinks_set t notRoot content
  have oldLinks : u.NoNewLinks t := fun k target link => absurd link (linkless k target)
  have dirs (k : Location) : t.node? k = some .dir ↔ u.node? k = some .dir := by
    rw [node]
    by_cases own : k = l ++ [name] <;> simp [own, free]
  obtain ⟨located, dir'⟩ := FileTree.lookup_dir_of_dirs (linkless.direct logs) current
    (fun k _ => (dirs k).1) dir true
  refine ⟨t.children l, [], by simp [FileTree.list_of_lookup dir], ?_, ?_⟩
  · rw [FileTree.list_of_lookup dir', ← after, FileTree.children_set free]
  · intro other here text
    rw [List.append_nil] at here
    have direct := linkless.direct (Path.join logs other)
    have ends := Path.endsIn_join_of_plain logs (plain other here)
    have same : u.node? (Path.locate t.current (Path.join logs other)) =
        t.node? (Path.locate t.current (Path.join logs other)) := by
      have there := FileTree.mem_children_iff.1 here
      rw [Path.locate_join_of_plain _ _ (plain other here), ← located, node, if_neg]
      exact fun own => there (own ▸ free)
    constructor
    · intro read
      have direct' := direct.of_links newLinks current
      have back := FileTree.readText_of_dirs direct' oldLinks current.symm
        (fun k _ => (dirs k).2) ends (by rw [current, same]) read
      rw [back]
      exact read
    · intro read
      rw [FileTree.readText_of_dirs direct newLinks current (fun k _ => (dirs k).1) ends same read]
      exact read

end OneMore

/-- The log of one backup of the one volume. -/
def oneLog : FileTree := loneLog "2024-01-05-d-h-v.log"

/-- A log of another volume is put beside it. -/
def beside (name : String) : FileTree := oneLog.set ["logs", name] (.file .empty)

theorem oneMore_beside (name : String) (free : oneLog.node? ["logs", name] = none) :
    OneMore oneVolume.logs oneLog (beside name) name :=
  oneMore_set (l := ["logs"]) (FileTree.linkless_of_all (by decide)) (by decide +kernel)
    (by decide) free .empty

theorem foreign_unnoticed_otherHost :
    Foreign oneVolume "2024-02-29-d-x-y.log" ∧
      OneMore oneVolume.logs oneLog (beside "2024-02-29-d-x-y.log") "2024-02-29-d-x-y.log" ∧
      loaded? oneVolume (beside "2024-02-29-d-x-y.log") = loaded? oneVolume oneLog ∧
      (loaded? oneVolume oneLog).isSome := by
  have foreign : Foreign oneVolume "2024-02-29-d-x-y.log" := by decide +kernel
  have more := oneMore_beside "2024-02-29-d-x-y.log" (by decide)
  have legible : Legible oneVolume (beside "2024-02-29-d-x-y.log") "2024-02-29-d-x-y.log" :=
    looked_iff_legible.1 (by decide +kernel)
  exact ⟨foreign, more, (foreign_unnoticed_iff foreign more).2 (.inl legible), by decide +kernel⟩

/-- There is no such day, and nothing is loaded although the volume is not configured. -/
theorem foreign_noticed_badDate :
    Foreign oneVolume "2023-02-29-d-x-y.log" ∧
      OneMore oneVolume.logs oneLog (beside "2023-02-29-d-x-y.log") "2023-02-29-d-x-y.log" ∧
      (loaded? oneVolume oneLog).isSome ∧
      loaded? oneVolume (beside "2023-02-29-d-x-y.log") = none := by
  refine ⟨by decide +kernel, oneMore_beside _ (by decide), by decide +kernel, ?_⟩
  have none : (loaded? oneVolume (beside "2023-02-29-d-x-y.log")).isNone := by decide +kernel
  simpa using none

end State

end BackupRetention
