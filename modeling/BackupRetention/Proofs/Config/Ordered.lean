import BackupRetention.Config.Loading
import BackupRetention.Proofs.Ledger.Counts

/-!
# Configurations in order

A configuration lists its hosts in the order of their names, and the volumes of each host too,
however they are written.

## Main definitions

* `Config.Ordered`: hosts and volumes are in order.

## Main results

* `Config.ordered_of_read`: a configuration that was read is in order.
-/

namespace BackupRetention

namespace Keyed

variable {α : Type} {key : String} {a : α} {table : Keyed α}

theorem eq_or_mem_of_mem_insert {e : String × α} (he : e ∈ insert key a table) :
    e = (key, a) ∨ e ∈ table := by
  fun_induction insert key a table <;> grind

theorem sorted_insert (h : Sorted table) : Sorted (insert key a table) := by
  fun_induction insert key a table with
  | case1 => exact List.pairwise_singleton _ _
  | case2 k b rest lt =>
    refine List.pairwise_cons.2 ⟨?_, h⟩
    intro e he
    rcases List.mem_cons.1 he with rfl | he
    · exact lt
    · exact String.lt_trans lt ((List.pairwise_cons.1 h).1 e he)
  | case3 b rest lt => exact List.pairwise_cons.2 (List.pairwise_cons.1 h)
  | case4 k b rest lt other ih =>
    obtain ⟨first, others⟩ := List.pairwise_cons.1 h
    refine List.pairwise_cons.2 ⟨?_, ih others⟩
    intro e he
    rcases eq_or_mem_of_mem_insert he with rfl | he
    · by_contra ge
      exact other (String.le_antisymm (String.not_lt.1 lt) (String.not_lt.1 ge))
    · exact first e he

/-- A table is in order, and lists nothing but its pairs. -/
theorem ofList_spec (pairs : List (String × α)) :
    Sorted (ofList pairs) ∧ ∀ e ∈ ofList pairs, e ∈ pairs := by
  have inserts : ∀ (pairs : List (String × α)) (table : Keyed α), Sorted table →
      Sorted (pairs.foldl (fun table p => insert p.1 p.2 table) table) ∧
        ∀ e ∈ pairs.foldl (fun table p => insert p.1 p.2 table) table, e ∈ table ∨ e ∈ pairs := by
    intro pairs
    induction pairs with
    | nil => exact fun table h => ⟨h, fun e he => .inl he⟩
    | cons p pairs ih =>
      intro table h
      obtain ⟨sorted, mem⟩ := ih (insert p.1 p.2 table) (sorted_insert h)
      refine ⟨sorted, fun e he => ?_⟩
      rcases mem e he with he | he
      · rcases eq_or_mem_of_mem_insert he with rfl | he
        · exact .inr List.mem_cons_self
        · exact .inl he
      · exact .inr (List.mem_cons_of_mem _ he)
  obtain ⟨sorted, mem⟩ := inserts pairs [] .nil
  exact ⟨sorted, fun e he => (mem e he).resolve_left List.not_mem_nil⟩

end Keyed

namespace Written

variable {α : Type} {value? : Yaml.Node → Option α}

theorem mem_of_mapM {β : Type} {f : β → Option α} {xs : List β} {ys : List α}
    (h : xs.mapM f = some ys) {y : α} (hy : y ∈ ys) : ∃ x ∈ xs, f x = some y := by
  induction xs generalizing ys with
  | nil =>
    obtain rfl : [] = ys := by simpa using h
    exact absurd hy List.not_mem_nil
  | cons x xs ih =>
    obtain ⟨z, hz, zs, hzs, rfl⟩ : ∃ z, f x = some z ∧ ∃ zs, xs.mapM f = some zs ∧
      z :: zs = ys := by simpa [List.mapM_cons, Option.bind_eq_some_iff] using h
    rcases List.mem_cons.1 hy with rfl | hy
    · exact ⟨x, List.mem_cons_self, hz⟩
    · obtain ⟨w, hw, found⟩ := ih hzs hy
      exact ⟨w, List.mem_cons_of_mem _ hw, found⟩

/-- A written table is in order, and its values are written. -/
theorem table?_spec {n : Yaml.Node} {table : Keyed α} (h : table? value? n = some table) :
    Keyed.Sorted table ∧ ∀ e ∈ table, ∃ m, value? m = some e.2 := by
  obtain ⟨pairs, written, rfl⟩ := Option.map_eq_some_iff.1 h
  obtain ⟨sorted, mem⟩ := Keyed.ofList_spec pairs
  refine ⟨sorted, fun e he => ?_⟩
  replace he := mem e he
  unfold entries? at written
  split at written
  · next ps =>
    obtain ⟨p, -, found⟩ := mem_of_mapM written he
    obtain ⟨-, -, v, hv, rfl⟩ :
        ∃ k, text? p.1 = some k ∧ ∃ v, value? p.2 = some v ∧ (k, v) = e := by
      simpa [Option.bind_eq_some_iff] using found
    exact ⟨p.2, hv⟩
  · split at written
    · obtain rfl := Option.some.inj written
      exact absurd he List.not_mem_nil
    · contradiction

theorem field?_table_spec {name : String} {fs : List (String × Yaml.Node)} {table : Keyed α}
    (h : field? name [] (table? value?) fs = some table) :
    Keyed.Sorted table ∧ ∀ e ∈ table, ∃ m, value? m = some e.2 := by
  unfold field? at h
  split at h
  · obtain rfl := Option.some.inj h
    exact ⟨.nil, fun e he => absurd he List.not_mem_nil⟩
  · exact table?_spec h

end Written

namespace Config

/-- The hosts stand in the order of their names, and so do the volumes of each host. -/
structure Ordered (c : Config) : Prop where
  hosts : Keyed.Sorted c.hosts
  volumes : ∀ host ∈ c.hosts, Keyed.Sorted host.2.volumes

theorem ordered_of_config? {n : Yaml.Node} {c : Config} (h : Written.config? n = some c) :
    c.Ordered := by
  obtain ⟨fs, -, -, -, -, -, -, -, hosts, written, -, -, rfl⟩ :
      ∃ fs, Written.fields? ["logs", "stores", "devices", "hosts", "keep_prune_logs"] n = some fs ∧
        ∃ logs, Written.field? "logs" defaultLogs Written.text? fs = some logs ∧
        ∃ stores, Written.field? "stores" [] (Written.list? Written.text?) fs = some stores ∧
        ∃ devices, Written.field? "devices" [] (Written.list? Written.text?) fs = some devices ∧
        ∃ hosts, Written.field? "hosts" [] (Written.table? Written.host?) fs = some hosts ∧
        ∃ keep, Written.field? "keep_prune_logs" defaultKeepPruneLogs Written.int32? fs =
          some keep ∧ ⟨logs, stores, devices, hosts, keep⟩ = c := by
    simpa [Written.config?, Option.bind_eq_some_iff] using h
  obtain ⟨sorted, each⟩ := Written.field?_table_spec written
  refine ⟨sorted, fun e he => ?_⟩
  obtain ⟨m, host⟩ := each e he
  obtain ⟨gs, -, volumes, written, same⟩ : ∃ gs, Written.fields? ["volumes"] m = some gs ∧
      ∃ volumes, Written.field? "volumes" [] (Written.table? Written.volume?) gs = some volumes ∧
        ⟨volumes⟩ = e.2 := by
    simpa [Written.host?, Option.bind_eq_some_iff] using host
  exact same ▸ (Written.field?_table_spec written).1

theorem ordered_of_read {path : String} {t : FileTree} {c : Config} (h : read path t = .ok c) :
    c.Ordered := by
  unfold read at h
  split at h
  · contradiction
  · split at h
    · contradiction
    · split at h
      · contradiction
      · next written =>
        obtain rfl := Except.ok.inj h
        unfold ofYaml? at written
        split at written
        · obtain rfl := Option.some.inj written
          exact ⟨.nil, fun e he => absurd he List.not_mem_nil⟩
        · exact ordered_of_config? written
        · contradiction

end Config

end BackupRetention
