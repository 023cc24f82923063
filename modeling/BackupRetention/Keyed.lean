/-!
# Tables in the order of their keys

A table is a list of keys with values, kept in increasing order of the keys. A later value
for a key takes the place of an earlier one.
-/

namespace BackupRetention

/-- A list of named values in the order of the names. -/
abbrev Keyed (α : Type) := List (String × α)

namespace Keyed

variable {α : Type}

/-- The value for `key`. -/
def find? (key : String) : Keyed α → Option α
  | [] => none
  | (k, a) :: rest => if k = key then some a else find? key rest

/-- Puts `a` under `key`. -/
def insert (key : String) (a : α) : Keyed α → Keyed α
  | [] => [(key, a)]
  | (k, b) :: rest =>
    if key < k then (key, a) :: (k, b) :: rest
    else if k = key then (key, a) :: rest
    else (k, b) :: insert key a rest

/-- A table of pairs in any order; of two values for a key the last one stays. -/
def ofList (pairs : List (String × α)) : Keyed α :=
  pairs.foldl (fun table p => insert p.1 p.2 table) []

/-- The keys stand in increasing order. -/
def Sorted (table : Keyed α) : Prop :=
  table.Pairwise fun a b => a.1 < b.1

end Keyed

end BackupRetention
