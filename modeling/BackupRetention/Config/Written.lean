import BackupRetention.Config.Basic
import BackupRetention.Text.Decimal
import BackupRetention.Text.Json
import BackupRetention.Yaml.Node

/-!
# Written configurations

A configuration is one YAML document. Every scalar is a text where a text is wanted; a number
must be written plainly. A field that is left out has its default, except the path of a volume.
Fields that nobody knows or that stand twice are refused; of two entries of a table with one
key the last counts. What is left blank is an empty list or table.

## Main definitions

* `Config.ofYaml?`: the configuration in a text.
-/

namespace BackupRetention

namespace Written

/-! ## Scalars -/

def text? : Yaml.Node → Option String
  | .scalar _ _ text => some (String.ofList text)
  | _ => none

/-- The value of digits to the base `base`. -/
def ofDigits? (base : Nat) (digits : List Char) : Option Nat :=
  match digits with
  | [] => none
  | ds => ds.foldl (fun n d => do
      let d ← Text.hexDigit? d
      if d < base then return (← n) * base + d else none) (some 0)

/-- The value behind a mark of its base, if there is one. -/
def marked? (cs : List Char) : Option Nat :=
  match cs with
  | '0' :: 'x' :: ds => ofDigits? 16 ds
  | '0' :: 'o' :: ds => ofDigits? 8 ds
  | '0' :: 'b' :: ds => ofDigits? 2 ds
  | _ => none

/-- The value of decimal digits; more than one must not start with a zero. -/
def decimal? (cs : List Char) : Option Nat :=
  match cs with
  | '0' :: _ :: _ => none
  | ds => Text.number? ds

def magnitude? (cs : List Char) : Option Nat :=
  match marked? cs with
  | some n => some n
  | none => decimal? cs

/-- The number that a text writes, with or without a sign. -/
def integer? (cs : List Char) : Option Int :=
  match cs with
  | '+' :: cs => (magnitude? cs).map Int.ofNat
  | '-' :: cs => (magnitude? cs).map fun n => -(n : Int)
  | cs => (magnitude? cs).map Int.ofNat

/-- A number without a minus sign. -/
def natural? (cs : List Char) : Option Nat :=
  match cs with
  | '+' :: cs => magnitude? cs
  | cs => magnitude? cs

def integerTag : List Char := "tag:yaml.org,2002:int".toList

/-- The text of a scalar that may be a number: one that is plain, or a block that is tagged as
one. -/
def numeral? : Yaml.Node → Option (List Char)
  | .scalar .plain _ text => some text
  | .scalar .literal tag text => if tag = some integerTag then some text else none
  | _ => none

/-- A number of 32 signed bits. -/
def int32? (n : Yaml.Node) : Option Int :=
  match (numeral? n).bind integer? with
  | some i => if Text.minInt32 ≤ i ∧ i ≤ Text.maxInt32 then some i else none
  | none => none

/-- A number of 64 bits without a sign. -/
def nat64? (n : Yaml.Node) : Option Nat :=
  match (numeral? n).bind natural? with
  | some i => if i ≤ Text.maxNat64 then some i else none
  | none => none

/-! ## Lists and tables -/

/-- Whether nothing is written. -/
def isBlank : Yaml.Node → Bool
  | .scalar .plain _ text => text.isEmpty
  | _ => false

def list? {α : Type} (item? : Yaml.Node → Option α) : Yaml.Node → Option (List α)
  | .sequence ns => ns.mapM item?
  | n => if isBlank n then some [] else none

/-- The entries of a table, in the order in which they are written. -/
def entries? {α : Type} (value? : Yaml.Node → Option α) : Yaml.Node → Option (List (String × α))
  | .mapping ps => ps.mapM fun (k, v) => do return (← text? k, ← value? v)
  | n => if isBlank n then some [] else none

def table? {α : Type} (value? : Yaml.Node → Option α) (n : Yaml.Node) : Option (Keyed α) :=
  (entries? value? n).map Keyed.ofList

/-- The fields of a record, each one known and written once. -/
def fields? (known : List String) (n : Yaml.Node) : Option (List (String × Yaml.Node)) :=
  match entries? some n with
  | none => none
  | some fs =>
    if (fs.map Prod.fst).all known.contains ∧ (fs.map Prod.fst).Nodup then some fs else none

/-- The value of a field, or its default. -/
def field? {α : Type} (name : String) (default : α) (value? : Yaml.Node → Option α)
    (fs : List (String × Yaml.Node)) : Option α :=
  match fs.lookup name with
  | none => some default
  | some n => value? n

/-! ## Configurations -/

def volume? (n : Yaml.Node) : Option VolumeSettings := do
  let fs ← fields? ["path", "prune_age", "min_backups"] n
  return {
    path := ← text? (← fs.lookup "path")
    pruneAge := ← field? "prune_age" defaultPruneAge int32? fs
    minBackups := ← field? "min_backups" defaultMinBackups nat64? fs }

def host? (n : Yaml.Node) : Option HostSettings := do
  let fs ← fields? ["volumes"] n
  return ⟨← field? "volumes" [] (table? volume?) fs⟩

def config? (n : Yaml.Node) : Option Config := do
  let fs ← fields? ["logs", "stores", "devices", "hosts", "keep_prune_logs"] n
  return {
    logs := ← field? "logs" defaultLogs text? fs
    stores := ← field? "stores" [] (list? text?) fs
    devices := ← field? "devices" [] (list? text?) fs
    hosts := ← field? "hosts" [] (table? host?) fs
    keepPruneLogs := ← field? "keep_prune_logs" defaultKeepPruneLogs int32? fs }

end Written

/-- The configuration that a text writes; a text without a document writes the default one. -/
def Config.ofYaml? (s : String) : Option Config :=
  match Yaml.documents? s.toList with
  | some [] => some {}
  | some [n] => Written.config? n
  | _ => none

end BackupRetention
