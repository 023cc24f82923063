import BackupRetention.Calendar.Date
import BackupRetention.Text.Lines
import BackupRetention.Text.Json

/-!
# Written dates

A date is read from three numbers with `-` between them, padded or not. Whatever is wrong,
the rejection names the text as it was given. The current day can be set from outside.
-/

namespace BackupRetention.Date

/-- A field of a written date: a number of 32 signed bits, without a sign. -/
def field? (cs : List Char) : Option Int :=
  match Text.number? cs with
  | some n => if (n : Int) ≤ Text.maxInt32 then some n else none
  | none => none

/-- The three numbers of a written date. -/
def fields? (cs : List Char) : Option (Int × Int × Int) :=
  match Text.pieces '-' cs with
  | [y, m, d] =>
    match field? y, field? m, field? d with
    | some y, some m, some d => some (y, m, d)
    | _, _, _ => none
  | _ => none

/-- The date that `s` names. -/
def ofText (s : String) : Except InvalidDate Date :=
  match fields? s.toList with
  | none => .error ⟨s, .badFormat⟩
  | some (y, m, d) =>
    match fault? y m d with
    | some reason => .error ⟨s, reason⟩
    | none => .ok ⟨y, m, d⟩

/-- The day a run takes for the current one: the day set from outside, if there is one. -/
def today (setDay : Option String) (clock : Date) : Except InvalidDate Date :=
  match setDay with
  | some s => ofText s
  | none => .ok clock

/-- A date as a string of a data file. -/
def json (d : Date) : String :=
  Text.jsonString d.text

/-- The date held by a data file that is one string. -/
def ofJson? (s : String) : Option Date :=
  match Text.ofJsonString? s with
  | some t => (ofText t).toOption
  | none => none

end BackupRetention.Date
