import BackupRetention.Fault.Basic

/-!
# Layers of context

A fault on its way up gets messages and names of functions added to it, one layer above the other.
No layer hides whether the fault is fatal, and each is a heading in front of the indented text of
what it was added to.

## Main definitions

* `Fault.Layer`: a message or the name of a function.
* `Fault.under`: a fault below layers of context.
-/

namespace BackupRetention.Fault

/-- What is added to a fault on its way up. -/
inductive Layer where
  | message (text : String)
  | function (name : String)
  deriving DecidableEq, Repr

namespace Layer

/-- The fault with one more layer. -/
def above : Layer → Fault → Fault
  | .message text => .during text
  | .function name => .within name

/-- The line above the text of the fault. -/
def heading : Layer → String
  | .message text => text ++ ":"
  | .function name => name ++ " failed:"

end Layer

/-- The fault `f` below layers of context, outermost first. -/
def under (layers : List Layer) (f : Fault) : Fault :=
  layers.foldr Layer.above f

@[simp] theorem under_nil (f : Fault) : under [] f = f := rfl

@[simp] theorem under_cons (layer : Layer) (layers : List Layer) (f : Fault) :
    under (layer :: layers) f = layer.above (under layers f) := rfl

theorem isFatal_above (layer : Layer) (f : Fault) : (layer.above f).isFatal = f.isFatal := by
  cases layer <;> rw [Layer.above, isFatal]

/-- Context hides no fatal fault and makes none fatal. -/
theorem isFatal_under (layers : List Layer) (f : Fault) : (under layers f).isFatal = f.isFatal := by
  induction layers with
  | nil => rfl
  | cons layer layers ih => rw [under_cons, isFatal_above, ih]

theorem text_above (layer : Layer) (f : Fault) :
    (layer.above f).text = layer.heading ++ "\n" ++ Text.indent f.text := by
  have split (a b : String) : a ++ (b ++ "\n") = a ++ b ++ "\n" := String.append_assoc.symm
  cases layer with
  | message text => exact congrArg (· ++ Text.indent f.text) (split text ":")
  | function name => exact congrArg (· ++ Text.indent f.text) (split name " failed:")

end BackupRetention.Fault
