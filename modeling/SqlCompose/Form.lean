/-
  Form — records filled in by name, and what can be wrong with them.

  A form is a list of named entries.  A record that is made from one declares
  its fields; the entries of the form that it does not declare are refused.

  * `Fault` lists what can be wrong, and `Fault.message` says it;
  * `textOr`, `value` and `valueOr` look a declared field up;
  * `unexpected` gives the faults of the undeclared entries, in their order.
-/
import SqlCompose.Value

namespace SqlCompose

/-- What is wrong with a form. -/
inductive Fault where
  /-- A required field has no entry. -/
  | missing (field : Text)
  /-- The entry of a text field is no text. -/
  | notText (field : Text)
  /-- An entry has no field. -/
  | unexpected (field : Text)
  /-- The fields are of the right sort but do not fit together. -/
  | rejected (reason : Text)
  deriving DecidableEq, Repr

/-- The message of a fault. -/
def Fault.message : Fault → Text
  | missing _ => "Field required"
  | notText _ => "Input should be a valid string"
  | unexpected _ => "Extra inputs are not permitted"
  | rejected reason => "Value error, " ++ reason

/-- The field that a fault is about, if it is about one. -/
def Fault.field? : Fault → Option Text
  | missing field | notText field | unexpected field => some field
  | rejected _ => none

/-- Named entries, in the order in which they were made. -/
abbrev Form := List (Text × Value)

namespace Form

/-- The text entered for a field, or the text that stands in for no entry. -/
def textOr (form : Form) (field default : Text) : Except Fault Text :=
  match form.lookup field with
  | none => .ok default
  | some (.text t) => .ok t
  | some _ => .error (.notText field)

/-- The text entered for a required field. -/
def text (form : Form) (field : Text) : Except Fault Text :=
  match form.lookup field with
  | none => .error (.missing field)
  | some (.text t) => .ok t
  | some _ => .error (.notText field)

/-- The value entered for a required field. -/
def value (form : Form) (field : Text) : Except Fault Value :=
  match form.lookup field with
  | none => .error (.missing field)
  | some v => .ok v

/-- The faults of the entries that are none of the declared fields. -/
def unexpected (form : Form) (declared : List Text) : List Fault :=
  (form.filter fun entry => entry.1 ∉ declared).map fun entry => .unexpected entry.1

/-- The fault of a field, if there is one. -/
def faultOf {α : Type} : Except Fault α → List Fault
  | .ok _ => []
  | .error fault => [fault]

end Form

end SqlCompose
