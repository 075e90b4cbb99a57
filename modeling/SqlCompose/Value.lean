/-
  Value — the values that are written into statements and bound to placeholders.

  A value has four written forms:

  * `display` is its plain text, and names the placeholder it refers to;
  * `literal` is its SQL literal, with strings quoted and escaped;
  * `injected` is the text that replaces a placeholder, with strings as they are;
  * `quoted` is how a message shows it.

  `kind` names the sort of value in messages.
-/
import SqlCompose.Fragment
import SqlCompose.Numeral
import SqlCompose.Text.Quoted

namespace SqlCompose

/-- A value. -/
inductive Value where
  | null
  | bool (b : Bool)
  | int (n : Int)
  /-- A floating point number, by its canonical numeral. -/
  | float (numeral : Text)
  | text (t : Text)
  /-- Another statement, by the text it reads as. -/
  | statement (raw : Text)
  deriving DecidableEq, Repr

namespace Value

/-- The plain text of a value. -/
def display : Value → Text
  | null => "None"
  | bool b => if b then "True" else "False"
  | int n => Numeral.ofInt n
  | float numeral => numeral
  | text t => t
  | statement raw => raw

/-- The text that replaces a placeholder holding the value: the words of SQL for
    null and the booleans, the plain text otherwise. -/
def injected : Value → Text
  | null => "NULL"
  | bool b => if b then "TRUE" else "FALSE"
  | v => v.display

/-- The SQL literal of a value: as it is injected, but strings quoted and escaped. -/
def literal : Value → Text
  | text t => Fragment.literal (Fragment.escape t)
  | v => v.injected

/-- The plain text of a value as a string literal, converted to `TEXT`. -/
def varchar (v : Value) : Text :=
  Fragment.convert (Fragment.literal (Fragment.escape v.display)) "TEXT"

/-- The name of the sort of value. -/
def kind : Value → Text
  | null => "NoneType"
  | bool _ => "bool"
  | int _ => "int"
  | float _ => "float"
  | text _ => "str"
  | statement _ => "SQLStringBuilder"

/-- The value as messages show it. -/
def quoted : Value → Text
  | text t => Text.Quoted.encode t
  | statement raw => kind (statement raw) ++ "(" ++ Text.Quoted.encode raw ++ ")"
  | v => v.display

end Value

end SqlCompose
