/-
  Operand — the operands of calls, and what phrases are given to write.

  A phrase writes values, and may be given another statement in place of one.
  How statements are told apart is a parameter, so that the same phrase can
  name them or hold what they read as.

  * `Given` is a value or another statement;
  * `Argument` is what a call takes: something given as it is, a column, a
    literal or a placeholder;
  * `OperandKind` is the kind of an operand that is filled in by name.
-/
import SqlCompose.Form

namespace SqlCompose

/-! ## Given values -/

/-- A value, or another statement, which `ρ` identifies. -/
inductive Given (ρ : Type) where
  | value (v : Value)
  | statement (r : ρ)
  deriving Repr

/-- The same with another identification of statements. -/
def Given.map {ρ σ : Type} (f : ρ → σ) : Given ρ → Given σ
  | value v => value v
  | statement r => statement (f r)

/-- An argument of a call. -/
inductive Argument (ρ : Type) where
  /-- A fragment that is written as it is. -/
  | given (g : Given ρ)
  /-- A column, or a table and its column with a dot between them. -/
  | column (path : Text)
  /-- A literal. -/
  | value (g : Given ρ)
  /-- A placeholder. -/
  | param (g : Given ρ)
  deriving Repr

/-- The same with another identification of statements. -/
def Argument.map {ρ σ : Type} (f : ρ → σ) : Argument ρ → Argument σ
  | given g => given (g.map f)
  | column path => column path
  | value g => value (g.map f)
  | param g => param (g.map f)

/-! ## Operands by name -/

/-- The kinds of operands. -/
inductive OperandKind where
  | column | value | param
  deriving DecidableEq, Repr

namespace OperandKind

/-- The name of a kind. -/
def name : OperandKind → Text
  | column => "ColumnOperand"
  | value => "ValueOperand"
  | param => "ParamOperand"

/-- The kind of a given name. -/
def ofName? (t : Text) : Option OperandKind := [column, value, param].find? (·.name = t)

/-- The one field of an operand. -/
def field : OperandKind → Text
  | column => "col"
  | value => "value"
  | param => "param"

/-- The entry of a form for the field: a column needs a text and a literal needs
    a value, while a placeholder without a reference refers to null. -/
def entry (kind : OperandKind) (form : Form) : Except Fault Value :=
  match kind with
  | column => (form.text kind.field).map .text
  | value => form.value kind.field
  | param => .ok ((form.lookup kind.field).getD .null)

/-- The value that a form gives an operand, or what is wrong with the form. -/
def fill (kind : OperandKind) (form : Form) : Except (List Fault) Value :=
  match kind.entry form, form.unexpected [kind.field] with
  | .ok v, [] => .ok v
  | entry, faults => .error (Form.faultOf entry ++ faults)

end OperandKind

end SqlCompose
