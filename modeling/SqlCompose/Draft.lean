/-
  Draft — a statement under way, with its parameters.

  A draft is the statement written so far and, once the first placeholder was
  asked for, its parameters.  It changes by edits.  An edit that fails leaves
  what it changed before, which is never more than parameters that hold nothing.

  * `ownParameters` are the parameters that the next placeholder is declared in, and
    `holding` puts parameters in;
  * `raw` is the text with placeholders, `compiled` the text with values;
  * `Edit` is the type of edits, and `write`, `writeTo`, `declare`,
    `declareAll` and `embed` are those of which all phrases are made;
  * `setParam`, `setParams` and `clearParams` change values only.
-/
import SqlCompose.Operand
import SqlCompose.Parameters.Compilation
import SqlCompose.Parameters.Embedding
import SqlCompose.Statement

namespace SqlCompose

/-- A statement under way. -/
structure Draft where
  marking : Marking
  statement : Statement
  /-- The parameters, `none` before the first placeholder was asked for. -/
  parameters : Option Parameters

/-- A statement as another one, or it itself, sees it. -/
inductive Source where
  /-- The statement itself. -/
  | own (raw : Text)
  /-- Another statement: its text and its parameters. -/
  | other (raw : Text) (parameters : Option Parameters)
  deriving DecidableEq

/-- The text that a statement reads as. -/
def Source.raw : Source → Text
  | own raw => raw
  | other raw _ => raw

/-- The value given: a statement stands for the text that it reads as. -/
def Given.toValue : Given Source → Value
  | value v => v
  | statement s => .statement s.raw

/-- The sort of what is given, as messages name it. -/
def Argument.kind : Argument Source → Text
  | given g => g.toValue.kind
  | column _ => OperandKind.column.name
  | value _ => OperandKind.value.name
  | param _ => OperandKind.param.name

namespace Draft

/-- Nothing is written. -/
def empty (m : Marking) : Draft := ⟨m, Statement.empty, none⟩

/-- The parameters in which a placeholder is declared: those there are, or new ones. -/
def ownParameters (d : Draft) : Parameters := .orEmpty d.marking d.parameters

/-- The draft with parameters. -/
def holding (d : Draft) (p : Parameters) : Draft := { d with parameters := some p }

@[simp] theorem ownParameters_holding (d : Draft) (p : Parameters) :
    (d.holding p).ownParameters = p := rfl

/-- The text of the statement, with its placeholders. -/
def raw (d : Draft) : Text := d.statement.render

/-- The text of the statement, with the values of its placeholders. -/
def compiled (d : Draft) : Except Error Text := Parameters.compile d.raw d.parameters

/-! ## Values -/

/-- Sets the value of every placeholder of a reference. -/
def setParam (d : Draft) (reference value : Value) : Except Error Draft :=
  match d.parameters with
  | none => .error (.unknownReference reference)
  | some p => (p.set reference value).map d.holding

/-- Sets the values of the first placeholders, in the order of declaration, and
    clears the others. -/
def setParams (d : Draft) (values : List Value) : Except Error Draft :=
  match d.parameters with
  | none => if values = [] then .ok d else .error (.tooManyValues values.length 0)
  | some p => (p.setAll values).map d.holding

/-- Clears all values. -/
def clearParams (d : Draft) : Draft := { d with parameters := d.parameters.map (·.clear) }

end Draft

/-! ## Edits -/

/-- A change of a draft that can fail.  A failure keeps the changes made before. -/
abbrev Edit := EStateM Error Draft

namespace Edit

/-- The result of a computation, or its failure. -/
def ofExcept {α : Type} : Except Error α → Edit α
  | .ok a => pure a
  | .error e => throw e

/-- Fails if no clause is open. -/
def requireClause : Edit Unit := do
  let _ ← ofExcept (← get).statement.requireCurrent

/-- Opens a clause. -/
def start (k : Clause) : Edit Unit := modify fun d => { d with statement := d.statement.start k }

/-- Writes tokens to the current clause. -/
def write (tokens : List Text) : Edit Unit := do
  let d ← get
  let statement ← ofExcept (d.statement.append tokens)
  set { d with statement }

/-- Writes tokens to an open clause. -/
def writeTo (k : Clause) (tokens : List Text) : Edit Unit := do
  let d ← get
  let statement ← ofExcept (d.statement.appendTo k tokens)
  set { d with statement }

/-- Changes the parameters, which are there from the first time on. -/
def onParameters {α : Type} (f : Parameters → Except Error (α × Parameters)) : Edit α := do
  let d ← get
  set (d.holding d.ownParameters)
  let (a, p) ← ofExcept (f d.ownParameters)
  set (d.holding p)
  return a

/-- Declares a placeholder and gives its text. -/
def declare (d : Declaration) : Edit Text := onParameters (·.allocate d)

/-- Declares placeholders, all or none, and gives their texts. -/
def declareAll (ds : List Declaration) : Edit (List Text) := onParameters (·.allocateAll ds)

/-- Takes another statement in: its text, with its placeholders declared here.  A
    statement without slots is only its text.  The other statement is given as it is
    seen, so what its builder remembers of it is not touched here. -/
def embed : Argument Source → Edit Text
  | .given (.statement (.own _)) => throw .insideItself
  | .given (.statement (.other raw none)) => return raw
  | .given (.statement (.other raw (some inner))) =>
    if inner.slotCount = 0 then return raw else onParameters (·.merge raw inner)
  | a => throw (.notStatement a.kind)

end Edit

end SqlCompose
