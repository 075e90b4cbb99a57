/-
  Error — why a step of composing a statement fails.

  * `Error` has one constructor for every cause, with what the cause is about;
  * `Error.message` says it in words.
-/
import SqlCompose.Keyword
import SqlCompose.Value

namespace SqlCompose

/-- The cause of a failure. -/
inductive Error where
  /-- Something is written before any clause was opened. -/
  | noClause
  /-- Something is written to a clause that was not opened. -/
  | clauseNotOpen (k : Clause)
  /-- `USING` without columns. -/
  | noJoinColumn
  /-- A column without a name. -/
  | noColumnName
  /-- `IN` without anything to look in. -/
  | noCandidate
  /-- `IN` with a number of placeholders below one. -/
  | countNotPositive (n : Int)
  /-- A value of some other kind where a statement has to stand. -/
  | notStatement (kind : Text)
  /-- A statement inside itself. -/
  | insideItself
  /-- A statement inside one with another marking. -/
  | otherMarking
  /-- A reference to an ordinal that is not among the `declared` ones. -/
  | undeclaredOrdinal (n : Int) (declared : Nat)
  /-- A name that is no word. -/
  | unusableName (name : Text)
  /-- A value for a reference without a placeholder. -/
  | unknownReference (reference : Value)
  /-- More values in a row than there are slots. -/
  | tooManyValues (supplied slots : Nat)
  /-- A placeholder behind the last slot. -/
  | outOfBounds (position slots : Nat) (placeholder : Text)
  /-- A placeholder whose slot belongs to another reference. -/
  | outOfOrder (position : Nat) (placeholder : Text)
  /-- A placeholder whose slot holds no value. -/
  | missingValue (placeholder : Text)
  deriving DecidableEq, Repr

namespace Error

/-- The words for a failure. -/
def message : Error → Text
  | noClause => "No clause is open; call a clause method such as SELECT() or WHERE() first."
  | clauseNotOpen k =>
    "Clause " ++ k.keyword ++ " is not open; call " ++ k.name ++ "() first."
  | noJoinColumn => "USING() needs at least one column."
  | noColumnName => "A column needs at least a name."
  | noCandidate => "IN() needs a subquery, a count or references."
  | countNotPositive n => "IN() needs a positive count, got " ++ Numeral.ofInt n ++ "."
  | notStatement kind => "Expected a SQLStringBuilder subquery, got " ++ kind ++ "."
  | insideItself => "A builder cannot be embedded into itself."
  | otherMarking => "Cannot embed a subquery built with different placeholder settings."
  | undeclaredOrdinal n declared =>
    "Ordinal reference " ++ Numeral.ofInt n ++ " has not been declared; ordinals 1 to " ++
      Numeral.ofNat declared ++ " exist."
  | unusableName name =>
    "Named parameter reference must be non-empty without whitespace: " ++ Text.Quoted.encode name
  | unknownReference reference => "No parameter found with reference: " ++ reference.quoted
  | tooManyValues supplied slots =>
    "Received " ++ Numeral.ofNat supplied ++ " positional values for " ++ Numeral.ofNat slots ++
      " parameter slots."
  | outOfBounds position slots _ =>
    "Parameter injection position " ++ Numeral.ofNat position ++ " out of bounds with size " ++
      Numeral.ofNat slots
  | outOfOrder position placeholder =>
    "Placeholder " ++ placeholder ++ " at position " ++ Numeral.ofNat position ++
      " is not bound to slot " ++ Numeral.ofNat position ++
      "; placeholders must be declared in statement order."
  | missingValue placeholder => "No injection value found for parameter " ++ placeholder

end Error

end SqlCompose
