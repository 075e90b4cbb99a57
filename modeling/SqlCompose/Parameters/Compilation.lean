/-
  Parameters.Compilation — statements with values in place of placeholders.

  The placeholders of a statement are counted in the order of its text, and each
  is replaced by the value of the slot of its number.  The slot has to exist,
  has to belong to the placeholder and has to hold a value; the first
  placeholder that fails decides the error.

  * `valueAt` is the value for a placeholder or what is wrong with it;
  * `fillFrom` replaces the placeholders of a template;
  * `compile` is the statement to be sent.
-/
import SqlCompose.Parameters
import SqlCompose.Template

namespace SqlCompose.Parameters

/-- The value for the placeholder `token`, which is number `position`. -/
def valueAt (p : Parameters) (position : Nat) (token : Text) : Except Error Text :=
  if p.slotCount ≤ position then
    .error (.outOfBounds position p.slotCount (p.marking.display token))
  else if ¬ p.isBound token position then
    .error (.outOfOrder position (p.marking.display token))
  else
    match p.values[position]? with
    | some (some value) => .ok value
    | _ => .error (.missingValue (p.marking.display token))

/-- The text of the pieces, in which the placeholders, counted from `position`,
    are replaced by their values. -/
def fillFrom (p : Parameters) (position : Nat) : Template → Except Error Text
  | [] => .ok []
  | .word t :: ps =>
    if p.marking.isPlaceholder t then do
      let value ← p.valueAt position t
      let rest ← p.fillFrom (position + 1) ps
      return value ++ rest
    else return t ++ (← p.fillFrom position ps)
  | piece :: ps => return piece.text ++ (← p.fillFrom position ps)

/-- The statement with every placeholder replaced.  A statement without slots is
    taken as it is. -/
def compile (raw : Text) : Option Parameters → Except Error Text
  | none => .ok raw
  | some p => if p.slotCount = 0 then .ok raw else p.fillFrom 0 (Template.ofText raw)

/-- No parameters are as good as parameters without slots. -/
theorem compile_orEmpty (m : Marking) (raw : Text) (o : Option Parameters) :
    compile raw o = compile raw (some (orEmpty m o)) := by
  cases o <;> rfl

end SqlCompose.Parameters
