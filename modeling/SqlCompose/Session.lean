/-
  Session — builders that are known by name and take each other in.

  * `source` is a builder as another one sees it;
  * `step` puts a call to one of the builders; the others do not change.

  Reading a builder makes it remember the text that it showed.  For a builder that
  another one reads this is left out: it shows the same text either way, and its memory
  could be filled before the call or behind it (`Session.step_remembering`).
-/
import SqlCompose.Builder

namespace SqlCompose

/-- The builder of every name. -/
abbrev Session := Text → Builder

namespace Session

/-- What the builder `name` sees of the builder `other`: of itself only the text.
    The other builder stays as it is: that it would remember its text now, as behind a
    call `raw` to it, is left out. -/
def source (s : Session) (name other : Text) : Source :=
  if other = name then .own (s other).text
  else .other (s other).text (s other).draft.parameters

/-- Puts a call to the builder `name`. -/
def step (s : Session) (name : Text) (call : Call Text) : Except Error Reply × Session :=
  let (reply, b) := (s name).respond (call.map (s.source name))
  (reply, fun n => if n = name then b else s n)

end Session

end SqlCompose
