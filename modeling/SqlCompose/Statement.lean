/-
  Statement — the open clauses of a statement and the tokens written to them.

  A statement is written clause by clause.  Opening a clause makes it current
  and empties it; tokens go to the current clause or to a named one that is
  open.  The order in which clauses were opened does not matter to the text.

  * `Clause.body` joins the tokens of a clause, and `Clause.render` puts its
    keyword in front;
  * `start`, `append` and `appendTo` are the steps of writing;
  * `render` is the text of the statement.
-/
import SqlCompose.Error

namespace SqlCompose

/-! ## The text of one clause -/

namespace Clause

/-- The text of sorting keys: a direction belongs to the token in front of it and
    follows it behind a space; any other token begins a new item of the list. -/
def sortingKeys : List Text → Text
  | [] => []
  | token :: tokens =>
    token ++ tokens.flatMap fun t => (if IsDirection t then [' '] else Fragment.comma) ++ t

/-- The joined tokens of a clause. -/
def body (k : Clause) (tokens : List Text) : Text :=
  if k = .orderBy then sortingKeys tokens else k.separator.intercalate tokens

/-- The keyword of a clause and, if there is one, its body. -/
def render (k : Clause) (tokens : List Text) : Text :=
  if k.body tokens = [] then k.keyword else k.keyword ++ [' '] ++ k.body tokens

end Clause

/-! ## The statement -/

/-- The tokens of every open clause, and the clause that is being written. -/
structure Statement where
  /-- The tokens of a clause, `none` if it is not open. -/
  tokens? : Clause → Option (List Text)
  /-- The clause that was opened last. -/
  current : Option Clause

namespace Statement

/-- No clause is open. -/
def empty : Statement := ⟨fun _ => none, none⟩

/-- Gives the clause `k` the tokens `tokens`. -/
def setTokens (s : Statement) (k : Clause) (tokens : List Text) : Statement :=
  { s with tokens? := fun k' => if k' = k then some tokens else s.tokens? k' }

/-- Opens a clause, without tokens even if it was open before, and makes it
    current. -/
def start (s : Statement) (k : Clause) : Statement := { s.setTokens k [] with current := some k }

/-- The current clause. -/
def requireCurrent (s : Statement) : Except Error Clause :=
  match s.current with
  | some k => .ok k
  | none => .error .noClause

/-- Writes tokens to the current clause. -/
def append (s : Statement) (tokens : List Text) : Except Error Statement :=
  s.requireCurrent.map fun k => s.setTokens k ((s.tokens? k).getD [] ++ tokens)

/-- Writes tokens to an open clause, whichever is current. -/
def appendTo (s : Statement) (k : Clause) (tokens : List Text) : Except Error Statement :=
  match s.tokens? k with
  | some ts => .ok (s.setTokens k (ts ++ tokens))
  | none => .error (.clauseNotOpen k)

/-- The text of the statement: its open clauses in their fixed order. -/
def render (s : Statement) : Text :=
  List.intercalate [' '] (Clause.all.filterMap fun k => (s.tokens? k).map k.render)

/-! ## What the steps do -/

@[simp] theorem current_setTokens (s : Statement) (k : Clause) (ts : List Text) :
    (s.setTokens k ts).current = s.current := rfl

@[simp] theorem tokens?_setTokens (s : Statement) (k k' : Clause) (ts : List Text) :
    (s.setTokens k ts).tokens? k' = if k' = k then some ts else s.tokens? k' := rfl

@[simp] theorem current_start (s : Statement) (k : Clause) : (s.start k).current = some k := rfl

@[simp] theorem tokens?_start (s : Statement) (k k' : Clause) :
    (s.start k).tokens? k' = if k' = k then some [] else s.tokens? k' := rfl

/-- Writing to the current clause fails exactly if there is none. -/
theorem append_eq (s : Statement) (tokens : List Text) :
    s.append tokens = match s.current with
      | none => .error .noClause
      | some k => .ok (s.setTokens k ((s.tokens? k).getD [] ++ tokens)) := by
  unfold append requireCurrent
  cases s.current <;> rfl

end Statement

end SqlCompose
