/-
  Fragment — the pieces of SQL text that statements are put together from.

  Every function takes texts and gives a text.  A fragment keeps a space on
  either side of each structural token, as in `( a , b )` and `CAST( x AS INT )`,
  so that a placeholder inside it stays a token of its own.

  * `escape` and `literal` write string literals, which use backslash escapes;
  * `identifier` and `qualified` write names, which double their quotes;
  * `convert`, `group`, `list`, `call` and `aggregate` wrap expressions;
  * `defining` and `aliased` name an expression, in front of it or behind it.
-/
import SqlCompose.Text

namespace SqlCompose.Fragment

/-- What separates the items of a list. -/
def comma : Text := " , "

/-! ## Literals and names -/

/-- Puts a backslash in front of every backslash and of both kinds of quote. -/
def escape (t : Text) : Text :=
  t.flatMap fun c => if c = '\\' ∨ c = '\'' ∨ c = '"' then ['\\', c] else [c]

/-- A string literal; a text that is one already stays as it is. -/
def literal (t : Text) : Text :=
  if Text.WrappedIn '\'' t then t else ['\''] ++ t ++ ['\'']

/-- A quoted name: its quotes are doubled.  The star and a name that is quoted
    already stay as they are. -/
def identifier (name : Text) : Text :=
  if name = ['*'] ∨ Text.WrappedIn '"' name then name else ['"'] ++ Text.double '"' name ++ ['"']

/-- A path of names, from the outermost qualifier to the name itself. -/
def qualified (path : List Text) : Text := List.intercalate ['.'] (path.map identifier)

/-- A name behind its qualifiers. -/
def qualifiedName (name : Text) (qualifiers : List Text) : Text := qualified (qualifiers ++ [name])

/-! ## Expressions -/

/-- The expression `e` converted to a type. -/
def convert (e type : Text) : Text := "CAST( " ++ e ++ " AS " ++ type ++ " )"

/-- An expression in parentheses. -/
def group (e : Text) : Text := "( " ++ e ++ " )"

/-- Items in parentheses. -/
def list (items : List Text) : Text := group (comma.intercalate items)

/-- The call of a function; without arguments two spaces stand between the
    parentheses. -/
def call (name : Text) (arguments : List Text) : Text :=
  name ++ "( " ++ comma.intercalate arguments ++ " )"

/-- The call of an aggregate, over distinct values or over all. -/
def aggregate (name argument : Text) (distinct : Bool) : Text :=
  name ++ "( " ++ (if distinct then "DISTINCT " else "") ++ argument ++ " )"

/-! ## Aliases -/

/-- The expression behind the name it defines.  No name and the empty name leave
    it as it is. -/
def defining : Option Text → Text → Text
  | none, e | some [], e => e
  | some name, e => identifier name ++ " AS " ++ e

/-- The expression in front of the name it is given.  No name and the empty name
    leave it as it is. -/
def aliased : Option Text → Text → Text
  | none, e | some [], e => e
  | some name, e => e ++ " AS " ++ identifier name

end SqlCompose.Fragment
