/-
  Phrase — the phrases of which statements are composed.

  A phrase opens a clause or writes tokens to one.  Some phrases declare
  placeholders or take in other statements on the way.

  * `Phrase` lists them, and `Phrase.map` changes how other statements are
    identified;
  * `Phrase.write` is the edit that a phrase makes.
-/
import SqlCompose.Draft

namespace SqlCompose

/-- A phrase; `ρ` identifies other statements. -/
inductive Phrase (ρ : Type) where
  /-- Opens a clause. -/
  | clause (k : Clause)
  /-- A word or operator. -/
  | keyword (w : Keyword)
  /-- `USING` and the columns of a join. -/
  | using_ (columns : List Text)
  /-- A column by its path, possibly converted to a type and named. -/
  | column (path : List Text) (type label : Option Text)
  /-- All columns, or those of one table. -/
  | allColumns (qualifier : Option Text)
  /-- A table, possibly named. -/
  | table (schema name : Text) (label : Option Text)
  /-- A literal. -/
  | literal (g : Given ρ)
  /-- The plain text of a value. -/
  | bare (g : Given ρ)
  /-- A text as it is. -/
  | verbatim (t : Text)
  /-- A named statement in a list of definitions. -/
  | definition (sub : Argument ρ) (label : Option Text)
  /-- A statement as an expression, possibly named. -/
  | subquery (sub : Argument ρ) (label : Option Text)
  /-- `EXISTS` and a statement. -/
  | existence (sub : Argument ρ)
  /-- `IN` and a statement, a number of fresh placeholders, or placeholders. -/
  | membership (candidates : List (Given ρ))
  /-- A placeholder. -/
  | param (reference : Given ρ)
  /-- The call of a procedure. -/
  | procedure (name : Text) (arguments : List (Argument ρ))
  /-- The call of a function, possibly converted to a type and named. -/
  | function (name : Text) (type label : Option Text) (arguments : List (Argument ρ))
  /-- The call of an aggregate, possibly converted to a type and named. -/
  | aggregate (name : Text) (type label : Option Text) (distinct : Bool) (argument : Argument ρ)
  deriving Repr

namespace Phrase

/-- The same phrase with another identification of statements. -/
def map {ρ σ : Type} (f : ρ → σ) : Phrase ρ → Phrase σ
  | clause k => clause k
  | keyword w => keyword w
  | using_ columns => using_ columns
  | column path type label => column path type label
  | allColumns qualifier => allColumns qualifier
  | table schema name label => table schema name label
  | literal g => literal (g.map f)
  | bare g => bare (g.map f)
  | verbatim t => verbatim t
  | definition sub label => definition (sub.map f) label
  | subquery sub label => subquery (sub.map f) label
  | existence sub => existence (sub.map f)
  | membership candidates => membership (candidates.map (·.map f))
  | param reference => param (reference.map f)
  | procedure name arguments => procedure name (arguments.map (·.map f))
  | function name type label arguments => function name type label (arguments.map (·.map f))
  | aggregate name type label distinct argument =>
    aggregate name type label distinct (argument.map f)

/-! ## Arguments -/

/-- What the placeholders among arguments are declared for, in their order. -/
def declarations (arguments : List (Argument Source)) : List Declaration :=
  arguments.filterMap fun
    | .param g => some (.ofValue g.toValue)
    | _ => none

/-- The text of an argument that is no placeholder. -/
def argumentText : Argument Source → Text
  | .given g => g.toValue.display
  | .column path => Fragment.qualified (path.cutAt '.')
  | .value g => g.toValue.literal
  | .param _ => []

/-- The texts of arguments, in which the placeholders are the given ones, in order. -/
def argumentTexts : List Text → List (Argument Source) → List Text
  | marker :: markers, .param _ :: arguments => marker :: argumentTexts markers arguments
  | markers, argument :: arguments => argumentText argument :: argumentTexts markers arguments
  | _, [] => []

/-- The texts of arguments, with their placeholders declared all or none. -/
def writtenArguments (arguments : List (Argument Source)) : Edit (List Text) := do
  let markers ←
    if declarations arguments = [] then pure [] else Edit.declareAll (declarations arguments)
  return argumentTexts markers arguments

/-- The text of one argument. -/
def writtenArgument : Argument Source → Edit Text
  | .param g => Edit.declare (.ofValue g.toValue)
  | argument => return argumentText argument

/-! ## Writing -/

/-- An expression, converted to a type and named if these are given. -/
def finished (type label : Option Text) (e : Text) : Text :=
  Fragment.aliased label (match type with
    | some type => Fragment.convert e type
    | none => e)

/-- What `IN` looks in: a statement by itself, as many fresh placeholders as a
    number by itself says, or a placeholder for every value. -/
def writtenCandidates : List (Given Source) → Edit Text
  | [.statement s] => return Fragment.group (← Edit.embed (.given (.statement s)))
  | [.value (.int n)] =>
    if n < 1 then throw (.countNotPositive n)
    else return Fragment.list (← Edit.declareAll (List.replicate n.toNat none))
  | candidates =>
    return Fragment.list (← Edit.declareAll (candidates.map fun g => .ofValue g.toValue))

/-- The edit that a phrase makes. -/
def write : Phrase Source → Edit Unit
  | clause k => Edit.start k
  | keyword w =>
    match w.home with
    | some k => Edit.writeTo k [w.text]
    | none => Edit.write [w.text]
  | using_ columns =>
    if columns = [] then throw .noJoinColumn
    else
      Edit.writeTo .from_ [Keyword.using_.text, Fragment.list (columns.map Fragment.identifier)]
  | column path type label =>
    if path = [] then throw .noColumnName
    else Edit.write [finished type label (Fragment.qualified path)]
  | allColumns none | allColumns (some []) => Edit.write [['*']]
  | allColumns (some qualifier) => Edit.write [Fragment.qualified [qualifier, ['*']]]
  | table schema name label => Edit.write [finished none label (Fragment.qualified [schema, name])]
  | literal g => Edit.write [g.toValue.literal]
  | bare g => Edit.write [g.toValue.display]
  | verbatim t => Edit.write [t]
  | definition sub label => do
    Edit.requireClause
    let text ← Edit.embed sub
    Edit.write [Fragment.defining label (Fragment.group text)]
  | subquery sub label => do
    Edit.requireClause
    let text ← Edit.embed sub
    Edit.write [finished none label (Fragment.group text)]
  | existence sub => do
    Edit.requireClause
    let text ← Edit.embed sub
    Edit.write [Keyword.exists_.text, Fragment.group text]
  | membership candidates => do
    if candidates.isEmpty then throw .noCandidate
    Edit.requireClause
    let text ← writtenCandidates candidates
    Edit.write [Keyword.in_.text, text]
  | param reference => do
    Edit.requireClause
    let marker ← Edit.declare (.ofValue reference.toValue)
    Edit.write [marker]
  | procedure name arguments => do
    Edit.requireClause
    let texts ← writtenArguments arguments
    Edit.write [Fragment.call name texts]
  | function name type label arguments => do
    Edit.requireClause
    let texts ← writtenArguments arguments
    Edit.write [finished type label (Fragment.call name texts)]
  | aggregate name type label distinct argument => do
    Edit.requireClause
    let text ← writtenArgument argument
    Edit.write [finished type label (Fragment.aggregate name text distinct)]

end Phrase

end SqlCompose
