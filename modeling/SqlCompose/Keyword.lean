/-
  Keyword — the words and operators written inside clauses.

  * `Keyword.all` lists them, and `text` says how each is written;
  * `home` says which of them belong to one clause whatever is being written;
  * `IsDirection` holds of the two directions of sorting.
-/
import SqlCompose.Clause

namespace SqlCompose

/-- A word or operator inside a clause. -/
inductive Keyword where
  | innerJoin | outerJoin | leftJoin | rightJoin | crossJoin | on_ | using_ | and | or | between
  | exists_ | not | in_ | like | equal | greater | greaterOrEqual | less | lessOrEqual | isNull
  | isNotNull | asc | desc
  deriving DecidableEq, Repr

namespace Keyword

/-- All words. -/
def all : List Keyword :=
  [innerJoin, outerJoin, leftJoin, rightJoin, crossJoin, on_, using_, and, or, between, exists_, not,
    in_, like, equal, greater, greaterOrEqual, less, lessOrEqual, isNull, isNotNull, asc, desc]

theorem mem_all (w : Keyword) : w ∈ all := by cases w <;> decide

/-- The name by which a word is asked for. -/
def name : Keyword → Text
  | innerJoin => "INNER_JOIN"
  | outerJoin => "OUTER_JOIN"
  | leftJoin => "LEFT_JOIN"
  | rightJoin => "RIGHT_JOIN"
  | crossJoin => "CROSS_JOIN"
  | on_ => "ON"
  | using_ => "USING"
  | and => "AND"
  | or => "OR"
  | between => "BETWEEN"
  | exists_ => "EXISTS"
  | not => "NOT"
  | in_ => "IN"
  | like => "LIKE"
  | equal => "EQUAL"
  | greater => "GREATER_THAN"
  | greaterOrEqual => "GREATER_THAN_OR_EQUAL"
  | less => "LESS_THAN"
  | lessOrEqual => "LESS_THAN_OR_EQUAL"
  | isNull => "IS_NULL"
  | isNotNull => "IS_NOT_NULL"
  | asc => "ASC"
  | desc => "DESC"

/-- The word as it is written. -/
def text : Keyword → Text
  | innerJoin => "INNER JOIN"
  | outerJoin => "OUTER JOIN"
  | leftJoin => "LEFT JOIN"
  | rightJoin => "RIGHT JOIN"
  | crossJoin => "CROSS JOIN"
  | equal => "="
  | greater => ">"
  | greaterOrEqual => ">="
  | less => "<"
  | lessOrEqual => "<="
  | isNull => "IS NULL"
  | isNotNull => "IS NOT NULL"
  | w => w.name

/-- The clause that a word belongs to: joins and their conditions to `FROM`,
    directions to `ORDER BY`.  Every other word goes where it is written. -/
def home : Keyword → Option Clause
  | innerJoin | outerJoin | leftJoin | rightJoin | crossJoin | on_ | using_ => some .from_
  | asc | desc => some .orderBy
  | _ => none

end Keyword

/-- A direction of sorting, as it is written. -/
def IsDirection (token : Text) : Prop := token = Keyword.asc.text ∨ token = Keyword.desc.text

instance (token : Text) : Decidable (IsDirection token) := inferInstanceAs (Decidable (_ ∨ _))

end SqlCompose
