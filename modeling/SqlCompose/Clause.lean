/-
  Clause — the clauses of a statement.

  * `Clause.all` lists the clauses in the order in which a statement holds them;
  * `keyword` and `separator` are the words that open a clause and what stands
    between two of its items;
  * `ofName?` finds a clause by its name, and `ofName?_name` that every clause
    is found by its own.
-/
import SqlCompose.Fragment

namespace SqlCompose

/-- A clause of a statement. -/
inductive Clause where
  | with_ | select | selectDistinct | call | from_ | where_ | groupBy | having | orderBy | offset
  | limit
  deriving DecidableEq, Repr

namespace Clause

/-- All clauses, in the order in which a statement holds them. -/
def all : List Clause :=
  [with_, select, selectDistinct, call, from_, where_, groupBy, having, orderBy, offset, limit]

theorem mem_all (k : Clause) : k ∈ all := by cases k <;> decide

/-- The name by which a clause is asked for. -/
def name : Clause → Text
  | with_ => "WITH"
  | select => "SELECT"
  | selectDistinct => "SELECT_DISTINCT"
  | call => "CALL"
  | from_ => "FROM"
  | where_ => "WHERE"
  | groupBy => "GROUP_BY"
  | having => "HAVING"
  | orderBy => "ORDER_BY"
  | offset => "OFFSET"
  | limit => "LIMIT"

/-- The words that open a clause. -/
def keyword : Clause → Text
  | selectDistinct => "SELECT DISTINCT"
  | groupBy => "GROUP BY"
  | orderBy => "ORDER BY"
  | k => k.name

/-- What stands between two items: a comma in the clauses that are lists, a space
    in those that are one expression. -/
def separator : Clause → Text
  | with_ | select | selectDistinct | groupBy | orderBy => Fragment.comma
  | _ => " "

/-- The clause of a given name. -/
def ofName? (t : Text) : Option Clause := all.find? (·.name = t)

theorem ofName?_name (k : Clause) : ofName? k.name = some k := by cases k <;> decide

end Clause

end SqlCompose
