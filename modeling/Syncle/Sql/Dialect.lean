import Mathlib.Tactic.Common

/-!
# The dialects (`sql.ts`, and what the SQL adapters override)
-/

namespace Syncle.Sql

inductive Dialect where
  | postgres | mysql | sqlite
  deriving DecidableEq

namespace Dialect

def name : Dialect → String
  | .postgres => "postgres"
  | .mysql => "mysql"
  | .sqlite => "sqlite"

/-- What an identifier is quoted with. -/
def quote : Dialect → Char
  | .mysql => '`'
  | .postgres | .sqlite => '"'

end Dialect

/-- `text.replace(/q/g, 'qq')` -/
def double (q : Char) (text : List Char) : List Char :=
  text.flatMap fun c => if c = q then [q, q] else [c]

def quoteIdent (d : Dialect) (identifier : String) : List Char :=
  d.quote :: (double d.quote identifier.toList ++ [d.quote])

/-- Where a value is bound: at a number of its own, or wherever its turn is. -/
inductive Placeholder where
  | numbered (n : ℕ)
  | question
  deriving DecidableEq

/-- `placeholder(index)` -/
def Dialect.placeholder : Dialect → ℕ → Placeholder
  | .postgres, index => .numbered index
  | .mysql, _ | .sqlite, _ => .question

/-- As many values as a driver binds in one statement. -/
def Dialect.maxBindParams : Dialect → ℕ
  | .postgres | .mysql => 65534
  | .sqlite => 32766

end Syncle.Sql
