import RowModel.Catalog
import RowModel.Text.Split

/-!
Override rules. A rule for a SQL type replaces its built-in type at one nullability; a rule for a
column fixes the type of that column, which must be a scalar for one kind of rule and an array for
the other. In a list of rules the earlier ones win.
-/
namespace RowModel

/-- A type by its qualified name, with the import that provides it. -/
structure Target where
  importPath : String
  typeName : String
  deriving DecidableEq, Repr

def Target.isPointer (t : Target) : Bool := t.typeName.toList.head? == some '*'

inductive Rule where
  | type (sqlType : String) (nullable : Bool) (target : Target)
  | column (column : ColumnRef) (target : Target)
  | array (column : ColumnRef) (target : Target)
  deriving DecidableEq, Repr

namespace Rule

def target : Rule → Target
  | type _ _ t | column _ t | array _ t => t

/-- The target of a rule for this very column. -/
def columnTarget? (c : Column) : Rule → Option Target
  | column r t => if r = c.ref ∧ c.isArray = false then some t else none
  | array r t => if r = c.ref ∧ c.isArray = true then some t else none
  | type _ _ _ => none

/-- The target of a rule that takes a scalar column for an array. -/
def mismatch? (c : Column) : Rule → Option Target
  | array r t => if r = c.ref ∧ c.isArray = false then some t else none
  | _ => none

/-- The target of a rule for a SQL type at a nullability, which must be known. -/
def typeTarget? (sqlType : String) (nullable : Option Bool) : Rule → Option Target
  | type s n t => if s = sqlType ∧ some n = nullable then some t else none
  | _ => none

end Rule

end RowModel
