import RowModel.Error
import RowModel.Override.Basic

/-!
The rule that decides a column. A rule for an array that meets a scalar column is an error only if
no other rule fits the column.
-/
namespace RowModel

/-- The target for a column from the rules that are left, where `pending` is the first target before
them that takes the column for an array. -/
def resolveFrom (c : Column) (package : Option String) (pending : Option Target) :
    List Rule → Except Error (Option Target)
  | [] =>
    match pending with
    | some t => .error (.configuration (.arrayOverScalar c.ref) package (some t.typeName))
    | none => .ok none
  | r :: rules =>
    match r.columnTarget? c with
    | some t => .ok (some t)
    | none => resolveFrom c package (pending.or (r.mismatch? c)) rules

def resolveColumn (c : Column) (rules : List Rule) (package : Option String) :
    Except Error (Option Target) := resolveFrom c package none rules

def resolveType (sqlType : String) (nullable : Option Bool) (rules : List Rule) : Option Target :=
  rules.findSome? (Rule.typeTarget? sqlType nullable)

end RowModel
