/-!
What a database catalog reports: relations, columns and enum types.
-/
namespace RowModel

structure TableRef where
  schema : String
  name : String
  deriving DecidableEq, Repr

def TableRef.text (t : TableRef) : String := t.schema ++ "." ++ t.name

structure ColumnRef where
  schema : String
  table : String
  column : String
  deriving DecidableEq, Repr

def ColumnRef.text (c : ColumnRef) : String := c.schema ++ "." ++ c.table ++ "." ++ c.column

structure Column where
  name : String
  sqlType : String
  table : TableRef
  /-- Whether it may be null, if that is known. -/
  nullable : Option Bool
  isArray : Bool
  deriving DecidableEq, Repr

namespace Column

def ref (c : Column) : ColumnRef := ⟨c.table.schema, c.table.name, c.name⟩

/-- Whether an element may be null, if that is known of the column. Elements of an array are never
null. -/
def nullableElement (c : Column) : Option Bool := c.nullable.map fun n => n && !c.isArray

end Column

structure CatalogEnum where
  name : String
  labels : List String
  deriving DecidableEq, Repr

def defaultSchema : String := "public"

end RowModel
