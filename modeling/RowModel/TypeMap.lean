import RowModel.Override.Resolve

/-!
The type of a column: what a rule for the column says, or else the type of its element, which comes
from a rule for the SQL type, from the enums of the catalog or from the built-in types, in this
order. The built-in types are pairs, for columns without null values and for the others.
-/
namespace RowModel

/-- A type for values that are never null and one for values that may be. -/
structure TypePair where
  notNull : String
  nullable : String
  deriving DecidableEq, Repr

namespace TypePair

/-- What is not known to be null at times is taken for never null. -/
def pick (p : TypePair) (nullable : Option Bool) : String :=
  if nullable = some true then p.nullable else p.notNull

def int16 : TypePair := ⟨"int16", "sql.NullInt16"⟩
def int32 : TypePair := ⟨"int32", "sql.NullInt32"⟩
def int64 : TypePair := ⟨"int64", "sql.NullInt64"⟩
def float32 : TypePair := ⟨"float32", "sql.NullFloat64"⟩
def float64 : TypePair := ⟨"float64", "sql.NullFloat64"⟩
def bool : TypePair := ⟨"bool", "sql.NullBool"⟩
def string : TypePair := ⟨"string", "sql.NullString"⟩
def bytes : TypePair := ⟨"[]byte", "[]byte"⟩
def time : TypePair := ⟨"time.Time", "sql.NullTime"⟩
def json : TypePair := ⟨"json.RawMessage", "json.RawMessage"⟩
def uuid : TypePair := ⟨"uuid.UUID", "uuid.NullUUID"⟩

end TypePair

def builtinTypes : List (String × TypePair) :=
  [("smallint", .int16), ("int2", .int16), ("pg_catalog.int2", .int16), ("smallserial", .int16),
   ("serial2", .int16), ("pg_catalog.serial2", .int16),
   ("integer", .int32), ("int", .int32), ("int4", .int32), ("pg_catalog.int4", .int32),
   ("serial", .int32), ("serial4", .int32), ("pg_catalog.serial4", .int32),
   ("bigint", .int64), ("int8", .int64), ("pg_catalog.int8", .int64), ("bigserial", .int64),
   ("serial8", .int64), ("pg_catalog.serial8", .int64),
   ("real", .float32), ("float4", .float32), ("pg_catalog.float4", .float32),
   ("float", .float64), ("double precision", .float64), ("float8", .float64),
   ("pg_catalog.float8", .float64),
   ("numeric", .string), ("decimal", .string), ("pg_catalog.numeric", .string),
   ("bool", .bool), ("boolean", .bool), ("pg_catalog.bool", .bool),
   ("text", .string), ("string", .string), ("varchar", .string), ("pg_catalog.varchar", .string),
   ("char", .string), ("bpchar", .string), ("pg_catalog.bpchar", .string), ("citext", .string),
   ("bytea", .bytes), ("blob", .bytes), ("pg_catalog.bytea", .bytes),
   ("date", .time), ("pg_catalog.date", .time), ("time", .time), ("timetz", .time),
   ("pg_catalog.time", .time), ("pg_catalog.timetz", .time), ("timestamp", .time),
   ("timestamptz", .time), ("pg_catalog.timestamp", .time), ("pg_catalog.timestamptz", .time),
   ("json", .json), ("jsonb", .json), ("uuid", .uuid)]

abbrev EnumTypes := List (String × String)

/-- The type of a column's element, the column itself if it is a scalar. -/
def elementType (c : Column) (rules : List Rule) (enumTypes : EnumTypes)
    (package : Option String) : Except Error String :=
  match resolveType c.sqlType c.nullableElement rules with
  | some t => .ok t.typeName
  | none =>
    match enumTypes.lookup c.sqlType with
    | some name => .ok name
    | none =>
      match builtinTypes.lookup c.sqlType with
      | some pair => .ok (pair.pick c.nullableElement)
      | none => .error (.unsupportedType c.sqlType c.ref.text package)

def columnType (c : Column) (rules : List Rule) (enumTypes : EnumTypes)
    (package : Option String) : Except Error String :=
  match resolveColumn c rules package with
  | .error e => .error e
  | .ok (some t) => .ok t.typeName
  | .ok none =>
    (elementType c rules enumTypes package).map fun t => if c.isArray then "[]" ++ t else t

end RowModel
