import RowModel.Struct

/-!
Import paths that the types of fields need. A type is looked up without its brackets and stars,
among the targets of rules first and then by its qualifier among the built-in packages.
-/
namespace RowModel

/-- Import paths in code point order, those of the standard library apart. -/
structure ImportSet where
  std : List String
  packages : List String
  deriving DecidableEq, Repr

def builtinImports : List (String × String) :=
  [("sql", "database/sql"), ("time", "time"), ("json", "encoding/json"),
   ("uuid", "github.com/google/uuid")]

/-- A path of the standard library begins with no host name. -/
def isStandard (path : String) : Bool :=
  !(Text.beforeFirst '/' path.toList).contains '.'

def isTypeMark (c : Char) : Bool := c == '[' || c == ']' || c == '*'

def bareType (type : String) : String := String.ofList (type.toList.dropWhile isTypeMark)

def builtinImport? (bare : String) : Option String :=
  (Text.cutFirst '.' bare.toList).bind fun (qualifier, _) =>
    builtinImports.lookup (String.ofList qualifier)

/-- The import paths of the targets of rules by their bare types. The rules are gone through from
the last to the first, so that the first of a bare type has the last word. -/
def overridePaths (rules : List Rule) : Table String :=
  rules.reverse.foldl
    (fun t r => Table.put (bareType r.target.typeName) r.target.importPath t) []

def importOf? (overrides : Table String) (bare : String) : Option String :=
  match overrides.lookup bare with
  | some path => some path
  | none => builtinImport? bare

/-- Puts a text into a rising list that may have it already. -/
def insertText (s : String) : List String → List String
  | [] => [s]
  | t :: r => if s < t then s :: t :: r else if s = t then t :: r else t :: insertText s r

/-- The texts of a list, rising and each once. -/
def sortTexts (ts : List String) : List String := ts.foldr insertText []

def collectImports (structs : List Struct) (rules : List Rule) : ImportSet :=
  let overrides := overridePaths rules
  let fields := structs.flatMap Struct.fields
  let paths := fields.filterMap fun f => importOf? overrides (bareType f.type)
  { std := sortTexts (paths.filter isStandard)
    packages := sortTexts (paths.filter (!isStandard ·)) }

end RowModel
