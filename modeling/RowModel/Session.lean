import RowModel.Generator

/-!
A session works with one set of settings: it opens generators one after the other and collects all
structs that it builds. A step that fails changes nothing.
-/
namespace RowModel

inductive Request where
  | openPackage (package : String) (enums : List CatalogEnum)
  | struct (name : String) (columns : List Column)
  | models (tables : List (TableRef × List Column))
  | enums
  | columnType (column : Column)
  | imports
  | rules (package : String)
  | forget

inductive Answer where
  | opened (generator : Generator)
  | struct (struct : Struct)
  | models (structs : List Struct)
  | enums (enums : List Enum)
  | columnType (type : String)
  | imports (imports : ImportSet)
  | rules (rules : List Rule)
  | forgotten

structure Session where
  settings : Settings
  generator : Option Generator
  built : List Struct

namespace Session

def start (settings : Settings) : Session := ⟨settings, none, []⟩

def current (s : Session) : Except Error Generator :=
  match s.generator with
  | some g => .ok g
  | none => .error .noGenerator

/-- The answer to a request and the session after it. -/
def perform (s : Session) : Request → Except Error (Answer × Session)
  | .openPackage package enums => do
    let g ← Generator.create s.settings package enums
    return (.opened g, { s with generator := some g })
  | .struct name columns => do
    let g ← s.current
    let x ← g.buildStruct name columns
    return (.struct x, { s with built := s.built ++ [x] })
  | .models tables => do
    let g ← s.current
    let xs ← g.buildModels tables
    return (.models xs, { s with built := s.built ++ xs })
  | .enums => do
    let g ← s.current
    return (.enums g.buildEnums, s)
  | .columnType column => do
    let g ← s.current
    let t ← g.columnType column
    return (.columnType t, s)
  | .imports => do
    let g ← s.current
    return (.imports (g.imports s.built), s)
  | .rules package => do
    let rs ← s.settings.rulesFor package
    return (.rules rs, s)
  | .forget => return (.forgotten, { s with built := [] })

/-- The answer to a request, or its error, and the session after it. -/
def step (s : Session) (r : Request) : Except Error Answer × Session :=
  match s.perform r with
  | .ok (a, s) => (.ok a, s)
  | .error e => (.error e, s)

def run (s : Session) : List Request → List (Except Error Answer)
  | [] => []
  | r :: rs =>
    let (a, s) := s.step r
    a :: run s rs

end Session

end RowModel
