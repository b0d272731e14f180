import RowModel.Text.Split
import RowModel.Text.Upper

/-!
Identifiers made from the names of a database: columns and relations keep the case of their
letters but for the first of each segment, enum labels lose everything that cannot stand in an
identifier, and a relation is named in the singular.
-/
namespace RowModel.Name

open Text

def capitalize : List Char → List Char
  | [] => []
  | c :: r => upper c ++ r

@[simp] theorem capitalize_nil : capitalize [] = [] := rfl
@[simp] theorem capitalize_cons (c : Char) (r : List Char) :
    capitalize (c :: r) = upper c ++ r := rfl

/-- The capitalized segments between underscores, one after the other. -/
def joinSegments (s : List Char) : List Char := (splitOn '_' s).flatMap capitalize

@[simp] theorem joinSegments_nil : joinSegments [] = [] := rfl

/-- At an underscore the segments of a name fall into two lots. -/
theorem joinSegments_append (a b : List Char) :
    joinSegments (a ++ '_' :: b) = joinSegments a ++ joinSegments b := by
  simp [joinSegments, splitOn_append_sep_cons]

def fieldName (s : String) : String := String.ofList (joinSegments s.toList)

def wordSeparators : List Char := ['-', '_', ':', '/']

/-- The ASCII letters and digits of a label; the first one and the first one after each separator
are capitals. `fresh` says that the next one kept is such a first one. -/
def labelChars (fresh : Bool) : List Char → List Char
  | [] => []
  | c :: r =>
    if wordSeparators.contains c then labelChars true r
    else if c.isAlphanum then (if fresh then c.toUpper else c) :: labelChars false r
    else labelChars fresh r

def enumConstant (label : String) : String := String.ofList (labelChars true label.toList)

/-- Plurals that no rule forms, in lower case. -/
def irregularPlurals : List (String × String) :=
  [("children", "child"), ("people", "person"), ("men", "man"), ("women", "woman"),
   ("mice", "mouse"), ("geese", "goose"), ("teeth", "tooth"), ("feet", "foot"),
   ("data", "datum"), ("criteria", "criterion"), ("analyses", "analysis"), ("indices", "index"),
   ("appendices", "appendix"), ("matrices", "matrix"), ("vertices", "vertex")]

/-- The tabled singular of a word in any case. Only ASCII capitals matter: no other character has a
lower-case form that occurs in the table. -/
def irregularSingular? (w : List Char) : Option (List Char) :=
  (irregularPlurals.find? fun (plural, _) => plural.toList == w.map Char.toLower).map
    (·.2.toList)

/-- A word of more than `moreThan` characters with this ending loses its last `cut` characters for
`tail`. -/
structure PluralRule where
  ending : String
  moreThan : Nat
  cut : Nat
  tail : String
  deriving DecidableEq, Repr

def PluralRule.fits (r : PluralRule) (w : List Char) : Bool :=
  r.ending.toList.isSuffixOf w && decide (r.moreThan < w.length)

def PluralRule.apply (r : PluralRule) (w : List Char) : List Char :=
  w.take (w.length - r.cut) ++ r.tail.toList

/-- The regular plurals, the special endings first. -/
def pluralRules : List PluralRule :=
  [⟨"ies", 3, 3, "y"⟩, ⟨"ses", 3, 2, ""⟩, ⟨"xes", 3, 2, ""⟩, ⟨"zes", 3, 2, ""⟩,
   ⟨"ches", 4, 2, ""⟩, ⟨"shes", 4, 2, ""⟩]

/-- A final `s` that is not double, in a word of more than one letter. -/
def hasPlainS (w : List Char) : Bool :=
  ['s'].isSuffixOf w && !List.isSuffixOf ['s', 's'] w && decide (1 < w.length)

def regularSingular (w : List Char) : List Char :=
  match pluralRules.find? (·.fits w) with
  | some r => r.apply w
  | none => if hasPlainS w then w.dropLast else w

/-- The singular of a word; an irregular one keeps only the case of the first letter. -/
def singular (w : List Char) : List Char :=
  match irregularSingular? w with
  | some s => if w.head?.any Char.isUpper then capitalize s else s
  | none => regularSingular w

def singularize (s : String) : String := String.ofList (singular s.toList)

def modelName (relation : String) : String := fieldName (singularize relation)

/-- The type name for an enum of the database, which leaves out its schema. -/
def enumTypeName (name : String) : String :=
  String.ofList (joinSegments (afterLast '.' name.toList))

example : fieldName "_user__id_" = "UserId" := by decide
example : enumConstant "foo@bar-baz" = "FoobarBaz" := by decide
example : singularize "People" = "Person" := by decide

end RowModel.Name
