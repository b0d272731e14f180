import RowModel.Error
import RowModel.Override.Basic
import RowModel.Text.Blank
import RowModel.Value.Show

/-!
Rules as settings declare them. The faults of an entry are reported in a fixed order: its shape, its
target, its criteria, its column. What is put into words must have a text.
-/
namespace RowModel

open Text

/-- An affix of a package's name that cannot be part of an identifier is left out. -/
def qualifierOf (segment : List Char) : List Char :=
  dropEnd "-go".toList (dropStart "go-".toList segment)

namespace Target

/-- The mark `*` in front of a text, if there is one, and what follows it. -/
def splitMark (s : List Char) : List Char × List Char :=
  match s with
  | '*' :: r => (['*'], r)
  | _ => ([], s)

theorem splitMark_append (s : List Char) : (splitMark s).1 ++ (splitMark s).2 = s := by
  unfold splitMark
  split <;> rfl

theorem splitMark_fst (s : List Char) : (splitMark s).1 = [] ∨ (splitMark s).1 = ['*'] := by
  unfold splitMark
  split
  · exact .inr rfl
  · exact .inl rfl

/-- The target in a text without blanks around it. Up to its last point it is the import path, whose
last segment gives the qualifier; a mark `*` in front belongs to the type. -/
def parse? (s : List Char) : Option Target :=
  let (mark, s) := splitMark s
  match cutLast '.' s, cutLast '.' (afterLast '/' s) with
  | some (path, _), some (segment, name) =>
    let qualifier := qualifierOf segment
    if path.isEmpty || qualifier.isEmpty || name.isEmpty then none
    else some ⟨String.ofList path, String.ofList (mark ++ qualifier ++ '.' :: name)⟩
  | _, _ => none

/-- A target like `import/path/pkg.Type`. -/
def parse (raw : String) (package : Option String) : Except Error Target :=
  match parse? (strip raw.toList) with
  | some t => .ok t
  | none => .error (.configuration .malformedTarget package (some raw))

theorem parse_eq_ok_iff {raw : String} {package : Option String} {t : Target} :
    parse raw package = .ok t ↔ parse? (strip raw.toList) = some t := by
  rw [parse]
  split
  · next h => simp [h]
  · next h => simp [h]

end Target

/-- The parts of a column reference; without a schema it is in the default one. -/
def ColumnRef.ofParts? : List (List Char) → Option ColumnRef
  | [t, c] => some ⟨defaultSchema, String.ofList t, String.ofList c⟩
  | [s, t, c] => some ⟨String.ofList s, String.ofList t, String.ofList c⟩
  | _ => none

/-- A reference like `table.column` or `schema.table.column`. -/
def ColumnRef.parse (raw : String) (package : Option String) : Except Error ColumnRef :=
  let parts := splitOn '.' raw.toList
  if parts.any List.isEmpty then .error (.configuration (.emptyRefPart raw) package none)
  else match ColumnRef.ofParts? parts with
    | some r => .ok r
    | none => .error (.configuration (.malformedRef raw) package none)

/-- The words for a value, if it is not too deep for the machine and its numbers have a text. -/
def Value.worded (deep : Bool) (text? : Option String) : Except Error String :=
  if deep then .error .tooDeep else
    match text? with
    | some s => .ok s
    | none => .error .unwritable

def Error.IsWordless (e : Error) : Prop := e = .tooDeep ∨ e = .unwritable

section

variable [Machine]

def Value.wording (occasion : Occasion) (v : Value) : Except Error String :=
  worded (v.textExceeds (Machine.wording occasion)) v.text?

def Value.quoting (occasion : Occasion) (v : Value) : Except Error String :=
  worded (v.exceeds (Machine.wording occasion)) v.inner?

end

namespace Value

variable {deep : Bool} {text? : Option String} {s : String} {e : Error}

theorem worded_eq_ok : worded deep text? = .ok s ↔ deep = false ∧ text? = some s := by
  cases deep <;> cases text? <;> simp [worded]

theorem isWordless_of_worded (h : worded deep text? = .error e) : e.IsWordless := by
  cases deep <;> cases text? <;> cases h
  · exact .inr rfl
  · exact .inl rfl
  · exact .inl rfl

section

variable [Machine] {occasion : Occasion} {v : Value}

theorem text?_of_wording (h : v.wording occasion = .ok s) : v.text? = some s := (worded_eq_ok.mp h).2

theorem isWordless_of_wording (h : v.wording occasion = .error e) : e.IsWordless :=
  isWordless_of_worded h

end

end Value

namespace Rule

variable [Machine]

def ofColumn (entries : List (Value × Value)) (column : Value) (goType : String) (target : Target)
    (package : Option String) : Except Error Rule :=
  if (Value.find? "null" entries).isSome then
    .error (.configuration .misplacedNull package (some goType))
  else match column.wording (.entry package) with
    | .error e => .error e
    | .ok raw =>
      match ColumnRef.parse raw package with
      | .error e => .error e
      | .ok ref =>
        .ok (if (Value.get "array" entries).truthy then .array ref target else .column ref target)

def ofType (entries : List (Value × Value)) (sqlType : Value) (goType : String) (target : Target)
    (package : Option String) : Except Error Rule :=
  if (Value.find? "array" entries).isSome then
    .error (.configuration .misplacedArray package (some goType))
  else match sqlType.wording (.entry package) with
    | .error e => .error e
    | .ok s => .ok (.type s (Value.get "null" entries).truthy target)

def bothCriteria (column sqlType : Value) (goType : String) (package : Option String) : Error :=
  match column.quoting (.conflict package) with
  | .error e => e
  | .ok c =>
    match sqlType.quoting (.conflict package) with
    | .error e => e
    | .ok s => .configuration (.bothCriteria c s) package (some goType)

def ofEntries (entries : List (Value × Value)) (goType : String) (package : Option String) :
    Except Error Rule :=
  let column := Value.get "column" entries
  let sqlType := Value.get "postgres_type" entries
  match column.truthy, sqlType.truthy with
  | true, true => .error (bothCriteria column sqlType goType package)
  | false, false => .error (.configuration .noCriterion package (some goType))
  | true, false =>
    match Target.parse goType package with
    | .error e => .error e
    | .ok target => ofColumn entries column goType target package
  | false, true =>
    match Target.parse goType package with
    | .error e => .error e
    | .ok target => ofType entries sqlType goType target package

def parse (raw : Value) (package : Option String) : Except Error Rule :=
  match raw with
  | .map entries =>
    match Value.get "go_type" entries with
    | .str goType =>
      if goType = "" then .error (.configuration .missingTarget package none)
      else ofEntries entries goType package
    | _ => .error (.configuration .missingTarget package none)
  | _ => .error (.configuration .overrideNotMapping package none)

end Rule

end RowModel
