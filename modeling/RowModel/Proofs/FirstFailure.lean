import RowModel.Proofs.Occurrence
import RowModel.Proofs.Precedence

/-!
When the models of a catalog are built, and which error is reported when they are not. Tables are
built one after the other and the columns of each are typed in order, so the columns of all tables
count as one sequence: its first column without a type ends the build with its error, and nothing
after it is looked at. Main result: `Generator.buildModels_outcome`.
-/
namespace RowModel

def columnsOf (tables : List (TableRef × List Column)) : List Column := tables.flatMap Prod.snd

theorem forall_mem_columnsOf {tables : List (TableRef × List Column)} {P : Column → Prop} :
    (∀ c ∈ columnsOf tables, P c) ↔ ∀ table ∈ tables, ∀ c ∈ table.2, P c :=
  List.forall_mem_flatMap

namespace Generator

/-- An error that says why a column has no type: its SQL type is unknown, or a rule for arrays names
the column, which is a scalar. -/
inductive Refuses (g : Generator) (c : Column) : Error → Prop where
  | unsupported (noEnum : g.enumTypes.lookup c.sqlType = none)
    (notBuiltin : builtinTypes.lookup c.sqlType = none) :
    g.Refuses c (.unsupportedType c.sqlType c.ref.text (some g.package.name))
  | arrayOverScalar (target : Target) (scalar : c.isArray = false)
    (registered : Rule.array c.ref target ∈ g.rules) :
    g.Refuses c (.configuration (.arrayOverScalar c.ref) (some g.package.name)
      (some target.typeName))

variable {g : Generator}

/-- Each error of a column says why it has no type. -/
theorem refuses_of_columnType {c : Column} {e : Error} (h : g.columnType c = .error e) :
    g.Refuses c e := by
  have hlayers : layeredType g.package.overrides g.settings.overrides g.enumTypes g.package.name c =
      .error e := (columnType_append ..).symm.trans h
  rw [layeredType] at hlayers
  split at hlayers
  · cases hlayers
  · next r _ hr =>
    cases hlayers
    obtain ⟨hmem, hmisfits⟩ := mem_of_firstRule hr
    obtain ⟨hscalar, heq⟩ := Rule.misfits_iff.mp hmisfits
    exact .arrayOverScalar r.target hscalar (heq ▸ hmem)
  · split at hlayers
    · cases hlayers
    · next e' he =>
      cases hlayers
      obtain ⟨henum, hbuiltin, rfl⟩ := layeredElement_eq_error he
      exact .unsupported henum hbuiltin

def tableTypes (g : Generator) (tables : List (TableRef × List Column)) :
    Except Error (List (List String)) :=
  tables.mapM fun table => table.2.mapM g.columnType

/-- The models are made of the types, once all of them are there. -/
theorem buildModels_eq (g : Generator) (tables : List (TableRef × List Column)) :
    g.buildModels tables = (g.tableTypes tables).map
      (List.zipWith (fun table types =>
        ⟨Name.modelName table.1.name, List.zipWith (Occurrence.field g.package.hasJsonTags)
          (occurrences table.2) types⟩) tables) := by
  rw [tableTypes, ← mapM_map_eq, buildModels]
  simp only [buildStruct_eq]

theorem mapM_columnsOf (g : Generator) (tables : List (TableRef × List Column)) :
    (columnsOf tables).mapM g.columnType = (g.tableTypes tables).map List.flatten :=
  mapM_flatMap ..

/-- All models are built exactly if every column has a type. -/
theorem exists_buildModels_eq_ok_iff {tables : List (TableRef × List Column)} :
    (∃ models, g.buildModels tables = .ok models) ↔
      ∀ c ∈ columnsOf tables, ∃ type, g.columnType c = .ok type := by
  rw [← exists_mapM_eq_ok_iff, mapM_columnsOf, exists_map_eq_ok_iff, buildModels_eq,
    exists_map_eq_ok_iff]

def FailsAfter (g : Generator) (before : List Column) (c : Column) (e : Error) : Prop :=
  (∀ b ∈ before, ∃ type, g.columnType b = .ok type) ∧ g.columnType c = .error e

/-- The error of the build is that of the first column without a type. -/
theorem buildModels_eq_error_iff {tables : List (TableRef × List Column)} {e : Error} :
    g.buildModels tables = .error e ↔
      ∃ before c, before ++ [c] <+: columnsOf tables ∧ g.FailsAfter before c e := by
  have typing : (columnsOf tables).mapM g.columnType = .error e ↔
      g.buildModels tables = .error e := by
    rw [mapM_columnsOf, map_eq_error_iff, buildModels_eq, map_eq_error_iff]
  rw [← typing, mapM_eq_error_iff]
  rfl

/-- A build of models succeeds exactly when each column has a type, with a struct for each table
and a field for each column. Otherwise its error is that of the first column without a type, which
says why there is none, and all tables that begin with the same columns fail in the same way. -/
theorem buildModels_outcome (g : Generator) (tables : List (TableRef × List Column)) :
    ((∃ models, g.buildModels tables = .ok models) ↔
      ∀ table ∈ tables, ∀ c ∈ table.2, ∃ type, g.columnType c = .ok type) ∧
    (∀ models, g.buildModels tables = .ok models →
      List.Forall₂ (fun table x => x.name = Name.modelName table.1.name ∧
        List.Forall₂ (fun c f => g.columnType c = .ok f.type) table.2 x.fields) tables models) ∧
    (∀ e, g.buildModels tables = .error e ↔
      ∃ before c, before ++ [c] <+: columnsOf tables ∧ g.FailsAfter before c e) ∧
    ∀ before c e, g.FailsAfter before c e → g.Refuses c e ∧
      ∀ others, before ++ [c] <+: columnsOf others → g.buildModels others = .error e := by
  refine ⟨?_, ?_, fun e => buildModels_eq_error_iff, ?_⟩
  · rw [exists_buildModels_eq_ok_iff, forall_mem_columnsOf]
  · intro models h
    apply (mapM_eq_ok_iff.mp h).imp
    rintro ⟨table, columns⟩ x hx
    refine ⟨?_, columnType_fields hx⟩
    obtain ⟨types, -, rfl⟩ := structOf_eq_ok hx
    rfl
  · intro before c e h
    refine ⟨refuses_of_columnType h.2, ?_⟩
    intro others hp
    exact buildModels_eq_error_iff.mpr ⟨before, c, hp, h⟩

end Generator

def bookColumn (name sqlType : String) : Column :=
  ⟨name, sqlType, ⟨"public", "books"⟩, some false, false⟩

/-- A package that takes the tags of a book for an array. -/
def booksPackage : Package :=
  ⟨"db", .null, .null, .null, none, none,
    [.array ⟨"public", "books", "tags"⟩ ⟨"a.com/p", "p.Tags"⟩]⟩

def booksGenerator : Generator :=
  ⟨⟨some "1", [booksPackage], [], by decide⟩, booksPackage, [], List.mem_singleton.mpr rfl⟩

def booksError : Error :=
  .configuration (.arrayOverScalar ⟨"public", "books", "tags"⟩) (some "db") (some "p.Tags")

def bookTables : List (TableRef × List Column) :=
  [(⟨"public", "numbers"⟩, [bookColumn "id" "int"]),
    (⟨"public", "books"⟩, [bookColumn "tags" "text", bookColumn "shape" "polygon"])]

/-- Of the two the first one counts. -/
theorem buildModels_outcome_books :
    booksGenerator.FailsAfter [bookColumn "id" "int"] (bookColumn "tags" "text") booksError ∧
      booksGenerator.Refuses (bookColumn "tags" "text") booksError ∧
      booksGenerator.buildModels bookTables = .error booksError := by
  have h : booksGenerator.FailsAfter [bookColumn "id" "int"] (bookColumn "tags" "text")
      booksError := ⟨List.forall_mem_singleton.mpr ⟨"int32", rfl⟩, rfl⟩
  obtain ⟨-, -, herror, hfails⟩ := booksGenerator.buildModels_outcome bookTables
  have hprefix : [bookColumn "id" "int"] ++ [bookColumn "tags" "text"] <+: columnsOf bookTables :=
    ⟨[bookColumn "shape" "polygon"], rfl⟩
  exact ⟨h, (hfails _ _ _ h).1, (herror booksError).mpr ⟨_, _, hprefix, h⟩⟩

end RowModel
