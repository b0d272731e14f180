import RowModel.Catalog
import RowModel.Yaml.Fault

/-!
Everything that can go wrong in making models, and the one place where it is put into words.
-/
namespace RowModel

inductive ConfigFault where
  | unreadableDocument
  | rootNotMapping
  | missingVersion
  | unsupportedVersion (version : String)
  | packagesNotList
  | overridesNotList
  | packageNotMapping
  | missingPackageName
  | duplicatePackage (name : String)
  | unknownPackage (name : String)
  | overrideNotMapping
  | missingTarget
  | bothCriteria (column sqlType : String)
  | noCriterion
  | malformedTarget
  | misplacedNull
  | misplacedArray
  | emptyRefPart (raw : String)
  | malformedRef (raw : String)
  | arrayOverScalar (column : ColumnRef)
  | other (message : String)
  deriving DecidableEq, Repr

/-- An error with the package it happened in and, for settings, the override it is about. -/
inductive Error where
  | configuration (fault : ConfigFault) (package override : Option String)
  | unsupportedType (sqlType column : String) (package : Option String)
  | general (message : String) (package : Option String)
  | scalar (fault : Yaml.ScalarFault)
  /-- More collections inside one another than the machine can follow. -/
  | tooDeep
  /-- A document with a collection inside itself, which has no value here. -/
  | endless
  /-- A value that holds a whole number too long to be written out. -/
  | unwritable
  | settingsNotMapping
  | noGenerator
  deriving DecidableEq, Repr

namespace ConfigFault

def message : ConfigFault → String
  | unreadableDocument => "Invalid settings document"
  | rootNotMapping => "Settings root must be a mapping"
  | missingVersion => "Settings document is missing 'version'"
  | unsupportedVersion v => "Unsupported settings version '" ++ v ++ "'"
  | packagesNotList => "'packages' must be a list"
  | overridesNotList => "'overrides' must be a list"
  | packageNotMapping => "package entries must be mappings"
  | missingPackageName => "package is missing required 'name'"
  | duplicatePackage n => "duplicate package name '" ++ n ++ "'"
  | unknownPackage n => "unknown package '" ++ n ++ "'"
  | overrideNotMapping => "override entries must be mappings"
  | missingTarget => "override is missing required 'go_type'"
  | bothCriteria c s =>
    "specifies both 'column' (" ++ c ++ ") and 'postgres_type' (" ++ s ++ ")"
  | noCriterion => "must specify one of either 'column' or 'postgres_type'"
  | malformedTarget =>
    "not the proper format, expected 'package.Type', e.g. 'github.com/segmentio/ksuid.KSUID'"
  | misplacedNull => "'null' only applies to 'postgres_type' overrides"
  | misplacedArray => "'array' only applies to 'column' overrides"
  | emptyRefPart raw => "column reference '" ++ raw ++ "' has an empty part"
  | malformedRef raw =>
    "column reference '" ++ raw ++ "' must be 'table.column' or 'schema.table.column'"
  | arrayOverScalar c => "array override targets scalar column '" ++ c.text ++ "'"
  | other message => message

end ConfigFault

namespace Error

/-- A note in front of a message, unless there is nothing to note. -/
def noted (note : Option String) (wrap : String → String) (message : String) : String :=
  match note with
  | none => message
  | some n => if n = "" then message else wrap n ++ message

def inPackage (package : Option String) : String → String :=
  noted package fun p => "[" ++ p ++ "] "

def onOverride (override : Option String) : String → String :=
  noted override fun o => "Override '" ++ o ++ "': "

def message : Error → String
  | configuration fault package override =>
    inPackage package (onOverride override fault.message)
  | unsupportedType sqlType column package =>
    inPackage package ("No type mapping for '" ++ sqlType ++ "' (column '" ++ column ++ "')")
  | general message package => inPackage package message
  | scalar _ => "a scalar has no value"
  | tooDeep => "too many collections stand inside one another"
  | endless => "a collection stands inside itself"
  | unwritable => "a whole number is too long to be written out"
  | settingsNotMapping => "settings must be a mapping"
  | noGenerator => "no generator is open"

end Error

end RowModel
