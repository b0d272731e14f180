import RowModel.Override.Parse
import RowModel.Settings.Basic
import RowModel.Yaml.Document

/-!
Settings from raw values and from the text of a document. An entry that is missing or counts as
false is an empty list where a list is wanted.
-/
namespace RowModel

/-- A list, or nothing at all. -/
def Value.items? : Value → Option (List Value)
  | .list items => some items
  | v => if v.truthy then none else some []

namespace Package

variable [Machine]

def ofEntries (entries : List (Value × Value)) (name : String) : Except Error Package :=
  match (Value.get "overrides" entries).items? with
  | none => .error (.configuration .overridesNotList (some name) none)
  | some raws =>
    match raws.mapM (Rule.parse · (some name)) with
    | .error e => .error e
    | .ok overrides => .ok
      { name
        path := Value.get "path" entries
        queries := Value.get "queries" entries
        schema := Value.get "schema" entries
        emitJsonTags := some (Value.get "emit_json_tags" entries).truthy
        emitPreparedQueries := some (Value.get "emit_prepared_queries" entries).truthy
        overrides }

def parse (raw : Value) : Except Error Package :=
  match raw with
  | .map entries =>
    match Value.get "name" entries with
    | .str name =>
      if name = "" then .error (.configuration .missingPackageName none none)
      else ofEntries entries name
    | _ => .error (.configuration .missingPackageName none none)
  | _ => .error (.configuration .packageNotMapping none none)

end Package

def supportedVersions : List String := ["1"]

namespace Settings

variable [Machine]

def ofEntries (entries : List (Value × Value)) : Except Error Settings :=
  match (Value.get "packages" entries).items?, (Value.get "overrides" entries).items? with
  | none, _ => .error (.configuration .packagesNotList none none)
  | some _, none => .error (.configuration .overridesNotList none none)
  | some packages, some overrides => do
    let version ← ((Value.find? "version" entries).getD (.str "1")).wording .settings
    let packages ← packages.mapM Package.parse
    let overrides ← overrides.mapM (Rule.parse · none)
    ofParts (some version) packages overrides

def ofValue (raw : Value) : Except Error Settings :=
  match raw with
  | .map entries => ofEntries entries
  | _ => .error .settingsNotMapping

end Settings

section

variable [Machine]

/-- The entries of a document that a reader finds well formed and that has a supported version. -/
def loadWith (read : String → Except Yaml.Fault Value) (text : String) :
    Except Error (List (Value × Value)) :=
  match read text with
  | .error .illFormed => .error (.configuration .unreadableDocument none none)
  | .error .tooDeep => .error .tooDeep
  | .error .endless => .error .endless
  | .error (.noValue f) => .error (.scalar f)
  | .ok (.map entries) =>
    match Value.get "version" entries with
    | .null => .error (.configuration .missingVersion none none)
    | version =>
      match version.wording .version with
      | .error e => .error e
      | .ok v =>
        if supportedVersions.contains v then .ok entries
        else match version.wording .message with
          | .error e => .error e
          | .ok v => .error (.configuration (.unsupportedVersion v) none none)
  | .ok _ => .error (.configuration .rootNotMapping none none)

def loadDocument (text : String) : Except Error (List (Value × Value)) :=
  loadWith Yaml.load text

def Settings.parseWith (read : String → Except Yaml.Fault Value) (text : String) :
    Except Error Settings :=
  match loadWith read text with
  | .error e => .error e
  | .ok entries => Settings.ofEntries entries

def Settings.parse (text : String) : Except Error Settings := Settings.parseWith Yaml.load text

end

end RowModel
