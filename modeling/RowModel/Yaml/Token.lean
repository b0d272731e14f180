import RowModel.Yaml.Directive

/-!
The tokens of a document. Those of block collections come from indentation and from the place of a
colon; a fault of the text stands where reading stopped. Scalars hold their text in stored form.
-/
namespace RowModel.Yaml

inductive Token where
  | directive (d : Directive)
  | documentStart
  | documentEnd
  | streamEnd
  | blockSequence
  | blockMapping
  | blockEnd
  | flowSequence
  | flowSequenceEnd
  | flowMapping
  | flowMappingEnd
  | entry
  | comma
  | key
  | value
  | alias (name : List Char)
  | anchor (name : List Char)
  | tag (text : TagText)
  | scalar (text : List Char) (plain : Bool)
  | fault (fault : Fault)
  deriving DecidableEq, Repr

end RowModel.Yaml
