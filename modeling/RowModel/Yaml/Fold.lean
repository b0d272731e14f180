import RowModel.Yaml.Source

/-!
Line folding: a single line end between words is a space, and of several the first is dropped.
The line and paragraph separators are never folded.
-/
namespace RowModel.Yaml

/-- What stands for the line end `first` and the line ends `later` after it. -/
def folded (first : Char) (later : List Char) : List Char :=
  if first ≠ '\n' then first :: later
  else if later.isEmpty then [' '] else later

/-- Where a scalar stands between two words of its text. -/
inductive Gap where
  | none
  /-- After these spaces, the last one first. -/
  | spaces (chars : List Char)
  /-- After a line end, and after the line ends `later`, the last one first. A line end that was
  escaped has no `first`. `fresh` at the start of a line. -/
  | breaks (first : Option Char) (later : List Char) (fresh : Bool)
  deriving DecidableEq, Repr

def Gap.text : Gap → List Char
  | none => []
  | spaces chars => chars.reverse
  | breaks (some first) later _ => folded first later.reverse
  | breaks Option.none later _ => later.reverse

end RowModel.Yaml
