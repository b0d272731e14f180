import RowModel.Yaml.Node.Build
import RowModel.Yaml.Node.Read

/-!
The value of a document. An empty stream has the value null.
-/
namespace RowModel.Yaml

variable [Machine]

def readNode (text : List Char) : Except Fault (Option Node) :=
  match Source.ofText? text with
  | none => .error .illFormed
  | some source => Node.ofTokens (Token.ofSource source)

def load (text : String) : Except Fault Value :=
  match readNode text.toList with
  | .error f => .error f
  | .ok none => .ok .null
  | .ok (some node) => node.build

end RowModel.Yaml
