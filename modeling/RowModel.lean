import RowModel.Calendar
import RowModel.Catalog
import RowModel.Decimal.Double
import RowModel.Decimal.Layout
import RowModel.Decimal.Shortest
import RowModel.Error
import RowModel.Generator
import RowModel.Imports
import RowModel.Json
import RowModel.Json.Reading
import RowModel.Json.Tree
import RowModel.Machine
import RowModel.Name
import RowModel.Override.Basic
import RowModel.Override.Parse
import RowModel.Override.Resolve
import RowModel.Session
import RowModel.Settings.Basic
import RowModel.Settings.Load
import RowModel.Struct
import RowModel.Table
import RowModel.Text.Base64
import RowModel.Text.Blank
import RowModel.Text.Digit
import RowModel.Text.Numeral
import RowModel.Text.Printable
import RowModel.Text.Quoted
import RowModel.Text.Split
import RowModel.Text.Units
import RowModel.Text.Upper
import RowModel.TypeMap
import RowModel.Value.Basic
import RowModel.Value.Show
import RowModel.Yaml.Block
import RowModel.Yaml.Directive
import RowModel.Yaml.Document
import RowModel.Yaml.Fault
import RowModel.Yaml.Fold
import RowModel.Yaml.Implicit
import RowModel.Yaml.Node
import RowModel.Yaml.Node.Build
import RowModel.Yaml.Node.Merge
import RowModel.Yaml.Node.Read
import RowModel.Yaml.Plain
import RowModel.Yaml.Property
import RowModel.Yaml.Quoted
import RowModel.Yaml.Scalar
import RowModel.Yaml.Source
import RowModel.Yaml.Tag
import RowModel.Yaml.Timestamp
import RowModel.Yaml.Token
import RowModel.Yaml.Token.Scan
import RowModel.Proofs.Identifier
import RowModel.Proofs.Numbering
import RowModel.Proofs.Occurrence
import RowModel.Proofs.Distinct
import RowModel.Proofs.ImportPath
import RowModel.Proofs.Precedence
import RowModel.Proofs.Declaration
import RowModel.Proofs.Qualified
import RowModel.Proofs.LoadErrors
import RowModel.Proofs.NullKey
import RowModel.Proofs.Position
import RowModel.Proofs.FirstFailure
import RowModel.Proofs.Independence
import RowModel.Proofs.EnumColumn
import RowModel.Proofs.Violation
import RowModel.Proofs.Rearrangement
import RowModel.Proofs.Growth
import RowModel.Proofs.Likeness
import RowModel.Proofs.Spelling
import RowModel.Proofs.Acceptance
import RowModel.Proofs.Reference
import RowModel.Proofs.Usable
import RowModel.Proofs.SameRule
import RowModel.Proofs.RuleFault
import RowModel.Proofs.Session
import RowModel.Proofs.Wording
import RowModel.Proofs.ImportSet
import RowModel.Proofs.Locality
import RowModel.Proofs.Singular
import RowModel.Proofs.Nameless
import RowModel.Proofs.Composition
import RowModel.Proofs.Compound
import RowModel.Proofs.Plural
import RowModel.Proofs.Label
import RowModel.Proofs.Double
import RowModel.Proofs.Document.Building
import RowModel.Proofs.Document.Flow
import RowModel.Proofs.Json.Leaf
import RowModel.Proofs.Json.Alike
import RowModel.Proofs.Json.Grammar
import RowModel.Proofs.Json.Loading
