/-!
Why a document has no value. An ill-formed document is one fault whatever is wrong with it; a
scalar that is well formed but names no value is told apart by what is missing.
-/
namespace RowModel.Yaml

inductive ScalarFault where
  /-- A number, date or character code that does not exist. -/
  | noSuchValue
  /-- A number too large to be worked with. -/
  | tooLarge
  /-- Not one of the words for a truth value. -/
  | noSuchWord
  /-- A number without any digit. -/
  | empty
  /-- Not the shape of a date. -/
  | notADate
  /-- A date that is not written as a scalar. -/
  | notText
  deriving DecidableEq, Repr

inductive Fault where
  | illFormed
  /-- More collections inside one another, or keys that lead from one to the next, than the machine
  can follow. -/
  | tooDeep
  /-- A collection stands inside itself. Such a document is well formed, but has no value here. -/
  | endless
  | noValue (fault : ScalarFault)
  deriving DecidableEq, Repr

end RowModel.Yaml
